import Mux.Lib.Text

/-!
# Words of a shell command

Token recognition and quote removal of the POSIX shell, for a simple command of plain words.
A text that asks the shell for more (an operator, an expansion, a pattern, a comment, an
assignment) has no words here, and neither has one with an open quote.
-/

namespace Lib

inductive Quoting where
  | plain
  | single
  | double

/-- What means more than itself outside quotes. -/
def special (c : Char) : Bool := "|&;<>()$`*?[#~=%!\n".toList.contains c

/-- The words of what is left, behind the word that has been started. -/
def wordsFrom : Quoting → Option Text → Text → Option (List Text)
  | .plain, word, [] => some word.toList
  | .single, _, [] | .double, _, [] => none
  | .plain, word, c :: rest =>
    if c = ' ' ∨ c = '\t' then (wordsFrom .plain none rest).map fun more => word.toList ++ more
    else if c = '\'' then wordsFrom .single (some (word.getD [])) rest
    else if c = '"' then wordsFrom .double (some (word.getD [])) rest
    else if c = '\\' then
      match rest with
      | [] => none
      | d :: rest =>
        if d = '\n' then wordsFrom .plain word rest else wordsFrom .plain (some (word.getD [] ++ [d])) rest
    else if special c then none
    else wordsFrom .plain (some (word.getD [] ++ [c])) rest
  | .single, word, c :: rest =>
    if c = '\'' then wordsFrom .plain word rest else wordsFrom .single (some (word.getD [] ++ [c])) rest
  | .double, word, c :: rest =>
    if c = '"' then wordsFrom .plain word rest
    else if c = '$' ∨ c = '\x60' then none
    else if c = '\\' then
      match rest with
      | [] => none
      | d :: rest =>
        if d = '\n' then wordsFrom .double word rest
        else if d = '$' ∨ d = '\x60' ∨ d = '"' ∨ d = '\\' then wordsFrom .double (some (word.getD [] ++ [d])) rest
        else wordsFrom .double (some (word.getD [] ++ ['\\', d])) rest
    else wordsFrom .double (some (word.getD [] ++ [c])) rest

def shellWords (t : Text) : Option (List Text) := wordsFrom .plain none t

/-- `replacingOccurrences(of:with:)` for one character. -/
def replacing (c : Char) (new : Text) (t : Text) : Text := t.flatMap fun d => if d = c then new else [d]

/-- Between single quotes, a quote is closed, escaped and opened again. -/
def quoted (t : Text) : Text := '\'' :: (replacing '\'' ['\'', '\\', '\'', '\''] t ++ ['\''])

theorem wordsFrom_blank (word : Option Text) (rest : Text) :
    wordsFrom .plain word (' ' :: rest) = (wordsFrom .plain none rest).map fun more => word.toList ++ more := by
  rw [wordsFrom.eq_def]
  simp

theorem wordsFrom_open (word : Option Text) (rest : Text) :
    wordsFrom .plain word ('\'' :: rest) = wordsFrom .single (some (word.getD [])) rest := by
  rw [wordsFrom.eq_def]
  simp

theorem wordsFrom_escaped (t rest : Text) (w : Text) :
    wordsFrom .single (some w) (replacing '\'' ['\'', '\\', '\'', '\''] t ++ '\'' :: rest) =
      wordsFrom .plain (some (w ++ t)) rest := by
  induction t generalizing w with
  | nil => simp [replacing, wordsFrom]
  | cons c t ih =>
    have hassoc : w ++ c :: t = w ++ [c] ++ t := by simp
    unfold replacing at ih ⊢
    rw [hassoc, ← ih, List.flatMap_cons]
    by_cases hc : c = '\''
    · rw [if_pos hc, hc]
      simp [wordsFrom, wordsFrom_open]
    · rw [if_neg hc]
      simp [wordsFrom, hc]

theorem wordsFrom_quoted (t rest : Text) :
    wordsFrom .plain none (quoted t ++ rest) = wordsFrom .plain (some t) rest := by
  have h := wordsFrom_escaped t rest []
  rw [List.nil_append] at h
  rw [← h, quoted, List.cons_append, wordsFrom_open, List.append_assoc]
  rfl

/-- Quoted words joined by blanks are read back as they are. -/
theorem shellWords_quoted (argv : List Text) : shellWords ([' '].intercalate (argv.map quoted)) = some argv := by
  unfold shellWords
  induction argv with
  | nil => rfl
  | cons a argv ih =>
    cases argv with
    | nil =>
      have hone : [' '].intercalate ([a].map quoted) = quoted a ++ [] := by simp [List.intercalate]
      rw [hone, wordsFrom_quoted]
      rfl
    | cons b argv =>
      have hcons : [' '].intercalate ((a :: b :: argv).map quoted) =
          quoted a ++ ' ' :: [' '].intercalate ((b :: argv).map quoted) := by
        simp [List.intercalate]
      rw [hcons, wordsFrom_quoted, wordsFrom_blank, ih]
      rfl

end Lib
