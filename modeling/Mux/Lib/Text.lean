import Mathlib.Data.List.Induction
import Mathlib.Data.List.Basic
import Mathlib.Data.List.TakeWhile

/-!
# Lines and fields of a text

A text is a list of characters. Its lines and its fields are its segments between newlines
and between white space. What is appended to a text goes to the last segment, the one that
nothing ends: `openPart` is that segment and `closedParts` are the others.
-/

namespace Lib

abbrev Text := List Char

section
variable {α : Type} (p : α → Bool)

def openPart (l : List α) : List α := (l.splitOnP p).getLastD []

def closedParts (l : List α) : List (List α) := (l.splitOnP p).dropLast

variable {p}

theorem splitOnP_eq (l : List α) : l.splitOnP p = closedParts p l ++ [openPart p l] := by
  unfold closedParts openPart
  have hne := List.splitOnP_ne_nil p l
  rw [List.getLastD_eq_getLast?, List.getLast?_eq_some_getLast hne, Option.getD_some, List.dropLast_concat_getLast hne]

theorem parts_of_splitOnP {l y : List α} {x : List (List α)} (h : l.splitOnP p = x ++ [y]) :
    closedParts p l = x ∧ openPart p l = y := by
  rw [splitOnP_eq] at h
  obtain ⟨h1, h2⟩ := List.append_inj' h rfl
  exact ⟨h1, by simpa using h2⟩

@[simp] theorem openPart_nil : openPart p [] = [] := rfl

@[simp] theorem closedParts_nil : closedParts p [] = [] := rfl

/-- What ends no segment extends the open one. -/
theorem splitOnP_append {w : List α} (hw : ∀ c ∈ w, p c = false) :
    ∀ l : List α, (l ++ w).splitOnP p = closedParts p l ++ [openPart p l ++ w]
  | [] => by simpa using List.splitOnP_eq_singleton hw
  | c :: l => by
    rw [List.cons_append, List.splitOnP_cons_eq_if_modifyHead, splitOnP_append hw l]
    have hl : (c :: l).splitOnP p = _ := List.splitOnP_cons_eq_if_modifyHead c l
    rw [splitOnP_eq l] at hl
    by_cases hc : p c = true
    · rw [if_pos hc] at hl ⊢
      obtain ⟨h1, h2⟩ := parts_of_splitOnP (x := [] :: closedParts p l) hl
      rw [h1, h2, List.cons_append]
    · rw [if_neg hc] at hl ⊢
      cases hcl : closedParts p l with
      | nil =>
        rw [hcl] at hl
        obtain ⟨h1, h2⟩ := parts_of_splitOnP (x := []) hl
        rw [h1, h2]
        rfl
      | cons a as =>
        rw [hcl] at hl
        obtain ⟨h1, h2⟩ := parts_of_splitOnP (x := (c :: a) :: as) hl
        rw [h1, h2]
        rfl

theorem parts_append {l w : List α} (hw : ∀ c ∈ w, p c = false) :
    closedParts p (l ++ w) = closedParts p l ∧ openPart p (l ++ w) = openPart p l ++ w :=
  parts_of_splitOnP (splitOnP_append hw l)

/-- A separator closes the open part. -/
theorem parts_append_sep {l w : List α} {c : α} (hc : p c = true) (hw : ∀ c ∈ w, p c = false) :
    closedParts p (l ++ c :: w) = closedParts p l ++ [openPart p l] ∧ openPart p (l ++ c :: w) = w := by
  apply parts_of_splitOnP
  rw [List.splitOnP_append_cons l w hc, splitOnP_eq l, List.splitOnP_eq_singleton hw]

/-- The open part ends nowhere. -/
theorem not_of_mem_openPart {l : List α} : ∀ c ∈ openPart p l, p c = false := by
  induction l using List.reverseRecOn with
  | nil => simp
  | append_singleton l a ih =>
    by_cases ha : p a = true
    · rw [(parts_append_sep ha (by simp)).2]
      simp
    · have hl : ∀ c ∈ [a], p c = false := by simpa using ha
      rw [(parts_append hl).2]
      intro c hc
      rcases List.mem_append.mp hc with hc | hc
      · exact ih c hc
      · exact hl c hc

/-- Only the open part goes on with what comes next. -/
theorem parts_append_open (l m : List α) :
    closedParts p (l ++ m) = closedParts p l ++ closedParts p (openPart p l ++ m) ∧
      openPart p (l ++ m) = openPart p (openPart p l ++ m) := by
  induction m using List.reverseRecOn with
  | nil =>
    have hclean := parts_append (l := []) (not_of_mem_openPart (p := p) (l := l))
    simp only [List.nil_append, closedParts_nil, openPart_nil] at hclean
    rw [List.append_nil, List.append_nil, hclean.1, hclean.2, List.append_nil]
    exact ⟨rfl, rfl⟩
  | append_singleton m a ih =>
    rw [← List.append_assoc, ← List.append_assoc]
    by_cases ha : p a = true
    · have hleft := parts_append_sep (l := l ++ m) ha (w := []) (by simp)
      have hright := parts_append_sep (l := openPart p l ++ m) ha (w := []) (by simp)
      rw [hleft.1, hleft.2, hright.1, hright.2, ih.1, ih.2, List.append_assoc]
      exact ⟨rfl, rfl⟩
    · have hw : ∀ c ∈ [a], p c = false := by simpa using ha
      have hleft := parts_append (l := l ++ m) hw
      have hright := parts_append (l := openPart p l ++ m) hw
      rw [hleft.1, hleft.2, hright.1, hright.2, ih.1, ih.2]
      exact ⟨rfl, rfl⟩

end

/-! ## White space -/

/-- The Unicode property `White_Space`. -/
def isWhitespace (c : Char) : Bool :=
  let n := c.toNat
  (9 ≤ n && n ≤ 13) || n == 32 || n == 0x85 || n == 0xa0 || n == 0x1680 || (0x2000 ≤ n && n ≤ 0x200a) || n == 0x2028 ||
    n == 0x2029 || n == 0x202f || n == 0x205f || n == 0x3000

def isNewline (c : Char) : Bool := c == '\n'

/-- A string that is one field. -/
structure IsWord (w : Text) : Prop where
  ne_nil : w ≠ []
  no_space : ∀ c ∈ w, isWhitespace c = false

def splitWhitespace (l : Text) : List Text := (l.splitOnP isWhitespace).filter fun f => !f.isEmpty

def trim (l : Text) : Text := (((l.dropWhile isWhitespace).reverse).dropWhile isWhitespace).reverse

theorem isWord_of_all {w : Text} (hne : w ≠ []) (h : w.all (fun c => !isWhitespace c) = true) : IsWord w :=
  ⟨hne, fun c hc => by simpa using List.all_eq_true.mp h c hc⟩

theorem dropWhile_of_word {w : Text} (hw : ∀ c ∈ w, isWhitespace c = false) : w.dropWhile isWhitespace = w := by
  cases w with
  | nil => rfl
  | cons c w => simp [hw c (by simp)]

theorem trim_of_word {w : Text} (hw : IsWord w) : trim w = w := by
  have hr : ∀ c ∈ w.reverse, isWhitespace c = false := fun c hc => hw.no_space c (List.mem_reverse.mp hc)
  rw [trim, dropWhile_of_word hw.no_space, dropWhile_of_word hr, List.reverse_reverse]

theorem trim_isEmpty_iff (t : Text) : (trim t).isEmpty = true ↔ ∀ c ∈ t, isWhitespace c = true := by
  rw [List.isEmpty_iff, trim, List.reverse_eq_nil_iff, List.dropWhile_eq_nil_iff]
  constructor
  · intro h c hc
    by_cases hdrop : c ∈ t.dropWhile isWhitespace
    · exact h c (List.mem_reverse.mpr hdrop)
    · have htake : c ∈ t.takeWhile isWhitespace := by
        rw [← List.takeWhile_append_dropWhile (p := isWhitespace) (l := t), List.mem_append] at hc
        exact hc.resolve_right hdrop
      exact List.mem_takeWhile_imp htake
  · intro h c hc
    exact h c ((List.dropWhile_suffix _).subset (List.mem_reverse.mp hc))

/-! ## Lines -/

def stripCr (l : Text) : Text := if l.getLast? = some '\r' then l.dropLast else l

def openLine (t : Text) : Text := openPart isNewline t

def closedLines (t : Text) : List Text := (closedParts isNewline t).map stripCr

/-- A line ends at a newline or at a carriage return and a newline; the last one need not end. -/
def lines (t : Text) : List Text := closedLines t ++ if openLine t = [] then [] else [openLine t]

theorem lines_of_open {t : Text} (h : openLine t = []) : lines t = closedLines t := by
  simp [lines, h]

theorem newline_space {c : Char} (h : isWhitespace c = false) : isNewline c = false := by
  unfold isNewline
  by_cases hc : c = '\n'
  · subst hc
    exact absurd h (by decide)
  · simpa using hc

theorem stripCr_of_word {l w : Text} (hw : IsWord w) : stripCr (l ++ w) = l ++ w := by
  unfold stripCr
  rw [List.getLast?_append_of_ne_nil _ hw.ne_nil]
  split
  · rename_i h
    exact absurd (hw.no_space '\r' (List.mem_of_getLast? h)) (by decide)
  · rfl

/-- A line appended to a text is a line of its own only after a newline. -/
theorem append_line {t x w : Text} (hx : ∀ c ∈ x, isNewline c = false) (hw : IsWord w) :
    closedLines (t ++ (x ++ w) ++ ['\n']) = closedLines t ++ [openLine t ++ (x ++ w)] ∧
      openLine (t ++ (x ++ w) ++ ['\n']) = [] := by
  have hxw : ∀ c ∈ x ++ w, isNewline c = false := by
    intro c hc
    rcases List.mem_append.mp hc with hc | hc
    · exact hx c hc
    · exact newline_space (hw.no_space c hc)
  obtain ⟨h1, h2⟩ := parts_append (l := t) hxw
  obtain ⟨h3, h4⟩ := parts_append_sep (p := isNewline) (l := t ++ (x ++ w)) (w := []) (c := '\n') rfl (by simp)
  unfold closedLines openLine
  refine ⟨?_, h4⟩
  rw [h3, h1, h2, List.map_append, List.map_singleton, ← List.append_assoc, stripCr_of_word hw]

/-! ## Fields -/

def openWord (l : Text) : Text := openPart isWhitespace l

def closedWords (l : Text) : List Text := (closedParts isWhitespace l).filter fun f => !f.isEmpty

theorem splitWhitespace_eq (l : Text) :
    splitWhitespace l = closedWords l ++ if openWord l = [] then [] else [openWord l] := by
  unfold splitWhitespace closedWords openWord
  rw [splitOnP_eq, List.filter_append]
  congr 1
  cases openPart isWhitespace l <;> simp

/-- A field put at the end of a line extends the last field of the line, if nothing separates them. -/
theorem splitWhitespace_append {l w v : Text} (hw : IsWord w) (hv : IsWord v) :
    splitWhitespace (l ++ (w ++ ' ' :: v)) = closedWords l ++ [openWord l ++ w, v] := by
  obtain ⟨h1, h2⟩ := parts_append (l := l) hw.no_space
  obtain ⟨h3, h4⟩ := parts_append_sep (p := isWhitespace) (l := l ++ w) (c := ' ') rfl hv.no_space
  unfold splitWhitespace closedWords openWord
  rw [← List.append_assoc, splitOnP_eq, h3, h4, h1, h2]
  have hne := hw.ne_nil
  have hne' := hv.ne_nil
  simp [List.filter_append, hne, hne']

end Lib
