import Mux.Lib.Run
import Mux.PinSound

/-!
# First contact with a host

The connection cache is not locked while a host is dialled, so several handshakes with the
same unknown host can be under way at once, each between reading the pin and storing one. The
file is not locked and not buffered: an append is one write for each piece of its line.
-/

namespace Mux.FirstContact

open Lib KnownHosts

/-- A `check_pin` call: about to read the pin, appending one with `n` writes made, or answered. -/
inductive Phase where
  | reading
  | appending (n : Nat)
  | accepted
  | refused
  deriving DecidableEq

structure State where
  file : Option Text
  calls : List (Fingerprint × Phase)

/-- `fail` is an error of a read or a write, or a dial that is given up. -/
inductive Label where
  | dial (f : Fingerprint)
  | readPin (k : Nat)
  | write (k : Nat)
  | fail (k : Nat)

def readNext (file : Option Text) (host f : Text) : Phase :=
  match readPin file host with
  | some pinned => if pinned = f then .accepted else .refused
  | none => .appending 0

/-- The writes that `writeln!` makes. -/
def pieces (host f : Text) : List Text := [host, [' '], f, ['\n']]

def writeNext (n : Nat) : Phase := if n = 3 then .accepted else .appending (n + 1)

def step (host : Alias) (s : State) : Label → Option State
  | .dial f => some { s with calls := s.calls ++ [(f, .reading)] }
  | .readPin k =>
    match s.calls[k]? with
    | some (f, .reading) => some { s with calls := s.calls.set k (f, readNext s.file host.1 f.1) }
    | _ => none
  | .write k =>
    match s.calls[k]? with
    | some (f, .appending n) =>
      (pieces host.1 f.1)[n]?.map fun piece => ⟨some (s.file.getD [] ++ piece), s.calls.set k (f, writeNext n)⟩
    | _ => none
  | .fail k =>
    match s.calls[k]? with
    | some (f, .reading) | some (f, .appending _) => some { s with calls := s.calls.set k (f, .refused) }
    | _ => none

/-- A well-formed file that does not know the host. -/
def Unknown (file : Option Text) (host : Alias) : Prop :=
  named file host.1 = false ∧ splitWhitespace (tail file) = []

def start (file : Option Text) : State := ⟨file, []⟩

/-- No two calls are accepted with different certificates. -/
def Agreed (s : State) : Prop :=
  ∀ (i j : Nat) (f g : Fingerprint), s.calls[i]? = some (f, .accepted) → s.calls[j]? = some (g, .accepted) → f = g

/-- A line is begun after whole lines only. -/
def Alone (s : State) : Label → Prop
  | .write k =>
    match s.calls[k]? with
    | some (_, .appending 0) => splitWhitespace (tail s.file) = []
    | _ => True
  | _ => True

/-- When a line is ended, the file has its pin for the host, and not one that another call has stored. -/
def Unraced (host : Alias) (s : State) : Label → Prop
  | .write k =>
    match s.calls[k]? with
    | some (f, .appending 3) => readPin s.file host.1 = some f.1
    | _ => True
  | _ => True

instance (s : State) (a : Label) : Decidable (Alone s a) := by
  unfold Alone
  split
  · split <;> infer_instance
  · infer_instance

instance (host : Alias) (s : State) (a : Label) : Decidable (Unraced host s a) := by
  unfold Unraced
  split
  · split <;> infer_instance
  · infer_instance

/-! ## A line that is being written -/

section
variable {host : Alias} {file : Option Text} {f : Fingerprint}

/-- What the first `n` writes have put into the file. -/
def written (host f : Text) (n : Nat) : Text := ((pieces host f).take n).flatten

theorem appendPin_eq (file : Option Text) (host f : Text) :
    appendPin file host f = file.getD [] ++ written host f 3 ++ ['\n'] := by
  simp [appendPin, written, pieces]

theorem written_succ {host f piece : Text} {n : Nat} (h : (pieces host f)[n]? = some piece) :
    written host f (n + 1) = written host f n ++ piece := by
  unfold written
  rw [List.take_add_one, h]
  simp

/-- A file whose last line is blank. -/
def Blank (text : Text) : Prop := splitWhitespace (openLine text) = []

theorem Blank.parts {text : Text} (h : Blank text) : closedWords (openLine text) = [] ∧ openWord (openLine text) = [] := by
  unfold Blank at h
  rw [splitWhitespace_eq] at h
  obtain ⟨hclosed, hopen⟩ := List.append_eq_nil_iff.mp h
  refine ⟨hclosed, ?_⟩
  by_contra hne
  rw [if_neg hne] at hopen
  cases hopen

theorem written_line {n : Nat} (hn : n ≤ 3) : ∀ c ∈ written host.1 f.1 n, isNewline c = false := by
  have hhost : ∀ c ∈ host.1, isNewline c = false := fun c hc => newline_space (host.isWord.no_space c hc)
  have hf : ∀ c ∈ f.1, isNewline c = false := fun c hc => newline_space (f.2.no_space c hc)
  intro c hc
  have hmem : c ∈ host.1 ++ [' '] ++ f.1 := by
    obtain rfl | rfl | rfl | rfl : n = 0 ∨ n = 1 ∨ n = 2 ∨ n = 3 := by omega
    all_goals simp [written, pieces] at hc ⊢
    all_goals tauto
  simp only [List.mem_append, List.mem_singleton] at hmem
  rcases hmem with (hmem | rfl) | hmem
  · exact hhost c hmem
  · rfl
  · exact hf c hmem

/-- The line that has been begun has the host as its first field, and the fingerprint once it is written. -/
theorem fields_written {base : Text} (h : Blank base) {n : Nat} (h0 : 0 < n) (hn : n ≤ 3) :
    splitWhitespace (openLine (base ++ written host.1 f.1 n)) = if n = 3 then [host.1, f.1] else [host.1] := by
  obtain ⟨hclosed, hopen⟩ := h.parts
  have hline : openLine (base ++ written host.1 f.1 n) = openLine base ++ written host.1 f.1 n :=
    (parts_append (written_line hn)).2
  have hword := parts_append (p := isWhitespace) (l := openLine base) host.isWord.no_space
  have hhost := host.isWord.ne_nil
  rw [hline]
  unfold closedWords at hclosed
  unfold openWord at hopen
  obtain rfl | rfl | rfl : n = 1 ∨ n = 2 ∨ n = 3 := by omega
  · rw [show written host.1 f.1 1 = host.1 by simp [written, pieces], splitWhitespace_eq]
    unfold closedWords openWord
    rw [hword.1, hword.2, hclosed, hopen]
    simp [hhost]
  · have hspace := parts_append_sep (p := isWhitespace) (l := openLine base ++ host.1) (c := ' ') (w := []) rfl (by simp)
    rw [show written host.1 f.1 2 = host.1 ++ [' '] by simp [written, pieces], ← List.append_assoc, splitWhitespace_eq]
    unfold closedWords openWord
    rw [hspace.1, hspace.2, hword.1, hword.2, hopen, List.nil_append, List.filter_append, hclosed]
    simp [hhost]
  · rw [show written host.1 f.1 3 = host.1 ++ ' ' :: f.1 by simp [written, pieces],
      splitWhitespace_append host.isWord f.2]
    unfold closedWords openWord
    rw [hclosed, hopen]
    rfl

/-! ## What is appended to a file that knows the host -/

theorem closedLines_append (text more : Text) : ∃ ls, closedLines (text ++ more) = closedLines text ++ ls := by
  unfold closedLines
  rw [(parts_append_open text more).1, List.map_append]
  exact ⟨_, rfl⟩

theorem readPin_of_named_append {text more host : Text} (h : named (some text) host = true) :
    named (some (text ++ more)) host = true ∧ readPin (some (text ++ more)) host = readPin (some text) host := by
  obtain ⟨ls, hls⟩ := closedLines_append text more
  have hany : (closedLines text).any (names host) = true := h
  have hnamed : named (some (text ++ more)) host = true := by
    unfold named
    rw [Option.getD_some, hls, List.any_append, hany]
    rfl
  refine ⟨hnamed, ?_⟩
  rw [readPin_of_named hnamed, readPin_of_named h, Option.getD_some, Option.getD_some, hls, pinIn_append, if_pos hany]

/-- The writes before the last one end no line. -/
theorem named_written {text : Text} {n : Nat} (hn : n ≤ 3) (host' : Text) :
    named (some (text ++ written host.1 f.1 n)) host' = named (some text) host' := by
  unfold named closedLines
  rw [Option.getD_some, Option.getD_some, (parts_append (written_line hn)).1]

/-- A line of its own is read, before and after it is ended. -/
theorem readPin_written {base : Text} (h : Blank base) (hn : named (some base) host.1 = false) :
    readPin (some (base ++ written host.1 f.1 3)) host.1 = some f.1 ∧
      readPin (some (base ++ written host.1 f.1 3 ++ ['\n'])) host.1 = some f.1 := by
  constructor
  · have hnamed : named (some (base ++ written host.1 f.1 3)) host.1 = false := by
      rw [named_written (Nat.le_refl 3), hn]
    have hfields : splitWhitespace (tail (some (base ++ written host.1 f.1 3))) = [host.1, f.1] :=
      fields_written h (by decide) (Nat.le_refl 3)
    rw [readPin_of_tail hnamed, hfields]
    exact second_some.mpr ⟨[], rfl⟩
  · obtain ⟨hclosed, hopen⟩ := h.parts
    have happend : base ++ written host.1 f.1 3 ++ ['\n'] = appendPin (some base) host.1 f.1 :=
      (appendPin_eq (some base) host.1 f.1).symm
    rw [happend, readPin_append host.isWord f.2, hn]
    show second host.1 (closedWords (openLine base) ++ [openWord (openLine base) ++ host.1, f.1]) = some f.1
    rw [hclosed, hopen]
    exact second_some.mpr ⟨[], rfl⟩

theorem readPin_getD (file : Option Text) (host : Text) : readPin (some (file.getD [])) host = readPin file host := by
  cases file <;> rfl

end

/-! ## Steps -/

section
variable {host : Alias} {s s' : State} {a : Label}

theorem step_cases (hs : step host s a = some s') :
    (∃ f, a = .dial f ∧ s' = { s with calls := s.calls ++ [(f, .reading)] }) ∨
    (∃ k f, a = .readPin k ∧ s.calls[k]? = some (f, .reading) ∧
      s' = { s with calls := s.calls.set k (f, readNext s.file host.1 f.1) }) ∨
    (∃ k f n piece, a = .write k ∧ s.calls[k]? = some (f, .appending n) ∧ (pieces host.1 f.1)[n]? = some piece ∧
      s' = ⟨some (s.file.getD [] ++ piece), s.calls.set k (f, writeNext n)⟩) ∨
    ∃ k f p, a = .fail k ∧ s.calls[k]? = some (f, p) ∧ p ≠ .accepted ∧
      s' = { s with calls := s.calls.set k (f, .refused) } := by
  cases a with
  | dial f =>
    cases hs
    exact .inl ⟨f, rfl, rfl⟩
  | readPin k =>
    simp only [step] at hs
    split at hs
    · rename_i f hk
      cases hs
      exact .inr (.inl ⟨k, f, rfl, hk, rfl⟩)
    · cases hs
  | write k =>
    simp only [step] at hs
    split at hs
    · rename_i f n hk
      obtain ⟨piece, hpiece, rfl⟩ := Option.map_eq_some_iff.mp hs
      exact .inr (.inr (.inl ⟨k, f, n, piece, rfl, hk, hpiece, rfl⟩))
    · cases hs
  | fail k =>
    simp only [step] at hs
    split at hs
    · rename_i f hk
      cases hs
      exact .inr (.inr (.inr ⟨k, f, _, rfl, hk, by simp, rfl⟩))
    · rename_i f n hk
      cases hs
      exact .inr (.inr (.inr ⟨k, f, _, rfl, hk, by simp, rfl⟩))
    · cases hs

theorem accepted_step (hs : step host s a = some s') {i : Nat} {f : Fingerprint}
    (hi : s.calls[i]? = some (f, .accepted)) : s'.calls[i]? = some (f, .accepted) := by
  have hset {k : Nat} {g : Fingerprint} {p : Phase} (hk : s.calls[k]? = some (g, p)) (hp : p ≠ .accepted)
      (x : Fingerprint × Phase) : (s.calls.set k x)[i]? = some (f, .accepted) := by
    refine getElem?_set_other ?_ hi
    rintro rfl
    rw [hk] at hi
    cases hi
    exact hp rfl
  rcases step_cases hs with ⟨g, -, rfl⟩ | ⟨k, g, -, hk, rfl⟩ | ⟨k, g, n, piece, -, hk, -, rfl⟩ | ⟨k, g, p, -, hk, hp, rfl⟩
  · exact getElem?_snoc_some_iff.mpr (.inl hi)
  · exact hset hk (by simp) _
  · exact hset hk (by simp) _
  · exact hset hk hp _

/-- One line is open at most, and the host has the pin of an accepted call once a whole line names it. -/
structure Inv (host : Alias) (s : State) : Prop where
  count : ∀ (k : Nat) (f : Fingerprint) (n : Nat), s.calls[k]? = some (f, .appending n) → n ≤ 3
  begun : ∀ (k : Nat) (f : Fingerprint) (n : Nat), s.calls[k]? = some (f, .appending n) → 0 < n →
    ∃ base, Blank base ∧ s.file = some (base ++ written host.1 f.1 n)
  one : ∀ (j k : Nat) (f g : Fingerprint) (m n : Nat), s.calls[j]? = some (f, .appending m) →
    s.calls[k]? = some (g, .appending n) → 0 < m → 0 < n → j = k
  pinned : named s.file host.1 = true →
    ∃ (i : Nat) (f : Fingerprint), s.calls[i]? = some (f, .accepted) ∧ readPin s.file host.1 = some f.1

theorem inv_start {file : Option Text} (h : Unknown file host) : Inv host (start file) where
  count k f n hk := by simp [start] at hk
  begun k f n hk := by simp [start] at hk
  one j k f g m n hj := by simp [start] at hj
  pinned hn := by
    rw [show named (start file).file host.1 = false from h.1] at hn
    cases hn

/-- Calls change, and none of them has more of a line in the file than it had. -/
theorem inv_calls {calls : List (Fingerprint × Phase)} (h : Inv host s)
    (hold : ∀ (k : Nat) (f : Fingerprint) (n : Nat), calls[k]? = some (f, .appending n) →
      n = 0 ∨ s.calls[k]? = some (f, .appending n))
    (haccepted : ∀ (i : Nat) (f : Fingerprint), s.calls[i]? = some (f, .accepted) → calls[i]? = some (f, .accepted)) :
    Inv host { s with calls := calls } where
  count k f n hk := by
    rcases hold k f n hk with rfl | hk
    · exact Nat.zero_le 3
    · exact h.count k f n hk
  begun k f n hk h0 := h.begun k f n ((hold k f n hk).resolve_left (Nat.ne_of_gt h0)) h0
  one j k f g m n hj hk hm hn :=
    h.one j k f g m n ((hold j f m hj).resolve_left (Nat.ne_of_gt hm)) ((hold k g n hk).resolve_left (Nat.ne_of_gt hn)) hm hn
  pinned hn := by
    obtain ⟨i, f, hi, hpin⟩ := h.pinned hn
    exact ⟨i, f, haccepted i f hi, hpin⟩

section
variable {k n : Nat} {f : Fingerprint} {piece : Text} (h : Inv host s) (ha : Alone s (.write k))
  (hk : s.calls[k]? = some (f, .appending n))
include h ha hk

/-- The line of the call that writes, after whole lines. -/
theorem line_of_alone : ∃ base, Blank base ∧ s.file.getD [] = base ++ written host.1 f.1 n := by
  cases n with
  | zero =>
    simp only [Alone, hk] at ha
    exact ⟨s.file.getD [], ha, (List.append_nil _).symm⟩
  | succ n =>
    obtain ⟨base, hbase, hfile⟩ := h.begun k f (n + 1) hk (Nat.succ_pos n)
    exact ⟨base, hbase, by rw [hfile, Option.getD_some]⟩

/-- Nobody else has begun a line. -/
theorem others_of_alone {j : Nat} {g : Fingerprint} {m : Nat} (hj : s.calls[j]? = some (g, .appending m)) (hne : j ≠ k) :
    m = 0 := by
  by_contra hm
  have hm := Nat.pos_of_ne_zero hm
  cases n with
  | zero =>
    simp only [Alone, hk] at ha
    obtain ⟨base, hbase, hfile⟩ := h.begun j g m hj hm
    have hfields : splitWhitespace (openLine (base ++ written host.1 g.1 m)) =
        if m = 3 then [host.1, g.1] else [host.1] := fields_written hbase hm (h.count j g m hj)
    rw [hfile] at ha
    rw [show splitWhitespace (openLine (base ++ written host.1 g.1 m)) = [] from ha] at hfields
    split at hfields <;> cases hfields
  | succ n => exact hne (h.one j k g f m (n + 1) hj hk hm (Nat.succ_pos n))

/-- A pin that is read goes on to be read. -/
theorem readPin_write (hpiece : (pieces host.1 f.1)[n]? = some piece) {g : Text}
    (hg : readPin s.file host.1 = some g) : readPin (some (s.file.getD [] ++ piece)) host.1 = some g := by
  obtain ⟨base, hbase, hfile⟩ := line_of_alone h ha hk
  have hn := h.count k f n hk
  rw [← readPin_getD] at hg
  cases hnamed : named (some (s.file.getD [])) host.1 with
  | true => rw [(readPin_of_named_append hnamed).2, hg]
  | false =>
    -- The pin is on the open line, so it is the whole of it.
    rw [readPin_of_tail hnamed, hfile] at hg
    have hbase' : named (some base) host.1 = false := by
      rw [← named_written (f := f) hn, ← hfile, hnamed]
    rcases Nat.eq_zero_or_pos n with rfl | h0
    · rw [show splitWhitespace (tail (some (base ++ written host.1 f.1 0))) = [] by
        simpa [tail, written, Blank] using hbase] at hg
      cases hg
    · rw [show splitWhitespace (tail (some (base ++ written host.1 f.1 n))) = _ from fields_written hbase h0 hn] at hg
      split at hg
      · rename_i h3
        subst h3
        cases hpiece
        obtain ⟨rest, hrest⟩ := second_some.mp hg
        cases hrest
        rw [hfile]
        exact (readPin_written hbase hbase').2
      · obtain ⟨rest, hrest⟩ := second_some.mp hg
        cases hrest

/-- The file after a write: a line further, or a line more. -/
theorem inv_write (hpiece : (pieces host.1 f.1)[n]? = some piece) :
    Inv host ⟨some (s.file.getD [] ++ piece), s.calls.set k (f, writeNext n)⟩ := by
  obtain ⟨base, hbase, hfile⟩ := line_of_alone h ha hk
  have hn := h.count k f n hk
  have hlt := lt_of_getElem?_some hk
  -- Only this call has begun a line.
  have honly (j : Nat) (g : Fingerprint) (m : Nat)
      (hj : (s.calls.set k (f, writeNext n))[j]? = some (g, .appending m)) (hm : 0 < m) :
      j = k ∧ g = f ∧ m = n + 1 ∧ n < 3 := by
    rcases (getElem?_set_some_iff hlt).mp hj with ⟨rfl, heq⟩ | ⟨hne, hj⟩
    · unfold writeNext at heq
      split at heq
      · cases heq
      · cases heq
        exact ⟨rfl, rfl, rfl, by omega⟩
    · rw [others_of_alone h ha hk hj hne] at hm
      exact absurd hm (Nat.lt_irrefl 0)
  refine ⟨?_, ?_, ?_, ?_⟩
  · intro j g m hj
    rcases Nat.eq_zero_or_pos m with rfl | hm
    · exact Nat.zero_le 3
    · obtain ⟨-, -, rfl, h3⟩ := honly j g m hj hm
      exact h3
  · intro j g m hj hm
    obtain ⟨-, rfl, rfl, -⟩ := honly j g m hj hm
    exact ⟨base, hbase, by rw [written_succ hpiece, hfile, List.append_assoc]⟩
  · intro i j g g' m m' hi hj hm hm'
    rw [(honly i g m hi hm).1, (honly j g' m' hj hm').1]
  · intro hnamed'
    cases hnamed : named s.file host.1 with
    | true =>
      obtain ⟨i, g, hi, hpin⟩ := h.pinned hnamed
      refine ⟨i, g, ?_, readPin_write h ha hk hpiece hpin⟩
      refine getElem?_set_other ?_ hi
      rintro rfl
      rw [hk] at hi
      cases hi
    | false =>
      have hbase' : named (some base) host.1 = false := by
        rw [← named_written (f := f) hn, ← hfile]
        exact hnamed
      by_cases h3 : n = 3
      · subst h3
        cases hpiece
        refine ⟨k, f, getElem?_set_self_some hk, ?_⟩
        rw [hfile]
        exact (readPin_written hbase hbase').2
      · -- The line has no end yet.
        rw [hfile, List.append_assoc, ← written_succ hpiece, named_written (by omega), hbase'] at hnamed'
        cases hnamed'

end

theorem readNext_cases (file : Option Text) (host f : Text) : readNext file host f = .appending 0 ∨
    readNext file host f = .refused ∨ readNext file host f = .accepted ∧ readPin file host = some f := by
  unfold readNext
  cases hpin : readPin file host with
  | none => exact .inl rfl
  | some pinned =>
    simp only
    split
    · rename_i heq
      exact .inr (.inr ⟨rfl, by rw [heq]⟩)
    · exact .inr (.inl rfl)

theorem inv_step (ha : Alone s a) (hs : step host s a = some s') (h : Inv host s) : Inv host s' := by
  have haccepted (i : Nat) (f : Fingerprint) (hi : s.calls[i]? = some (f, .accepted)) :
      s'.calls[i]? = some (f, .accepted) :=
    accepted_step hs hi
  rcases step_cases hs with ⟨g, -, rfl⟩ | ⟨k, g, -, hk, rfl⟩ | ⟨k, g, n, piece, rfl, hk, hpiece, rfl⟩ | ⟨k, g, p, -, hk, -, rfl⟩
  · refine inv_calls h (fun j f n hj => ?_) haccepted
    rcases getElem?_snoc_some_iff.mp hj with hj | ⟨-, hj⟩
    · exact .inr hj
    · cases hj
  · refine inv_calls h (fun j f n hj => ?_) haccepted
    rcases (getElem?_set_some_iff (lt_of_getElem?_some hk)).mp hj with ⟨-, heq⟩ | ⟨-, hj⟩
    · simp only [Prod.mk.injEq] at heq
      rcases readNext_cases s.file host.1 g.1 with hnext | hnext | ⟨hnext, -⟩
      all_goals rw [hnext] at heq
      · cases heq.2
        exact .inl rfl
      · cases heq.2
      · cases heq.2
    · exact .inr hj
  · exact inv_write h ha hk hpiece
  · refine inv_calls h (fun j f n hj => ?_) haccepted
    rcases (getElem?_set_some_iff (lt_of_getElem?_some hk)).mp hj with ⟨-, heq⟩ | ⟨-, hj⟩
    · cases heq
    · exact .inr hj

/-! ## The first pin stays -/

/-- Every accepted call has the pin that the file has. -/
def Matches (host : Alias) (s : State) : Prop :=
  ∀ (i : Nat) (f : Fingerprint), s.calls[i]? = some (f, .accepted) → readPin s.file host.1 = some f.1

theorem agreed_of_matches (h : Matches host s) : Agreed s := by
  intro i j f g hi hj
  have hf := h i f hi
  rw [h j g hj] at hf
  exact Subtype.ext (Option.some.inj hf).symm

theorem matches_step (ha : Alone s a) (hG : Unraced host s a) (hs : step host s a = some s') (h : Inv host s)
    (hm : Matches host s) : Matches host s' := by
  intro i f hi
  rcases step_cases hs with ⟨g, -, rfl⟩ | ⟨k, g, -, hk, rfl⟩ | ⟨k, g, n, piece, rfl, hk, hpiece, rfl⟩ | ⟨k, g, p, -, hk, -, rfl⟩
  · rcases getElem?_snoc_some_iff.mp hi with hi | ⟨-, hi⟩
    · exact hm i f hi
    · cases hi
  · rcases (getElem?_set_some_iff (lt_of_getElem?_some hk)).mp hi with ⟨-, heq⟩ | ⟨-, hi⟩
    · simp only [Prod.mk.injEq] at heq
      obtain ⟨rfl, heq⟩ := heq
      rcases readNext_cases s.file host.1 g.1 with hnext | hnext | ⟨-, hpin⟩
      · rw [hnext] at heq
        cases heq
      · rw [hnext] at heq
        cases heq
      · exact hpin
    · exact hm i f hi
  · refine readPin_write h ha hk hpiece ?_
    rcases (getElem?_set_some_iff (lt_of_getElem?_some hk)).mp hi with ⟨-, heq⟩ | ⟨-, hi⟩
    · unfold writeNext at heq
      split at heq
      · rename_i h3
        subst h3
        cases heq
        simpa only [Unraced, hk] using hG
      · cases heq
    · exact hm i f hi
  · rcases (getElem?_set_some_iff (lt_of_getElem?_some hk)).mp hi with ⟨-, heq⟩ | ⟨-, hi⟩
    · cases heq
    · exact hm i f hi

/-- A line that is ended after a different pin was stored accepts a second certificate. -/
theorem unraced_of_agreed (ha : Alone s a) (hs : step host s a = some s') (h : Inv host s) (hagreed : Agreed s') :
    Unraced host s a := by
  rcases step_cases hs with ⟨g, rfl, -⟩ | ⟨k, g, rfl, -, -⟩ | ⟨k, f, n, piece, rfl, hk, hpiece, rfl⟩ | ⟨k, g, p, rfl, -, -, -⟩
  · trivial
  · trivial
  · simp only [Unraced, hk]
    split
    · rename_i f' heq
      cases heq
      obtain ⟨base, hbase, hfile⟩ := line_of_alone h ha hk
      cases hnamed : named s.file host.1 with
      | true =>
        obtain ⟨i, g, hi, hpin⟩ := h.pinned hnamed
        have hfg := hagreed i k g f (accepted_step hs hi) (getElem?_set_self_some hk)
        rw [hpin, hfg]
      | false =>
        have hbase' : named (some base) host.1 = false := by
          rw [← named_written (f := f) (Nat.le_refl 3), ← hfile]
          exact hnamed
        rw [← readPin_getD, hfile]
        exact (readPin_written hbase hbase').1
    · trivial
  · trivial

theorem agreed_of_exec {t : State} {as : List Label} (h : exec (step host) s as = some t) (ht : Agreed t) : Agreed s := by
  intro i j f g hi hj
  have hkeep : ∀ (i : Nat) (f : Fingerprint), s.calls[i]? = some (f, .accepted) → t.calls[i]? = some (f, .accepted) :=
    fun i f hi => exec_inv (fun _ _ _ hs hi => accepted_step hs hi) h hi
  exact ht i j f g (hkeep i f hi) (hkeep j g hj)

theorem meets_of_agreed {t : State} : ∀ {as : List Label} {s : State}, Inv host s → Meets (step host) Alone s as →
    exec (step host) s as = some t → Agreed t → Meets (step host) (Unraced host) s as
  | [], _, _, _, _, _ => trivial
  | a :: as, s, hi, halone, h, ht => by
    obtain ⟨s₁, hs, h⟩ := exec_cons_some.mp h
    have hi₁ := inv_step halone.1 hs hi
    refine ⟨unraced_of_agreed halone.1 hs hi (agreed_of_exec h ht), fun s₂ hs₂ => ?_⟩
    rw [hs] at hs₂
    cases hs₂
    exact meets_of_agreed hi₁ (halone.2 s₁ hs) h ht

end

/-- From a file that does not know the host: if every line is begun after whole lines and ended while the file has its
pin, the calls agree on one certificate. If lines are begun after whole lines and the calls agree, no line is ended
after another pin was stored. -/
theorem first_contact_exclusive {host : Alias} {file : Option Text} {as : List Label} {t : State}
    (hu : Unknown file host) (h : exec (step host) (start file) as = some t) :
    (Meets (step host) (fun s a => Alone s a ∧ Unraced host s a) (start file) as → Agreed t) ∧
      (Meets (step host) Alone (start file) as → Agreed t → Meets (step host) (Unraced host) (start file) as) := by
  refine ⟨fun hm => ?_, fun halone ht => meets_of_agreed (inv_start hu) halone h ht⟩
  have hrun : Inv host t ∧ Matches host t := by
    refine exec_inv_of_meets (I := fun t => Inv host t ∧ Matches host t) ?_ hm h
      ⟨inv_start hu, fun i f hi => by simp [start] at hi⟩
    rintro s a s' ⟨ha, hG⟩ hs ⟨hi, hmatches⟩
    exact ⟨inv_step ha hs hi, matches_step ha hG hs hi hmatches⟩
  exact agreed_of_matches hrun.2

def keyA : Fingerprint := ⟨"sha256:A".toList, isWord_of_all (by decide) (by decide)⟩

/-- Two handshakes with the same certificate store its pin one after the other; a later one with another certificate
is refused. -/
def sameKeyTwice : List Label :=
  [.dial keyA, .dial keyA, .readPin 0, .readPin 1, .write 0, .write 0, .write 0, .write 0, .write 1, .write 1, .write 1,
    .write 1, .dial keyB, .readPin 2]

theorem first_contact_exclusive_same :
    ∃ t, exec (step spark) (start none) sameKeyTwice = some t ∧
      t.calls = [(keyA, .accepted), (keyA, .accepted), (keyB, .refused)] ∧ Agreed t := by
  have hrun : (exec (step spark) (start none) sameKeyTwice).map (·.calls) =
      some [(keyA, .accepted), (keyA, .accepted), (keyB, .refused)] := by
    rfl
  obtain ⟨t, ht, hcalls⟩ := Option.map_eq_some_iff.mp hrun
  have hm : Meets (step spark) (fun s a => Alone s a ∧ Unraced spark s a) (start none) sameKeyTwice := by decide
  exact ⟨t, ht, hcalls, (first_contact_exclusive ⟨rfl, rfl⟩ ht).1 hm⟩

/-- Two handshakes find no pin; both store theirs, and both are accepted. -/
theorem first_contact_raced :
    ¬ ∀ (host : Alias) (file : Option Text) (as : List Label) (t : State), Unknown file host →
      exec (step host) (start file) as = some t → Agreed t := by
  intro h
  have heq := h spark none [.dial keyA, .dial keyB, .readPin 0, .readPin 1, .write 0, .write 0, .write 0, .write 0, .write 1,
    .write 1, .write 1, .write 1] _ ⟨rfl, rfl⟩ rfl 0 1 keyA keyB rfl rfl
  exact absurd (congrArg Subtype.val heq) (by decide)

/-- Two appends of one certificate tear each other's lines, so that another one is accepted after them. -/
example : (exec (step spark) (start none) [.dial keyA, .dial keyA, .readPin 0, .readPin 1, .write 0, .write 1, .write 0,
    .write 0, .write 0, .write 1, .write 1, .write 1, .dial keyB, .readPin 2, .write 2, .write 2, .write 2, .write 2]).map
      (·.calls) = some [(keyA, .accepted), (keyA, .accepted), (keyB, .accepted)] := by
  rfl

end Mux.FirstContact
