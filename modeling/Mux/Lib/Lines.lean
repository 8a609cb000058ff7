import Mathlib.Algebra.GroupWithZero.Nat
import Mathlib.Data.List.Induction
import Mux.Lib.Text

/-!
# Whole lines, and bytes of a text

`pieces` are the lines of a text with their ends: put together they are the text again. A
byte offset cuts a text only between two characters. `splitLast` and `splitNth` take a list
apart at the last element of a kind, and behind the `n`-th one or the last one there is.
-/

namespace Lib

/-! ## Taking a list apart -/

section
variable {α : Type}

/-- What is before the last element of a kind, that element, and what is behind it. -/
def splitLast (p : α → Bool) : List α → Option (List α × α × List α)
  | [] => none
  | a :: l =>
    match splitLast p l with
    | some (b, x, r) => some (a :: b, x, r)
    | none => if p a then some ([], a, l) else none

/-- The list up to its `n`-th element of a kind, or to the last one, and what is behind it. -/
def splitNth (p : α → Bool) : Nat → List α → Option (List α × List α)
  | 0, _ => none
  | _ + 1, [] => none
  | n + 1, a :: l =>
    match splitNth p (if p a then n else n + 1) l with
    | some (b, r) => some (a :: b, r)
    | none => if p a then some ([a], l) else none

variable {p : α → Bool}

theorem splitLast_eq_none {l : List α} : splitLast p l = none ↔ ∀ a ∈ l, p a = false := by
  induction l with
  | nil => simp [splitLast]
  | cons a l ih =>
    cases h : splitLast p l with
    | none =>
      rw [h] at ih
      have hl := ih.mp rfl
      by_cases ha : p a = true
      · simp [splitLast, h, ha]
      · simpa [splitLast, h, ha] using hl
    | some s =>
      rw [h] at ih
      refine iff_of_false (by simp [splitLast, h]) ?_
      intro hall
      have hnone := ih.mpr fun b hb => hall b (List.mem_cons_of_mem _ hb)
      cases hnone

theorem splitLast_spec {l b r : List α} {x : α} (h : splitLast p l = some (b, x, r)) :
    l = b ++ x :: r ∧ p x = true ∧ ∀ y ∈ r, p y = false := by
  induction l generalizing b with
  | nil => cases h
  | cons a l ih =>
    rw [splitLast] at h
    cases hl : splitLast p l with
    | some s =>
      obtain ⟨b', x', r'⟩ := s
      rw [hl] at h
      cases h
      obtain ⟨h1, h2, h3⟩ := ih hl
      exact ⟨by rw [h1, List.cons_append], h2, h3⟩
    | none =>
      rw [hl] at h
      by_cases ha : p a = true
      · simp only [ha, if_true] at h
        cases h
        exact ⟨rfl, ha, splitLast_eq_none.mp hl⟩
      · simp only [ha] at h
        cases h

theorem splitLast_snoc (p : α → Bool) (l : List α) (a : α) :
    splitLast p (l ++ [a]) =
      if p a then some (l, a, []) else (splitLast p l).map fun s => (s.1, s.2.1, s.2.2 ++ [a]) := by
  induction l with
  | nil => by_cases ha : p a = true <;> simp [splitLast, ha]
  | cons b l ih =>
    rw [List.cons_append, splitLast, ih]
    by_cases ha : p a = true
    · simp only [ha, if_true]
    · simp only [ha]
      cases hl : splitLast p l with
      | some s => simp [splitLast, hl]
      | none => by_cases hb : p b = true <;> simp [splitLast, hl, hb]

theorem splitLast_map {β : Type} (f : β → α) (l : List β) :
    splitLast p (l.map f) = (splitLast (fun b => p (f b)) l).map fun s => (s.1.map f, f s.2.1, s.2.2.map f) := by
  induction l with
  | nil => rfl
  | cons a l ih =>
    rw [List.map_cons, splitLast, splitLast, ih]
    cases hl : splitLast (fun b => p (f b)) l with
    | some s => rfl
    | none => by_cases ha : p (f a) = true <;> simp [ha]

theorem splitNth_eq_none {n : Nat} {l : List α} : splitNth p n l = none ↔ n = 0 ∨ ∀ a ∈ l, p a = false := by
  induction l generalizing n with
  | nil => cases n <;> simp [splitNth]
  | cons a l ih =>
    cases n with
    | zero => simp [splitNth]
    | succ n =>
      rw [splitNth]
      by_cases ha : p a = true
      · simp only [ha, if_true]
        cases splitNth p n l <;> simp [ha]
      · simp only [ha]
        have hrest := @ih (n + 1)
        cases hl : splitNth p (n + 1) l with
        | none =>
          rw [hl] at hrest
          simpa [hl, ha] using hrest
        | some s =>
          rw [hl] at hrest
          simpa [hl, ha] using hrest

/-- The block ends with an element of the kind and has `n` of them, or fewer if none is left. -/
theorem splitNth_spec {n : Nat} {l b r : List α} (h : splitNth p n l = some (b, r)) :
    l = b ++ r ∧ (∃ c x, b = c ++ [x] ∧ p x = true) ∧ b.countP p ≤ n ∧ (b.countP p = n ∨ ∀ y ∈ r, p y = false) := by
  induction l generalizing n b with
  | nil => cases n <;> cases h
  | cons a l ih =>
    cases n with
    | zero => cases h
    | succ n =>
      rw [splitNth] at h
      cases hl : splitNth p (if p a then n else n + 1) l with
      | some s =>
        obtain ⟨b', r'⟩ := s
        rw [hl] at h
        cases h
        obtain ⟨h1, ⟨c, x, h2, hx⟩, h3, h4⟩ := ih hl
        refine ⟨by rw [h1, List.cons_append], ⟨a :: c, x, by rw [h2, List.cons_append], hx⟩, ?_, ?_⟩
        · rw [List.countP_cons]
          by_cases ha : p a = true
          · simp only [ha, if_true] at h3 ⊢
            omega
          · simp only [ha] at h3 ⊢
            exact h3
        · rw [List.countP_cons]
          refine h4.imp_left ?_
          intro hcount
          by_cases ha : p a = true
          · simp only [ha, if_true] at hcount ⊢
            omega
          · simp only [ha] at hcount ⊢
            exact hcount
      | none =>
        rw [hl] at h
        by_cases ha : p a = true
        · simp only [ha, if_true] at h hl
          cases h
          refine ⟨rfl, ⟨[], a, rfl, ha⟩, ?_, ?_⟩
          · simp [ha]
          · rcases splitNth_eq_none.mp hl with rfl | hnone
            · exact Or.inl (by simp [ha])
            · exact Or.inr hnone
        · simp only [ha] at h
          cases h

theorem splitNth_map {β : Type} (f : β → α) (n : Nat) (l : List β) :
    splitNth p n (l.map f) = (splitNth (fun b => p (f b)) n l).map fun s => (s.1.map f, s.2.map f) := by
  induction l generalizing n with
  | nil => cases n <;> rfl
  | cons a l ih =>
    cases n with
    | zero => rfl
    | succ n =>
      rw [List.map_cons, splitNth, splitNth, ih]
      cases hl : splitNth (fun b => p (f b)) (if p (f a) then n else n + 1) l with
      | some s => rfl
      | none => by_cases ha : p (f a) = true <;> simp [ha]

end

/-! ## Bytes -/

def byteLength (t : Text) : Nat := (t.map Char.utf8Size).sum

/-- The text before a byte and from it on, none inside a character or beyond the end. -/
def splitAtByte : Text → Nat → Option (Text × Text)
  | [], n => if n = 0 then some ([], []) else none
  | c :: t, n =>
    if n = 0 then some ([], c :: t)
    else if c.utf8Size ≤ n then (splitAtByte t (n - c.utf8Size)).map fun s => (c :: s.1, s.2)
    else none

@[simp] theorem byteLength_nil : byteLength [] = 0 := rfl

@[simp] theorem byteLength_cons (c : Char) (t : Text) : byteLength (c :: t) = c.utf8Size + byteLength t := by
  simp [byteLength]

@[simp] theorem byteLength_append (t w : Text) : byteLength (t ++ w) = byteLength t + byteLength w := by
  simp [byteLength]

theorem splitAtByte_append (a b : Text) : splitAtByte (a ++ b) (byteLength a) = some (a, b) := by
  induction a with
  | nil => cases b <;> simp [splitAtByte]
  | cons c a ih =>
    have hpos := c.utf8Size_pos
    rw [List.cons_append, splitAtByte, byteLength_cons, if_neg (by omega), if_pos (by omega), Nat.add_sub_cancel_left, ih]
    rfl

theorem splitAtByte_spec {t a b : Text} {n : Nat} (h : splitAtByte t n = some (a, b)) :
    t = a ++ b ∧ byteLength a = n := by
  induction t generalizing a n with
  | nil =>
    rw [splitAtByte] at h
    by_cases hn : n = 0
    · rw [if_pos hn] at h
      cases h
      exact ⟨rfl, hn.symm⟩
    · rw [if_neg hn] at h
      cases h
  | cons c t ih =>
    rw [splitAtByte] at h
    by_cases hn : n = 0
    · rw [if_pos hn] at h
      cases h
      exact ⟨rfl, hn.symm⟩
    · rw [if_neg hn] at h
      by_cases hc : c.utf8Size ≤ n
      · rw [if_pos hc] at h
        obtain ⟨⟨a', b'⟩, hs, heq⟩ := Option.map_eq_some_iff.mp h
        cases heq
        obtain ⟨h1, h2⟩ := ih hs
        exact ⟨by rw [h1, List.cons_append], by rw [byteLength_cons, h2]; omega⟩
      · rw [if_neg hc] at h
        cases h

/-- A byte offset that lies between two characters, or at an end. -/
def IsCharBoundary (t : Text) (n : Nat) : Prop := ∃ a b, t = a ++ b ∧ byteLength a = n

theorem splitAtByte_isSome {t : Text} {n : Nat} : (splitAtByte t n).isSome = true ↔ IsCharBoundary t n := by
  constructor
  · intro h
    obtain ⟨⟨a, b⟩, hs⟩ := Option.isSome_iff_exists.mp h
    exact ⟨a, b, splitAtByte_spec hs⟩
  · rintro ⟨a, b, rfl, rfl⟩
    rw [splitAtByte_append]
    rfl

theorem IsCharBoundary.le {t : Text} {n : Nat} (h : IsCharBoundary t n) : n ≤ byteLength t := by
  obtain ⟨a, b, rfl, rfl⟩ := h
  rw [byteLength_append]
  omega

theorem byteLength_eq_zero {t : Text} (h : byteLength t = 0) : t = [] := by
  cases t with
  | nil => rfl
  | cons c t =>
    have hpos := c.utf8Size_pos
    rw [byteLength_cons] at h
    omega

/-- A boundary of a text is one of any beginning that reaches as far. -/
theorem isCharBoundary_append {a b : Text} {n : Nat} (hn : n ≤ byteLength a) :
    IsCharBoundary (a ++ b) n ↔ IsCharBoundary a n := by
  constructor
  · rintro ⟨u, v, heq, hu⟩
    rcases List.append_eq_append_iff.mp heq with ⟨d, rfl, rfl⟩ | ⟨d, rfl, rfl⟩
    · rw [byteLength_append] at hu
      have hd : d = [] := byteLength_eq_zero (by omega)
      subst hd
      exact ⟨a, [], by simp, by rw [← hu, byteLength_nil, Nat.add_zero]⟩
    · exact ⟨u, d, rfl, hu⟩
  · rintro ⟨u, v, rfl, hu⟩
    exact ⟨u, v ++ b, by simp, hu⟩

/-! ## Lines with their ends -/

def endsLine (w : Text) : Bool := w.getLast? == some '\n'

/-- The lines of a text with their ends. -/
def pieces (t : Text) : List Text :=
  (closedParts isNewline t).map (fun l => l ++ ['\n']) ++ if openLine t = [] then [] else [openLine t]

/-- A line without its end. -/
def lineOf (w : Text) : Text := if endsLine w then stripCr w.dropLast else w

section
variable {α : Type} {p : α → Bool}

theorem parts_cons_sep {c : α} (hc : p c = true) (l : List α) :
    closedParts p (c :: l) = [] :: closedParts p l ∧ openPart p (c :: l) = openPart p l := by
  apply parts_of_splitOnP
  rw [List.splitOnP_cons_eq_if_modifyHead, if_pos hc, splitOnP_eq l, List.cons_append]

theorem parts_cons_open {c : α} (hc : ¬ p c = true) {l : List α} (h : closedParts p l = []) :
    closedParts p (c :: l) = [] ∧ openPart p (c :: l) = c :: openPart p l := by
  apply parts_of_splitOnP
  rw [List.splitOnP_cons_eq_if_modifyHead, if_neg hc, splitOnP_eq l, h]
  rfl

theorem parts_cons_closed {c : α} (hc : ¬ p c = true) {l a : List α} {as : List (List α)}
    (h : closedParts p l = a :: as) :
    closedParts p (c :: l) = (c :: a) :: as ∧ openPart p (c :: l) = openPart p l := by
  apply parts_of_splitOnP
  rw [List.splitOnP_cons_eq_if_modifyHead, if_neg hc, splitOnP_eq l, h]
  rfl

theorem not_sep_of_part (l : List α) :
    (∀ w ∈ closedParts p l, ∀ c ∈ w, p c = false) ∧ ∀ c ∈ openPart p l, p c = false := by
  induction l with
  | nil => simp
  | cons c l ih =>
    by_cases hc : p c = true
    · obtain ⟨h1, h2⟩ := parts_cons_sep hc l
      rw [h1, h2]
      exact ⟨by simpa using ih.1, ih.2⟩
    · have hc' : p c = false := by simpa using hc
      cases hl : closedParts p l with
      | nil =>
        obtain ⟨h1, h2⟩ := parts_cons_open hc hl
        rw [h1, h2]
        exact ⟨by simp, by simpa [hc'] using ih.2⟩
      | cons a as =>
        obtain ⟨h1, h2⟩ := parts_cons_closed hc hl
        have hall := ih.1
        rw [hl] at hall
        rw [h1, h2]
        refine ⟨?_, ih.2⟩
        intro w hw
        rcases List.mem_cons.mp hw with rfl | hw
        · intro d hd
          rcases List.mem_cons.mp hd with rfl | hd
          · exact hc'
          · exact hall a List.mem_cons_self d hd
        · exact hall w (List.mem_cons_of_mem _ hw)

end

theorem flatten_parts (t : Text) : ((closedParts isNewline t).map (fun l => l ++ ['\n'])).flatten ++ openLine t = t := by
  unfold openLine
  induction t with
  | nil => rfl
  | cons c t ih =>
    by_cases hc : isNewline c = true
    · obtain ⟨h1, h2⟩ := parts_cons_sep hc t
      rw [h1, h2, List.map_cons, List.flatten_cons, List.append_assoc, ih]
      have hnl : c = '\n' := by simpa [isNewline] using hc
      rw [hnl]
      rfl
    · cases hl : closedParts isNewline t with
      | nil =>
        obtain ⟨h1, h2⟩ := parts_cons_open hc hl
        rw [hl] at ih
        rw [h1, h2]
        exact congrArg (c :: ·) ih
      | cons a as =>
        obtain ⟨h1, h2⟩ := parts_cons_closed hc hl
        rw [hl] at ih
        rw [h1, h2]
        exact congrArg (c :: ·) ih

theorem flatten_pieces (t : Text) : (pieces t).flatten = t := by
  have hopen : (if openLine t = [] then [] else [openLine t]).flatten = openLine t := by
    by_cases h : openLine t = [] <;> simp [h]
  rw [pieces, List.flatten_append, hopen, flatten_parts]

theorem lineOf_closed (l : Text) : lineOf (l ++ ['\n']) = stripCr l := by
  simp [lineOf, endsLine]

theorem lineOf_of_open {w : Text} (h : endsLine w = false) : lineOf w = w := by
  simp [lineOf, h]

theorem endsLine_openLine (t : Text) : endsLine (openLine t) = false := by
  unfold endsLine
  rw [beq_eq_false_iff_ne]
  intro h
  have hno := (@not_sep_of_part _ isNewline t).2 '\n' (List.mem_of_getLast? h)
  exact absurd hno (by decide)

theorem lines_eq_map_pieces (t : Text) : lines t = (pieces t).map lineOf := by
  unfold lines pieces closedLines
  rw [List.map_append, List.map_map]
  congr 1
  · apply List.map_congr_left
    intro l _
    exact (lineOf_closed l).symm
  · by_cases h : openLine t = []
    · simp [h]
    · simp [h, lineOf_of_open (endsLine_openLine t)]

/-- Every line but the last has its end. -/
theorem endsLine_of_dropLast {t w : Text} (h : w ∈ (pieces t).dropLast) : endsLine w = true := by
  have hclosed : ∀ v ∈ (closedParts isNewline t).map (fun l => l ++ ['\n']), endsLine v = true := by
    intro v hv
    obtain ⟨l, _, rfl⟩ := List.mem_map.mp hv
    simp [endsLine]
  unfold pieces at h
  by_cases ho : openLine t = []
  · rw [if_pos ho, List.append_nil] at h
    exact hclosed w (List.dropLast_subset _ h)
  · rw [if_neg ho, List.dropLast_concat] at h
    exact hclosed w h

theorem pieces_line {l : Text} (hl : ∀ c ∈ l, isNewline c = false) (t : Text) :
    pieces (l ++ '\n' :: t) = (l ++ ['\n']) :: pieces t := by
  have hparts : closedParts isNewline (l ++ '\n' :: t) = l :: closedParts isNewline t ∧
      openPart isNewline (l ++ '\n' :: t) = openPart isNewline t := by
    apply parts_of_splitOnP
    rw [List.splitOnP_append_cons l t (by rfl), List.splitOnP_eq_singleton hl, splitOnP_eq t]
    rfl
  unfold pieces openLine
  rw [hparts.1, hparts.2, List.map_cons, List.cons_append]

theorem pieces_flatten {ls : List Text} (h : ∀ w ∈ ls, ∃ l, w = l ++ ['\n'] ∧ ∀ c ∈ l, isNewline c = false) :
    pieces ls.flatten = ls := by
  induction ls with
  | nil => rfl
  | cons w ls ih =>
    obtain ⟨l, rfl, hl⟩ := h w List.mem_cons_self
    rw [List.flatten_cons, List.append_assoc, List.singleton_append, pieces_line hl,
      ih fun v hv => h v (List.mem_cons_of_mem _ hv)]

/-- The lines before any line of a text are the lines of the text before it. -/
theorem pieces_before {t w : Text} {before rest : List Text} (h : pieces t = before ++ w :: rest) :
    pieces before.flatten = before := by
  apply pieces_flatten
  intro v hv
  have hdrop : v ∈ (pieces t).dropLast := by
    rw [h, List.dropLast_append_cons]
    exact List.mem_append_left _ hv
  have hmem : v ∈ (closedParts isNewline t).map fun l => l ++ ['\n'] := by
    unfold pieces at hdrop
    by_cases ho : openLine t = []
    · rw [if_pos ho, List.append_nil] at hdrop
      exact List.dropLast_subset _ hdrop
    · rw [if_neg ho, List.dropLast_concat] at hdrop
      exact hdrop
  obtain ⟨l, hl, rfl⟩ := List.mem_map.mp hmem
  exact ⟨l, rfl, (@not_sep_of_part _ isNewline t).1 l hl⟩

/-! ## Carriage returns -/

def endsCrlf (w : Text) : Bool := endsLine w && w.dropLast.getLast? == some '\r'

/-- A line is as long as what is left without its end, and the end. -/
theorem byteLength_lineOf {w : Text} (h : endsLine w = true) :
    byteLength (lineOf w) + 1 + (if endsCrlf w then 1 else 0) = byteLength w := by
  have hsnoc : ∀ {v : Text} {c : Char}, v.getLast? = some c → v = v.dropLast ++ [c] :=
    fun hv => (List.dropLast_append_getLast? _ hv).symm
  have hw : w = w.dropLast ++ ['\n'] := hsnoc (by simpa [endsLine] using h)
  have hlen : byteLength w = byteLength w.dropLast + 1 := by
    conv => lhs; rw [hw]
    rw [byteLength_append]
    rfl
  rw [lineOf, if_pos h, hlen]
  unfold endsCrlf stripCr
  rw [h]
  by_cases hcr : w.dropLast.getLast? = some '\r'
  · have hlen' : byteLength w.dropLast = byteLength w.dropLast.dropLast + 1 := by
      conv => lhs; rw [hsnoc hcr]
      rw [byteLength_append]
      rfl
    simp [hcr, hlen']
  · simp [hcr]

/-- Without the pair in the text no line ends in it. -/
theorem endsCrlf_of_none {t w : Text} (h : ¬ ['\r', '\n'] <:+: t) (hw : w ∈ pieces t) : endsCrlf w = false := by
  by_contra hc
  have hc : endsCrlf w = true := by simpa using hc
  unfold endsCrlf at hc
  rw [Bool.and_eq_true, beq_iff_eq] at hc
  obtain ⟨hl, hr⟩ := hc
  have hw1 : w.dropLast ++ ['\n'] = w := List.dropLast_append_getLast? _ (by simpa [endsLine] using hl)
  have hw2 : w.dropLast.dropLast ++ ['\r'] = w.dropLast := List.dropLast_append_getLast? _ hr
  apply h
  have hin : ['\r', '\n'] <:+: w := by
    refine ⟨w.dropLast.dropLast, [], ?_⟩
    rw [List.append_nil]
    conv => rhs; rw [← hw1, ← hw2]
    simp
  have hpart : w <:+: t := by
    rw [← flatten_pieces t]
    exact List.infix_of_mem_flatten hw
  exact hin.trans hpart

end Lib
