import Mux.Region

/-!
# Regions by lines

A region of the screen is a block of whole lines, a single line, the whole screen or
nothing. `window` says which in terms of the lines with their ends; the code's functions
read the window the same way, by offsets that lose a byte for every line that ends in a
carriage return and a newline. Without such lines they read it exactly.
-/

namespace Mux.Agents

open Lib

inductive ScreenRegion where
  | wholeRecent
  | afterLastPromptMarker
  | beforeCurrentPromptMarker
  | wholeRecentWithoutCurrentPromptMarker
  | currentPromptBlockMarker
  | afterCurrentPromptBlockMarker
  | promptBoxBody
  | abovePromptBox
  | lastNonEmptyAbovePromptBox
  | afterLastHorizontalRule
  | bottomLines (count : Nat)
  | bottomNonEmptyLines (count : Nat)
  | topNonEmptyLines (count : Nat)
deriving Repr, DecidableEq

/-- What a region takes of the lines, and what it leaves on either side. -/
inductive Window where
  | whole
  | empty
  | line (w : Text)
  | onward (before block : List Text)
  | head (block rest : List Text)
  | middle (before block rest : List Text)
  /-- The last line of a head that is not empty. -/
  | lastOf (block rest : List Text)
deriving Repr, DecidableEq

def isPrompt (w : Text) : Bool := codexPromptLine (lineOf w)

def isBlockMarker (w : Text) : Bool := codexBlockMarkerLine (lineOf w)

def isRule (w : Text) : Bool := isHorizontalRule (lineOf w)

def isNonEmpty (w : Text) : Bool := nonEmpty (lineOf w)

/-- The last prompt, unless a block marker follows it. -/
def currentPrompt (ls : List Text) : Option (List Text × Text × List Text) :=
  (splitLast isPrompt ls).filter fun s => !s.2.2.any isBlockMarker

structure PromptBox where
  above : List Text
  top : Text
  body : List Text
  rest : List Text

/-- The last two rules: what is above the first, between them, and from the second on. -/
def promptBox (ls : List Text) : Option PromptBox :=
  (splitLast isRule ls).bind fun s =>
    (splitLast isRule s.1).map fun u => ⟨u.1, u.2.1, u.2.2, s.2.1 :: s.2.2⟩

def window (ls : List Text) : ScreenRegion → Window
  | .wholeRecent => .whole
  | .afterLastPromptMarker =>
    match splitLast isPrompt ls with
    | some (b, x, r) => .onward (b ++ [x]) r
    | none => .whole
  | .beforeCurrentPromptMarker =>
    match currentPrompt ls with
    | some (b, x, r) => .head b (x :: r)
    | none => .whole
  | .wholeRecentWithoutCurrentPromptMarker => if (currentPrompt ls).isSome then .empty else .whole
  | .currentPromptBlockMarker =>
    match (currentPrompt ls).bind fun s => splitLast isBlockMarker s.1 with
    | some (_, y, _) => .line y
    | none => .empty
  | .afterCurrentPromptBlockMarker =>
    match currentPrompt ls with
    | some (b, x, r) =>
      match splitLast isBlockMarker b with
      | some (b', y, r') => .onward b' (y :: r' ++ x :: r)
      | none => .empty
    | none => .empty
  | .promptBoxBody =>
    match promptBox ls with
    | some box => .middle (box.above ++ [box.top]) box.body box.rest
    | none => .empty
  | .abovePromptBox =>
    match promptBox ls with
    | some box => .head box.above (box.top :: box.body ++ box.rest)
    | none => .whole
  | .lastNonEmptyAbovePromptBox =>
    match promptBox ls with
    | some box => .lastOf box.above (box.top :: box.body ++ box.rest)
    | none => .lastOf ls []
  | .afterLastHorizontalRule =>
    match splitLast isRule ls with
    | some (b, x, r) => .onward (b ++ [x]) r
    | none => .whole
  | .bottomLines count => .onward (ls.take (ls.length - count)) (ls.drop (ls.length - count))
  | .bottomNonEmptyLines count =>
    match splitNth isNonEmpty count ls.reverse with
    | some (b, r) => .onward r.reverse b.reverse
    | none => .empty
  | .topNonEmptyLines count =>
    match splitNth isNonEmpty count ls with
    | some (b, r) => .head b r
    | none => .empty

/-- A window is a window of these lines. -/
def Window.Splits (ls : List Text) : Window → Prop
  | .whole | .empty => True
  | .line w => w ∈ ls
  | .onward before block => ls = before ++ block
  | .head block rest => ls = block ++ rest
  | .middle before block rest => ls = before ++ block ++ rest
  | .lastOf block rest => ls = block ++ rest

/-- The text a window stands for. -/
def Window.text (ls : List Text) : Window → Text
  | .whole => ls.flatten
  | .empty => []
  | .line w => lineOf w
  | .onward _ block => block.flatten
  | .head block _ => block.flatten
  | .middle _ block _ => block.flatten
  | .lastOf block _ => ((splitLast isNonEmpty block).map fun s => lineOf s.2.1).getD []

/-- Before which lines the text is cut to read a window. -/
def Window.cuts : Window → List Nat
  | .whole | .empty | .line _ => []
  | .onward before _ => [before.length]
  | .head block _ => [block.length]
  | .middle before block _ => [before.length, before.length + block.length]
  | .lastOf block rest => if rest.isEmpty then [] else [block.length]

/-! ## The code reads the window -/

/-- How the code reads a window. -/
def Window.read (content : Text) : Window → Option Text
  | .whole => some content
  | .empty => some []
  | .line w => some (lineOf w)
  | .onward before _ => sliceFrom content (lineStartOffset content (lines content) before.length)
  | .head block _ => sliceTo content (lineStartOffset content (lines content) block.length)
  | .middle before block _ =>
    slice content (lineStartOffset content (lines content) before.length)
      (lineStartOffset content (lines content) (before.length + block.length))
  | .lastOf block rest =>
    (if rest.isEmpty then some content
      else sliceTo content (lineStartOffset content (lines content) block.length)).map lastNonEmptyLine

theorem lineStartOffset_le (content : Text) (ls : List Text) (index : Nat) :
    lineStartOffset content ls index ≤ byteLength content := Nat.min_le_right _ _

theorem sliceFromLineIndex_eq (content : Text) (ls : List Text) (index : Nat) :
    sliceFromLineIndex content ls index = sliceFrom content (lineStartOffset content ls index) := by
  unfold sliceFromLineIndex
  rw [Nat.min_eq_left (lineStartOffset_le content ls index)]

theorem rposition_eq {α : Type} (p : α → Bool) (l : List α) :
    rposition p l = (splitLast p l).map fun s => s.1.length := by
  induction l using List.reverseRecOn with
  | nil => rfl
  | append_singleton l a ih =>
    unfold rposition at ih ⊢
    rw [splitLast_snoc, List.reverse_append, List.reverse_singleton, List.singleton_append, List.findIdx?_cons]
    by_cases ha : p a = true
    · simp [ha]
    · rw [if_neg ha, if_neg ha, Option.map_map, Option.map_map]
      refine Eq.trans ?_ ih
      apply Option.map_congr
      intro i _
      simp only [Function.comp_apply, List.length_append, List.length_singleton]
      omega

section
variable {α β : Type} {l b r : List α} {x : α}

theorem take_of_split (f : α → β) (h : l = b ++ x :: r) : (l.map f).take b.length = b.map f := by
  rw [h, List.map_append, List.take_left' (List.length_map f)]

theorem drop_of_split (f : α → β) (h : l = b ++ x :: r) : (l.map f).drop (b.length + 1) = r.map f := by
  have hparts : l.map f = (b ++ [x]).map f ++ r.map f := by
    rw [h]
    simp
  rw [hparts, List.drop_left' (by simp)]

end

/-! ## One function after another -/

section
variable (content : Text)

theorem rposition_lines (p : Text → Bool) :
    rposition p (lines content) = (splitLast (fun w => p (lineOf w)) (pieces content)).map fun s => s.1.length := by
  rw [rposition_eq, lines_eq_map_pieces, splitLast_map, Option.map_map]
  apply Option.map_congr
  intro s _
  exact List.length_map lineOf

theorem rposition_prompt :
    rposition codexPromptLine (lines content) = (splitLast isPrompt (pieces content)).map fun s => s.1.length :=
  rposition_lines content codexPromptLine

theorem currentCodexPromptIndex_eq :
    currentCodexPromptIndex (lines content) = (currentPrompt (pieces content)).map fun s => s.1.length := by
  unfold currentCodexPromptIndex currentPrompt
  rw [rposition_prompt]
  cases h : splitLast isPrompt (pieces content) with
  | none => rfl
  | some s =>
    obtain ⟨b, x, r⟩ := s
    have hrest : (lines content).drop (b.length + 1) = r.map lineOf := by
      rw [lines_eq_map_pieces, drop_of_split lineOf (splitLast_spec h).1]
    have hany : (r.map lineOf).any codexBlockMarkerLine = r.any isBlockMarker := by
      rw [List.any_map]
      rfl
    simp only [Option.map_some, Option.filter_some, hrest, hany]
    by_cases hb : r.any isBlockMarker = true <;> simp [hb]

theorem afterLastPromptMarker_eq :
    afterLastPromptMarker content = (window (pieces content) .afterLastPromptMarker).read content := by
  unfold afterLastPromptMarker window
  rw [rposition_prompt]
  cases h : splitLast isPrompt (pieces content) with
  | none => rfl
  | some s =>
    simp only [Option.map_some, sliceFromLineIndex_eq, Window.read, List.length_append, List.length_singleton]

theorem sum_take_eq {k : Nat} (hk : k ≤ (lines content).length) :
    min (((lines content).take k).map fun line => byteLength line + 1).sum (byteLength content) =
      lineStartOffset content (lines content) k := by
  unfold lineStartOffset
  rw [Nat.min_eq_left hk]

theorem length_lines : (lines content).length = (pieces content).length := by
  rw [lines_eq_map_pieces, List.length_map]

theorem currentPrompt_spec {ls b r : List Text} {x : Text} (h : currentPrompt ls = some (b, x, r)) :
    splitLast isPrompt ls = some (b, x, r) ∧ r.any isBlockMarker = false := by
  unfold currentPrompt at h
  rw [Option.filter_eq_some_iff] at h
  exact ⟨h.1, by simpa using h.2⟩

theorem beforeCurrentPromptMarker_eq :
    beforeCurrentPromptMarker content = (window (pieces content) .beforeCurrentPromptMarker).read content := by
  unfold beforeCurrentPromptMarker window
  rw [currentCodexPromptIndex_eq]
  cases h : currentPrompt (pieces content) with
  | none => rfl
  | some s =>
    obtain ⟨b, x, r⟩ := s
    have hsplit := (splitLast_spec (currentPrompt_spec h).1).1
    have hle : b.length ≤ (lines content).length := by
      rw [length_lines, hsplit, List.length_append]
      omega
    simp only [Option.map_some, Window.read, sum_take_eq content hle]

theorem wholeRecentWithoutCurrentPromptMarker_eq :
    some (wholeRecentWithoutCurrentPromptMarker content) =
      (window (pieces content) .wholeRecentWithoutCurrentPromptMarker).read content := by
  unfold wholeRecentWithoutCurrentPromptMarker window
  rw [currentCodexPromptIndex_eq, Option.isSome_map]
  by_cases h : (currentPrompt (pieces content)).isSome = true
  · rw [if_pos h, if_pos h]
    rfl
  · rw [if_neg h, if_neg h]
    rfl

theorem find_reverse_eq {α : Type} (p : α → Bool) (l : List α) :
    l.reverse.find? p = (splitLast p l).map fun s => s.2.1 := by
  induction l using List.reverseRecOn with
  | nil => rfl
  | append_singleton l a ih =>
    rw [splitLast_snoc, List.reverse_append, List.reverse_singleton, List.singleton_append]
    by_cases ha : p a = true
    · rw [List.find?_cons_of_pos ha, if_pos ha]
      rfl
    · rw [List.find?_cons_of_neg ha, if_neg ha, ih, Option.map_map]
      rfl

theorem currentPromptBlockMarker_eq :
    some ((currentPromptBlockMarker content).getD []) =
      (window (pieces content) .currentPromptBlockMarker).read content := by
  unfold currentPromptBlockMarker window
  rw [currentCodexPromptIndex_eq]
  cases h : currentPrompt (pieces content) with
  | none => rfl
  | some s =>
    obtain ⟨b, x, r⟩ := s
    have hsplit := (splitLast_spec (currentPrompt_spec h).1).1
    have hfind : (b.map lineOf).reverse.find? codexBlockMarkerLine =
        (splitLast isBlockMarker b).map fun s => lineOf s.2.1 := by
      rw [find_reverse_eq, splitLast_map, Option.map_map]
      rfl
    simp only [Option.map_some, Option.bind_some]
    rw [lines_eq_map_pieces, take_of_split lineOf hsplit, hfind]
    cases splitLast isBlockMarker b with
    | none => rfl
    | some u => rfl

theorem afterCurrentPromptBlockMarker_eq :
    (afterCurrentPromptBlockMarker content).getD (some []) =
      (window (pieces content) .afterCurrentPromptBlockMarker).read content := by
  unfold afterCurrentPromptBlockMarker window
  rw [currentCodexPromptIndex_eq]
  cases h : currentPrompt (pieces content) with
  | none => rfl
  | some s =>
    obtain ⟨b, x, r⟩ := s
    have hsplit := (splitLast_spec (currentPrompt_spec h).1).1
    have hpos : rposition codexBlockMarkerLine (b.map lineOf) =
        (splitLast isBlockMarker b).map fun s => s.1.length := by
      rw [rposition_eq, splitLast_map, Option.map_map]
      apply Option.map_congr
      intro u _
      exact List.length_map lineOf
    have htake : (lines content).take b.length = b.map lineOf := by
      rw [lines_eq_map_pieces, take_of_split lineOf hsplit]
    simp only [Option.map_some, Option.bind_some, htake, hpos]
    cases splitLast isBlockMarker b with
    | none => rfl
    | some u =>
      simp only [Option.map_some, Option.getD_some, sliceFromLineIndex_eq, Window.read]

theorem bottomLines_eq (count : Nat) :
    bottomLines content count = (window (pieces content) (.bottomLines count)).read content := by
  have hlen : (List.take ((pieces content).length - count) (pieces content)).length =
      (lines content).length - count := by
    rw [List.length_take, length_lines]
    omega
  simp only [bottomLines, window, Window.read, sliceFromLineIndex_eq, hlen]

end

/-! ## Prompt boxes -/

theorem zipIdx_snoc {α : Type} (l : List α) (a : α) :
    (l ++ [a]).zipIdx.reverse = (a, l.length) :: l.zipIdx.reverse := by
  simp [List.zipIdx_append]

theorem borderScan_one (l : List Text) :
    borderScan 1 l.zipIdx.reverse = (splitLast isHorizontalRule l).map fun s => s.1.length := by
  induction l using List.reverseRecOn with
  | nil => rfl
  | append_singleton l a ih =>
    rw [zipIdx_snoc, borderScan, splitLast_snoc]
    by_cases ha : isHorizontalRule a = true
    · rw [if_pos ha, if_pos ha]
      rfl
    · rw [if_neg ha, if_neg ha, ih, Option.map_map]
      rfl

theorem borderScan_zero (l : List Text) :
    borderScan 0 l.zipIdx.reverse =
      (splitLast isHorizontalRule l).bind fun s => (splitLast isHorizontalRule s.1).map fun u => u.1.length := by
  induction l using List.reverseRecOn with
  | nil => rfl
  | append_singleton l a ih =>
    rw [zipIdx_snoc, borderScan, splitLast_snoc]
    by_cases ha : isHorizontalRule a = true
    · rw [if_pos ha, if_pos ha, if_neg (by decide), borderScan_one]
      rfl
    · rw [if_neg ha, if_neg ha, ih, Option.bind_map]
      rfl

theorem promptBox_spec {ls : List Text} {box : PromptBox} (h : promptBox ls = some box) :
    ls = box.above ++ box.top :: box.body ++ box.rest ∧ (∀ y ∈ box.body, isRule y = false) ∧
      ∃ x r, box.rest = x :: r ∧ isRule x = true := by
  unfold promptBox at h
  obtain ⟨⟨b, x, r⟩, hs, hbox⟩ := Option.bind_eq_some_iff.mp h
  obtain ⟨⟨b', y, r'⟩, hu, rfl⟩ := Option.map_eq_some_iff.mp hbox
  obtain ⟨h1, h2, -⟩ := splitLast_spec hs
  obtain ⟨h3, -, h4⟩ := splitLast_spec hu
  refine ⟨?_, h4, x, r, rfl, h2⟩
  simp only at h3 ⊢
  rw [h1, h3]

section
variable (content : Text)

theorem promptBoxTopBorderIndex_eq :
    promptBoxTopBorderIndex (lines content) = (promptBox (pieces content)).map fun box => box.above.length := by
  unfold promptBoxTopBorderIndex promptBox
  rw [borderScan_zero, lines_eq_map_pieces, splitLast_map, Option.bind_map, Option.map_bind]
  apply Option.bind_congr
  intro s _
  simp only [Function.comp_apply]
  rw [splitLast_map, Option.map_map, Option.map_map]
  apply Option.map_congr
  intro u _
  exact List.length_map lineOf

theorem abovePromptBox_eq :
    abovePromptBox content = (window (pieces content) .abovePromptBox).read content := by
  unfold abovePromptBox window
  rw [promptBoxTopBorderIndex_eq]
  cases h : promptBox (pieces content) with
  | none => rfl
  | some box =>
    simp only [Option.map_some, Window.read]
    rw [Nat.min_eq_left (lineStartOffset_le content _ _)]

theorem lastNonEmptyAbovePromptBox_eq :
    (abovePromptBox content).map lastNonEmptyLine =
      (window (pieces content) .lastNonEmptyAbovePromptBox).read content := by
  rw [abovePromptBox_eq]
  unfold window
  cases h : promptBox (pieces content) with
  | none => rfl
  | some box =>
    simp only [Window.read]
    rw [if_neg (by simp)]

theorem promptBoxBody_eq :
    (promptBoxBody content).getD (some []) = (window (pieces content) .promptBoxBody).read content := by
  unfold promptBoxBody window
  rw [promptBoxTopBorderIndex_eq]
  cases h : promptBox (pieces content) with
  | none => rfl
  | some box =>
    obtain ⟨hsplit, hbody, x, r, hrest, hx⟩ := promptBox_spec h
    have hdrop : (lines content).drop (box.above.length + 1) = (box.body ++ x :: r).map lineOf := by
      have hsplit' : pieces content = box.above ++ box.top :: (box.body ++ box.rest) := by
        rw [hsplit]
        simp
      rw [lines_eq_map_pieces, ← hrest, drop_of_split lineOf hsplit']
    have hfind : ((box.body ++ x :: r).map lineOf).findIdx? isHorizontalRule = some box.body.length := by
      have hnone : box.body.findIdx? (isHorizontalRule ∘ lineOf) = none := List.findIdx?_eq_none_iff.mpr hbody
      have hx' : (isHorizontalRule ∘ lineOf) x = true := hx
      rw [List.findIdx?_map, List.findIdx?_append, hnone, List.findIdx?_cons, if_pos hx']
      simp
    simp only [Option.map_some, Option.getD_some, hdrop, hfind, Window.read, List.length_append, List.length_singleton]
    rw [Nat.min_eq_left (lineStartOffset_le content _ _), Nat.min_eq_left (lineStartOffset_le content _ _)]

/-- The loop's offsets are those of the lines it has passed. -/
theorem scan_eq (total : Nat) (l : List Text) :
    l.foldl (fun (s : Nat × Nat) line =>
      (if isHorizontalRule line then min (s.2 + byteLength line + 1) total else s.1, s.2 + byteLength line + 1)) (0, 0) =
      (((splitLast isHorizontalRule l).map fun s =>
        min ((s.1 ++ [s.2.1]).map fun line => byteLength line + 1).sum total).getD 0,
        (l.map fun line => byteLength line + 1).sum) := by
  induction l using List.reverseRecOn with
  | nil => rfl
  | append_singleton l a ih =>
    rw [List.foldl_append, ih, splitLast_snoc]
    by_cases ha : isHorizontalRule a = true
    · simp [ha, Nat.add_assoc]
    · simp [ha, Nat.add_assoc, Option.map_map, Function.comp_def]

theorem afterLastHorizontalRule_eq :
    afterLastHorizontalRule content = (window (pieces content) .afterLastHorizontalRule).read content := by
  unfold afterLastHorizontalRule window
  simp only
  rw [scan_eq, lines_eq_map_pieces, splitLast_map]
  change sliceFrom content ((Option.map _ (Option.map _ (splitLast isRule (pieces content)))).getD 0) = _
  cases h : splitLast isRule (pieces content) with
  | none =>
    simp only [Option.map_none, Option.getD_none, Window.read, sliceFrom]
    have hzero := splitAtByte_append [] content
    rw [byteLength_nil, List.nil_append] at hzero
    rw [hzero]
    rfl
  | some s =>
    obtain ⟨b, x, r⟩ := s
    have hsplit := (splitLast_spec h).1
    have htake : (lines content).take (b.length + 1) = (b ++ [x]).map lineOf := by
      rw [lines_eq_map_pieces, hsplit]
      have hparts : (b ++ x :: r).map lineOf = (b ++ [x]).map lineOf ++ r.map lineOf := by simp
      rw [hparts, List.take_left' (by simp)]
    have hle : b.length + 1 ≤ (lines content).length := by
      rw [length_lines, hsplit, List.length_append, List.length_cons]
      omega
    simp only [Option.map_some, Option.getD_some, Window.read, List.length_append, List.length_singleton]
    rw [← sum_take_eq content hle, htake]
    simp

end

/-! ## Lines counted from an end -/

theorem splitNth_zero {α : Type} (p : α → Bool) (l : List α) : splitNth p 0 l = none := by cases l <;> rfl

theorem filter_first_pos {α : Type} {p : α → Bool} {a : α} (ha : p a = true) (k : Nat) (l : List (α × Nat)) :
    ((a, k) :: l).filter (fun e => p e.1) = (a, k) :: l.filter fun e => p e.1 :=
  List.filter_cons_of_pos ha

theorem filter_first_neg {α : Type} {p : α → Bool} {a : α} (ha : ¬ p a = true) (k : Nat) (l : List (α × Nat)) :
    ((a, k) :: l).filter (fun e => p e.1) = l.filter fun e => p e.1 :=
  List.filter_cons_of_neg ha

theorem splitNth_cons_pos {α : Type} {p : α → Bool} {a : α} (ha : p a = true) (n : Nat) (l : List α) :
    splitNth p (n + 1) (a :: l) = some (((splitNth p n l).map fun s => (a :: s.1, s.2)).getD ([a], l)) := by
  rw [splitNth]
  simp only [ha, if_true]
  cases splitNth p n l <;> rfl

theorem splitNth_cons_neg {α : Type} {p : α → Bool} {a : α} (ha : ¬ p a = true) (n : Nat) (l : List α) :
    splitNth p (n + 1) (a :: l) = (splitNth p (n + 1) l).map fun s => (a :: s.1, s.2) := by
  rw [splitNth]
  simp only [ha]
  cases hl : splitNth p (n + 1) l <;> simp [hl]

theorem nth_index_eq {α : Type} (p : α → Bool) (n : Nat) (l : List α) (k : Nat) :
    (((l.zipIdx k).filter fun e => p e.1).take n).getLast?.map (fun e => e.2 + 1) =
      (splitNth p n l).map fun s => k + s.1.length := by
  induction l generalizing n k with
  | nil => cases n <;> rfl
  | cons a l ih =>
    cases n with
    | zero => rfl
    | succ n =>
      rw [List.zipIdx_cons]
      by_cases ha : p a = true
      · have hnext := ih n (k + 1)
        rw [filter_first_pos ha, List.take_succ_cons, List.getLast?_cons, splitNth_cons_pos ha]
        cases hs : splitNth p n l with
        | none =>
          rw [hs, Option.map_none, Option.map_eq_none_iff] at hnext
          rw [hnext]
          simp
        | some s =>
          rw [hs] at hnext
          obtain ⟨e, he, heq⟩ := Option.map_eq_some_iff.mp hnext
          simp only [he, heq, Option.getD_some, Option.map_some, List.length_cons]
          congr 1
          omega
      · rw [filter_first_neg ha, ih (n + 1) (k + 1), splitNth_cons_neg ha, Option.map_map]
        apply Option.map_congr
        intro s _
        simp only [Function.comp_apply, List.length_cons]
        omega

theorem nth_last_index_eq {α : Type} (p : α → Bool) (n : Nat) (l : List α) :
    ((l.zipIdx.reverse.filter fun e => p e.1).take n).getLast?.map (fun e => e.2) =
      (splitNth p n l.reverse).map fun s => l.length - s.1.length := by
  induction l using List.reverseRecOn generalizing n with
  | nil => cases n <;> rfl
  | append_singleton l a ih =>
    cases n with
    | zero =>
      rw [splitNth_zero]
      rfl
    | succ n =>
      rw [zipIdx_snoc, List.reverse_append, List.reverse_singleton, List.singleton_append]
      by_cases ha : p a = true
      · have hnext := ih n
        rw [filter_first_pos ha, List.take_succ_cons, List.getLast?_cons, splitNth_cons_pos ha]
        cases hs : splitNth p n l.reverse with
        | none =>
          rw [hs, Option.map_none, Option.map_eq_none_iff] at hnext
          rw [hnext]
          simp
        | some s =>
          rw [hs] at hnext
          obtain ⟨e, he, heq⟩ := Option.map_eq_some_iff.mp hnext
          simp only [he, heq, Option.getD_some, Option.map_some, List.length_cons, List.length_append, List.length_nil]
          congr 1
          omega
      · rw [filter_first_neg ha, ih (n + 1), splitNth_cons_neg ha, Option.map_map]
        apply Option.map_congr
        intro s _
        simp only [Function.comp_apply, List.length_cons, List.length_append, List.length_nil]
        omega

section
variable (content : Text)

theorem topNonEmptyLines_eq (count : Nat) :
    topNonEmptyLines content count = (window (pieces content) (.topNonEmptyLines count)).read content := by
  have hindex := nth_index_eq nonEmpty count (lines content) 0
  rw [lines_eq_map_pieces, splitNth_map, Option.map_map] at hindex
  change _ = Option.map _ (splitNth isNonEmpty count (pieces content)) at hindex
  rw [← lines_eq_map_pieces] at hindex
  unfold topNonEmptyLines
  simp only [window]
  cases hs : splitNth isNonEmpty count (pieces content) with
  | none =>
    rw [hs, Option.map_none, Option.map_eq_none_iff] at hindex
    rw [hindex]
    rfl
  | some s =>
    rw [hs] at hindex
    obtain ⟨e, he, heq⟩ := Option.map_eq_some_iff.mp hindex
    rw [he]
    simp only [Window.read, heq, Function.comp_apply, List.length_map, Nat.zero_add]

theorem bottomNonEmptyLines_eq (count : Nat) :
    bottomNonEmptyLines content count = (window (pieces content) (.bottomNonEmptyLines count)).read content := by
  have hindex := nth_last_index_eq nonEmpty count (lines content)
  rw [lines_eq_map_pieces, ← List.map_reverse, splitNth_map, Option.map_map] at hindex
  change _ = Option.map _ (splitNth isNonEmpty count (pieces content).reverse) at hindex
  rw [← lines_eq_map_pieces] at hindex
  unfold bottomNonEmptyLines
  simp only [window]
  cases hs : splitNth isNonEmpty count (pieces content).reverse with
  | none =>
    rw [hs, Option.map_none, Option.map_eq_none_iff] at hindex
    rw [hindex]
    rfl
  | some s =>
    obtain ⟨b, r⟩ := s
    rw [hs] at hindex
    obtain ⟨e, he, heq⟩ := Option.map_eq_some_iff.mp hindex
    have hlen : (pieces content).length = b.length + r.length := by
      have hsplit := congrArg List.length (splitNth_spec hs).1
      rw [List.length_reverse, List.length_append] at hsplit
      exact hsplit
    have hbefore : e.2 = r.reverse.length := by
      rw [heq]
      simp only [Function.comp_apply, List.length_map, List.length_reverse, length_lines]
      omega
    rw [he]
    simp only [Window.read, hbefore, sliceFromLineIndex_eq]

end

/-! ## Names of regions -/

inductive Region where
  | oscTitle
  | oscProgress
  | screen (r : ScreenRegion)
deriving Repr, DecidableEq

/-- A count without sign or leading zero, of at most 16 bits. -/
structure IsTopCount (digits : Text) (count : Nat) : Prop where
  decimal : digits.all Char.isDigit = true
  canonical : digits.head? ≠ some '0'
  value : parseUsize digits = some count
  bounded : count ≤ maxTopRegionLineCount

def Counted (name : String) (digits t : Text) : Prop := t = name.toList ++ '(' :: (digits ++ [')'])

/-- The texts that name a region. -/
def Region.Spells : Region → Text → Prop
  | .oscTitle, t => t = "osc_title".toList
  | .oscProgress, t => t = "osc_progress".toList
  | .screen .wholeRecent, t => t = "whole_recent".toList
  | .screen .afterLastPromptMarker, t => t = "after_last_prompt_marker".toList
  | .screen .beforeCurrentPromptMarker, t => t = "before_current_prompt_marker".toList
  | .screen .wholeRecentWithoutCurrentPromptMarker, t => t = "whole_recent_without_current_prompt_marker".toList
  | .screen .currentPromptBlockMarker, t => t = "current_prompt_block_marker".toList
  | .screen .afterCurrentPromptBlockMarker, t => t = "after_current_prompt_block_marker".toList
  | .screen .promptBoxBody, t => t = "prompt_box_body".toList
  | .screen .abovePromptBox, t => t = "above_prompt_box".toList
  | .screen .lastNonEmptyAbovePromptBox, t => t = "last_non_empty_above_prompt_box".toList
  | .screen .afterLastHorizontalRule, t => t = "after_last_horizontal_rule".toList
  | .screen (.bottomLines count), t => ∃ ds, Counted "bottom_lines" ds t ∧ parseUsize ds = some count
  | .screen (.bottomNonEmptyLines count), t =>
    ∃ ds, Counted "bottom_non_empty_lines" ds t ∧ parseUsize ds = some count
  | .screen (.topNonEmptyLines count), t => ∃ ds, Counted "top_non_empty_lines" ds t ∧ IsTopCount ds count

theorem afterHead_eq_some {head t r : Text} : afterHead head t = some r ↔ t = head ++ r := by
  unfold afterHead
  constructor
  · intro h
    by_cases hp : head.isPrefixOf t = true
    · rw [if_pos hp] at h
      cases h
      exact (List.prefix_iff_eq_append.mp (List.isPrefixOf_iff_prefix.mp hp)).symm
    · rw [if_neg hp] at h
      cases h
  · rintro rfl
    rw [if_pos (List.isPrefixOf_iff_prefix.mpr (List.prefix_append head r)), List.drop_left]

theorem beforeLast_eq_some {c : Char} {t r : Text} : beforeLast c t = some r ↔ t = r ++ [c] := by
  unfold beforeLast
  constructor
  · intro h
    by_cases hl : t.getLast? = some c
    · rw [if_pos hl] at h
      cases h
      exact (List.dropLast_append_getLast? _ hl).symm
    · rw [if_neg hl] at h
      cases h
  · rintro rfl
    simp

theorem between_eq_some {spec ds : Text} {name : String} :
    between spec name.toList = some ds ↔ Counted name ds spec := by
  unfold between Counted
  simp only [Option.bind_eq_some_iff, afterHead_eq_some, beforeLast_eq_some]
  constructor
  · rintro ⟨x, ⟨y, rfl, rfl⟩, rfl⟩
    rfl
  · rintro rfl
    exact ⟨ds ++ [')'], ⟨'(' :: (ds ++ [')']), rfl, rfl⟩, rfl⟩

theorem regionCount_eq_some {spec : Text} {name : String} {count : Nat} :
    regionCount spec name.toList = some count ↔ ∃ ds, Counted name ds spec ∧ parseUsize ds = some count := by
  unfold regionCount
  simp only [Option.bind_eq_some_iff, between_eq_some]

theorem topRegionCount_eq_some {spec : Text} {count : Nat} :
    topRegionCount spec = some count ↔ ∃ ds, Counted "top_non_empty_lines" ds spec ∧ IsTopCount ds count := by
  unfold topRegionCount
  rw [Option.bind_eq_some_iff]
  constructor
  · rintro ⟨ds, hds, h⟩
    refine ⟨ds, between_eq_some.mp hds, ?_⟩
    by_cases hbad : (decide (ds.head? = some '0') || !ds.all Char.isDigit) = true
    · rw [if_pos hbad] at h
      cases h
    · rw [if_neg hbad, Option.filter_eq_some_iff, decide_eq_true_eq] at h
      rw [Bool.or_eq_true, not_or, decide_eq_true_eq, Bool.not_eq_true', Bool.not_eq_false] at hbad
      exact ⟨hbad.2, hbad.1, h.1, h.2⟩
  · rintro ⟨ds, hds, h⟩
    refine ⟨ds, between_eq_some.mpr hds, ?_⟩
    have hgood : ¬ (decide (ds.head? = some '0') || !ds.all Char.isDigit) = true := by
      rw [Bool.or_eq_true, not_or, decide_eq_true_eq, Bool.not_eq_true', Bool.not_eq_false]
      exact ⟨h.canonical, h.decimal⟩
    rw [if_neg hgood, Option.filter_eq_some_iff, decide_eq_true_eq]
    exact ⟨h.value, h.bounded⟩

/-- No fixed name ends in a parenthesis. -/
theorem not_name_of_counted {name : String} {ds t : Text} (h : Counted name ds t) : t ∉ regionNames := by
  have hlast : ∀ n ∈ regionNames, n.getLast? ≠ some ')' := by decide
  intro hmem
  refine hlast t hmem ?_
  rw [h, List.getLast?_append, List.getLast?_cons]
  simp

theorem validateRegionName_eq_ok {spec : Text} : validateRegionName spec = .ok () ↔
    trim spec ∈ regionNames ∨ (regionCount (trim spec) "bottom_lines".toList).isSome = true ∨
      (regionCount (trim spec) "bottom_non_empty_lines".toList).isSome = true ∨
        (topRegionCount (trim spec)).isSome = true := by
  unfold validateRegionName
  simp only
  by_cases hname : regionNames.contains (trim spec) = true
  · rw [if_pos hname]
    exact iff_of_true rfl (Or.inl (List.contains_iff_mem.mp hname))
  · rw [if_neg hname]
    have hnot : trim spec ∉ regionNames := fun hm => hname (List.contains_iff_mem.mpr hm)
    by_cases hcount : ((regionCount (trim spec) "bottom_lines".toList).isSome ||
        (regionCount (trim spec) "bottom_non_empty_lines".toList).isSome || (topRegionCount (trim spec)).isSome) = true
    · rw [if_pos hcount]
      rw [Bool.or_eq_true, Bool.or_eq_true, or_assoc] at hcount
      exact iff_of_true rfl (Or.inr hcount)
    · rw [if_neg hcount]
      rw [Bool.or_eq_true, Bool.or_eq_true, or_assoc] at hcount
      refine iff_of_false (by intro h; cases h) ?_
      rintro (hm | hc)
      · exact hnot hm
      · exact hcount hc

/-- The validator accepts the names of regions, and nothing else. -/
theorem validateRegionName_iff (spec : Text) :
    validateRegionName spec = .ok () ↔ ∃ r : Region, r.Spells (trim spec) := by
  rw [validateRegionName_eq_ok]
  constructor
  · rintro (hname | hc | hc | hc)
    · simp only [regionNames, List.map_cons, List.map_nil, List.mem_cons, List.not_mem_nil, or_false] at hname
      rcases hname with h | h | h | h | h | h | h | h | h | h | h | h
      · exact ⟨.screen .wholeRecent, h⟩
      · exact ⟨.screen .afterLastPromptMarker, h⟩
      · exact ⟨.screen .beforeCurrentPromptMarker, h⟩
      · exact ⟨.screen .wholeRecentWithoutCurrentPromptMarker, h⟩
      · exact ⟨.screen .currentPromptBlockMarker, h⟩
      · exact ⟨.screen .afterCurrentPromptBlockMarker, h⟩
      · exact ⟨.screen .promptBoxBody, h⟩
      · exact ⟨.screen .abovePromptBox, h⟩
      · exact ⟨.screen .lastNonEmptyAbovePromptBox, h⟩
      · exact ⟨.screen .afterLastHorizontalRule, h⟩
      · exact ⟨.oscTitle, h⟩
      · exact ⟨.oscProgress, h⟩
    · obtain ⟨count, hc⟩ := Option.isSome_iff_exists.mp hc
      exact ⟨.screen (.bottomLines count), regionCount_eq_some.mp hc⟩
    · obtain ⟨count, hc⟩ := Option.isSome_iff_exists.mp hc
      exact ⟨.screen (.bottomNonEmptyLines count), regionCount_eq_some.mp hc⟩
    · obtain ⟨count, hc⟩ := Option.isSome_iff_exists.mp hc
      exact ⟨.screen (.topNonEmptyLines count), topRegionCount_eq_some.mp hc⟩
  · rintro ⟨r, hr⟩
    cases r with
    | oscTitle => exact Or.inl (hr ▸ List.mem_map_of_mem (by simp))
    | oscProgress => exact Or.inl (hr ▸ List.mem_map_of_mem (by simp))
    | screen r =>
      cases r with
      | bottomLines count => exact Or.inr (Or.inl (Option.isSome_of_eq_some (regionCount_eq_some.mpr hr)))
      | bottomNonEmptyLines count =>
        exact Or.inr (Or.inr (Or.inl (Option.isSome_of_eq_some (regionCount_eq_some.mpr hr))))
      | topNonEmptyLines count =>
        exact Or.inr (Or.inr (Or.inr (Option.isSome_of_eq_some (topRegionCount_eq_some.mpr hr))))
      | _ => exact Or.inl (hr ▸ List.mem_map_of_mem (by simp))

/-- What the code makes of a region, by its name. -/
def Region.read (input : DetectionInput) : Region → Option Text
  | .oscTitle => some input.oscTitle
  | .oscProgress => some input.oscProgress
  | .screen r => (window (pieces input.screen) r).read input.screen

/-- A name that is not fixed is read by its count. -/
theorem region_of_count {spec : Text} (h : trim spec ∉ regionNames) (input : DetectionInput) :
    region input spec = countedRegion input.screen (trim spec) := by
  have hne : ∀ name ∈ regionNames, ¬ trim spec = name := fun name hn heq => h (heq ▸ hn)
  unfold region
  simp only
  rw [if_neg (hne _ (List.mem_map_of_mem (by simp))), if_neg (hne _ (List.mem_map_of_mem (by simp))),
    if_neg (hne _ (List.mem_map_of_mem (by simp))), if_neg (hne _ (List.mem_map_of_mem (by simp))),
    if_neg (hne _ (List.mem_map_of_mem (by simp))), if_neg (hne _ (List.mem_map_of_mem (by simp))),
    if_neg (hne _ (List.mem_map_of_mem (by simp))), if_neg (hne _ (List.mem_map_of_mem (by simp))),
    if_neg (hne _ (List.mem_map_of_mem (by simp))), if_neg (hne _ (List.mem_map_of_mem (by simp))),
    if_neg (hne _ (List.mem_map_of_mem (by simp))), if_neg (hne _ (List.mem_map_of_mem (by simp)))]

theorem regionCount_of_other {name other : String} {ds t : Text} (h : Counted name ds t)
    (hne : other.toList.isPrefixOf (name.toList ++ '(' :: (ds ++ [')'])) = false) :
    regionCount t other.toList = none := by
  unfold regionCount between afterHead
  rw [h, if_neg (by rw [hne]; decide)]
  rfl

theorem region_of_spells {r : Region} {spec : Text} (h : r.Spells (trim spec)) (input : DetectionInput) :
    region input spec = r.read input := by
  cases r with
  | oscTitle => simp +decide only [region, show trim spec = _ from h, if_true, if_false, Region.read]
  | oscProgress => simp +decide only [region, show trim spec = _ from h, if_true, if_false, Region.read]
  | screen r =>
    cases r with
    | wholeRecent =>
      simp +decide only [region, show trim spec = _ from h, if_true, if_false]
      rfl
    | afterLastPromptMarker =>
      simp +decide only [region, show trim spec = _ from h, if_true, if_false]
      exact afterLastPromptMarker_eq input.screen
    | beforeCurrentPromptMarker =>
      simp +decide only [region, show trim spec = _ from h, if_true, if_false]
      exact beforeCurrentPromptMarker_eq input.screen
    | wholeRecentWithoutCurrentPromptMarker =>
      simp +decide only [region, show trim spec = _ from h, if_true, if_false]
      exact wholeRecentWithoutCurrentPromptMarker_eq input.screen
    | currentPromptBlockMarker =>
      simp +decide only [region, show trim spec = _ from h, if_true, if_false]
      exact currentPromptBlockMarker_eq input.screen
    | afterCurrentPromptBlockMarker =>
      simp +decide only [region, show trim spec = _ from h, if_true, if_false]
      exact afterCurrentPromptBlockMarker_eq input.screen
    | promptBoxBody =>
      simp +decide only [region, show trim spec = _ from h, if_true, if_false]
      exact promptBoxBody_eq input.screen
    | abovePromptBox =>
      simp +decide only [region, show trim spec = _ from h, if_true, if_false]
      exact abovePromptBox_eq input.screen
    | lastNonEmptyAbovePromptBox =>
      simp +decide only [region, show trim spec = _ from h, if_true, if_false]
      exact lastNonEmptyAbovePromptBox_eq input.screen
    | afterLastHorizontalRule =>
      simp +decide only [region, show trim spec = _ from h, if_true, if_false]
      exact afterLastHorizontalRule_eq input.screen
    | bottomLines count =>
      have hcounted := h
      obtain ⟨ds, hds, -⟩ := hcounted
      rw [region_of_count (not_name_of_counted hds), countedRegion, regionCount_eq_some.mpr h]
      exact bottomLines_eq input.screen count
    | bottomNonEmptyLines count =>
      have hcounted := h
      obtain ⟨ds, hds, -⟩ := hcounted
      rw [region_of_count (not_name_of_counted hds), countedRegion, regionCount_of_other hds rfl,
        regionCount_eq_some.mpr h]
      exact bottomNonEmptyLines_eq input.screen count
    | topNonEmptyLines count =>
      have hcounted := h
      obtain ⟨ds, hds, -⟩ := hcounted
      rw [region_of_count (not_name_of_counted hds), countedRegion, regionCount_of_other hds rfl,
        regionCount_of_other hds rfl, topRegionCount_eq_some.mpr h]
      exact topNonEmptyLines_eq input.screen count

end Mux.Agents
