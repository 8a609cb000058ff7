import Mux.RegionSound

/-!
# Where a region is cut

The code takes every line before a cut for as long as what is left without its end, and
one byte. That is a byte short for a line that ends in a carriage return and a newline and
a byte long for a last line without an end; `drifted` is where the cut then falls. Where
no line ends in the pair it falls on the line's start. Elsewhere it may fall inside a
character, and the slice panics.
-/

namespace Mux.Agents

open Lib

/-- The byte the code cuts at instead of the start of line `k`. -/
def drifted (content : Text) (k : Nat) : Nat :=
  let passed := (pieces content).take k
  min (byteLength passed.flatten + passed.countP (fun w => !endsLine w) - passed.countP endsCrlf) (byteLength content)

def Region.cuts (screen : Text) : Region → List Nat
  | .oscTitle | .oscProgress => []
  | .screen r => (window (pieces screen) r).cuts

def Region.text (input : DetectionInput) : Region → Text
  | .oscTitle => input.oscTitle
  | .oscProgress => input.oscProgress
  | .screen r => (window (pieces input.screen) r).text (pieces input.screen)

/-! ## Offsets -/

theorem sum_lineOf (ls : List Text) :
    ((ls.map lineOf).map fun line => byteLength line + 1).sum + ls.countP endsCrlf =
      byteLength ls.flatten + ls.countP fun w => !endsLine w := by
  induction ls with
  | nil => rfl
  | cons w ls ih =>
    rw [List.map_cons, List.map_cons, List.sum_cons, List.flatten_cons, byteLength_append, List.countP_cons,
      List.countP_cons]
    by_cases h : endsLine w = true
    · have hlen := byteLength_lineOf h
      simp only [h, Bool.not_true, Bool.false_eq_true, if_false]
      omega
    · have hopen : endsLine w = false := by simpa using h
      have hcrlf : endsCrlf w = false := by simp [endsCrlf, hopen]
      rw [lineOf_of_open hopen]
      simp only [hopen, hcrlf, Bool.not_false, Bool.false_eq_true, if_true, if_false]
      omega

theorem lineStartOffset_eq (content : Text) (k : Nat) :
    lineStartOffset content (lines content) k = drifted content k := by
  have htake : (lines content).take (min k (lines content).length) = ((pieces content).take k).map lineOf := by
    rw [← List.take_eq_take_min, lines_eq_map_pieces, List.map_take]
  have hsum := sum_lineOf ((pieces content).take k)
  unfold lineStartOffset drifted
  rw [htake]
  congr 1
  omega

theorem drifted_mono (content : Text) {j k : Nat} (h : j ≤ k) : drifted content j ≤ drifted content k := by
  rw [← lineStartOffset_eq, ← lineStartOffset_eq]
  unfold lineStartOffset
  rw [← List.take_eq_take_min, ← List.take_eq_take_min]
  obtain ⟨d, rfl⟩ := Nat.exists_eq_add_of_le h
  rw [List.take_add, List.map_append, List.sum_append]
  omega

theorem byteLength_take_le (content : Text) (k : Nat) :
    byteLength ((pieces content).take k).flatten ≤ byteLength content := by
  have hparts : content = ((pieces content).take k).flatten ++ ((pieces content).drop k).flatten := by
    rw [← List.flatten_append, List.take_append_drop, flatten_pieces]
  conv => rhs; rw [hparts, byteLength_append]
  omega

/-- Without the pair no cut moves. -/
theorem drifted_exact {content : Text} (h : ¬ ['\r', '\n'] <:+: content) (k : Nat) :
    drifted content k = byteLength ((pieces content).take k).flatten := by
  have hcrlf : ((pieces content).take k).countP endsCrlf = 0 := by
    rw [List.countP_eq_zero]
    intro w hw
    rw [endsCrlf_of_none h (List.mem_of_mem_take hw)]
    decide
  have hle := byteLength_take_le content k
  unfold drifted
  simp only [hcrlf, Nat.sub_zero]
  by_cases hk : k < (pieces content).length
  · -- only the last line may lack its end
    have hopen : ((pieces content).take k).countP (fun w => !endsLine w) = 0 := by
      rw [List.countP_eq_zero]
      intro w hw
      have hdrop : w ∈ (pieces content).dropLast := by
        rw [List.dropLast_eq_take]
        have htake : (pieces content).take k = ((pieces content).take ((pieces content).length - 1)).take k := by
          rw [List.take_take, Nat.min_eq_left (by omega)]
        rw [htake] at hw
        exact List.mem_of_mem_take hw
      rw [endsLine_of_dropLast hdrop]
      decide
    rw [hopen, Nat.add_zero, Nat.min_eq_left hle]
  · rw [List.take_of_length_le (by omega), flatten_pieces, Nat.min_eq_right (Nat.le_add_right _ _)]

/-! ## Windows -/

theorem window_splits (ls : List Text) (r : ScreenRegion) : (window ls r).Splits ls := by
  cases r with
  | wholeRecent => trivial
  | afterLastPromptMarker =>
    simp only [window]
    cases h : splitLast isPrompt ls with
    | none => trivial
    | some s =>
      have hsplit := (splitLast_spec h).1
      simpa [Window.Splits] using hsplit
  | beforeCurrentPromptMarker =>
    simp only [window]
    cases h : currentPrompt ls with
    | none => trivial
    | some s => exact (splitLast_spec (currentPrompt_spec h).1).1
  | wholeRecentWithoutCurrentPromptMarker =>
    simp only [window]
    by_cases h : (currentPrompt ls).isSome = true
    · rw [if_pos h]
      trivial
    · rw [if_neg h]
      trivial
  | currentPromptBlockMarker =>
    simp only [window]
    cases h : (currentPrompt ls).bind fun s => splitLast isBlockMarker s.1 with
    | none => trivial
    | some u =>
      obtain ⟨s, hs, hu⟩ := Option.bind_eq_some_iff.mp h
      have h1 := (splitLast_spec (currentPrompt_spec hs).1).1
      have h2 := (splitLast_spec hu).1
      simp only [Window.Splits]
      rw [h1, h2]
      simp
  | afterCurrentPromptBlockMarker =>
    simp only [window]
    cases h : currentPrompt ls with
    | none => trivial
    | some s =>
      simp only
      cases hb : splitLast isBlockMarker s.1 with
      | none => trivial
      | some u =>
        have h1 := (splitLast_spec (currentPrompt_spec h).1).1
        have h2 := (splitLast_spec hb).1
        simp only [Window.Splits]
        rw [h1]
        conv => lhs; rw [h2]
        simp
  | promptBoxBody =>
    simp only [window]
    cases h : promptBox ls with
    | none => trivial
    | some box =>
      have hsplit := (promptBox_spec h).1
      simpa [Window.Splits] using hsplit
  | abovePromptBox =>
    simp only [window]
    cases h : promptBox ls with
    | none => trivial
    | some box =>
      have hsplit := (promptBox_spec h).1
      simpa [Window.Splits] using hsplit
  | lastNonEmptyAbovePromptBox =>
    simp only [window]
    cases h : promptBox ls with
    | none => exact (List.append_nil ls).symm
    | some box =>
      have hsplit := (promptBox_spec h).1
      simpa [Window.Splits] using hsplit
  | afterLastHorizontalRule =>
    simp only [window]
    cases h : splitLast isRule ls with
    | none => trivial
    | some s =>
      have hsplit := (splitLast_spec h).1
      simpa [Window.Splits] using hsplit
  | bottomLines count => exact (List.take_append_drop _ _).symm
  | bottomNonEmptyLines count =>
    simp only [window]
    cases h : splitNth isNonEmpty count ls.reverse with
    | none => trivial
    | some s =>
      have hsplit := congrArg List.reverse (splitNth_spec h).1
      simpa [Window.Splits] using hsplit
  | topNonEmptyLines count =>
    simp only [window]
    cases h : splitNth isNonEmpty count ls with
    | none => trivial
    | some s => exact (splitNth_spec h).1

theorem lastNonEmptyLine_eq {block : List Text} (h : pieces block.flatten = block) :
    lastNonEmptyLine block.flatten = ((splitLast isNonEmpty block).map fun s => lineOf s.2.1).getD [] := by
  unfold lastNonEmptyLine
  rw [find_reverse_eq, lines_eq_map_pieces, h, splitLast_map, Option.map_map]
  rfl

section
variable {content : Text}

theorem sliceFrom_append (a b : Text) : sliceFrom (a ++ b) (byteLength a) = some b := by
  unfold sliceFrom
  rw [splitAtByte_append]
  rfl

theorem sliceTo_append (a b : Text) : sliceTo (a ++ b) (byteLength a) = some a := by
  unfold sliceTo
  rw [splitAtByte_append]
  rfl

theorem content_of_pieces {a b : List Text} (h : pieces content = a ++ b) : content = a.flatten ++ b.flatten := by
  rw [← List.flatten_append, ← h, flatten_pieces]

/-- Without the pair a cut is the start of its line. -/
theorem offset_exact (hno : ¬ ['\r', '\n'] <:+: content) {a b : List Text} (h : pieces content = a ++ b) :
    lineStartOffset content (lines content) a.length = byteLength a.flatten := by
  rw [lineStartOffset_eq, drifted_exact hno, h, List.take_left]

/-- Without the pair a window is read exactly. -/
theorem read_eq_text (hno : ¬ ['\r', '\n'] <:+: content) {w : Window} (hw : w.Splits (pieces content)) :
    w.read content = some (w.text (pieces content)) := by
  cases w with
  | whole => simp only [Window.read, Window.text, flatten_pieces]
  | empty => rfl
  | line w => rfl
  | onward before block =>
    simp only [Window.read, Window.text]
    rw [offset_exact hno hw]
    conv => lhs; rw [content_of_pieces hw]
    exact sliceFrom_append _ _
  | head block rest =>
    simp only [Window.read, Window.text]
    rw [offset_exact hno hw]
    conv => lhs; rw [content_of_pieces hw]
    exact sliceTo_append _ _
  | middle before block rest =>
    have hfirst : pieces content = before ++ (block ++ rest) := by rw [hw, List.append_assoc]
    have hstop : lineStartOffset content (lines content) (before.length + block.length) =
        byteLength (before ++ block).flatten := by
      rw [← List.length_append]
      exact offset_exact hno hw
    have hto : sliceTo content (byteLength (before ++ block).flatten) = some (before ++ block).flatten := by
      conv => lhs; rw [content_of_pieces hw]
      exact sliceTo_append _ _
    simp only [Window.read, Window.text]
    rw [offset_exact hno hfirst, hstop]
    unfold slice
    rw [hto, List.flatten_append, byteLength_append, if_pos (Nat.le_add_right _ _), Option.bind_some]
    exact sliceFrom_append _ _
  | lastOf block rest =>
    simp only [Window.read, Window.text]
    cases rest with
    | nil =>
      have hblock : pieces content = block := by
        rw [hw, List.append_nil]
      have hcontent : content = block.flatten := by rw [← hblock, flatten_pieces]
      have hpieces : pieces block.flatten = block := by rw [← hcontent, hblock]
      simp only [List.isEmpty_nil, if_true, Option.map_some]
      rw [hcontent, lastNonEmptyLine_eq hpieces]
    | cons w rest =>
      have hto : sliceTo content (byteLength block.flatten) = some block.flatten := by
        conv => lhs; rw [content_of_pieces hw]
        exact sliceTo_append _ _
      rw [if_neg (by simp), offset_exact hno hw, hto, Option.map_some, lastNonEmptyLine_eq (pieces_before hw)]

theorem slice_isSome {start stop : Nat} (h : start ≤ stop) : (slice content start stop).isSome = true ↔
    IsCharBoundary content start ∧ IsCharBoundary content stop := by
  unfold slice
  rw [if_pos h]
  constructor
  · intro hsome
    obtain ⟨t, hbind⟩ := Option.isSome_iff_exists.mp hsome
    obtain ⟨x, hx, hfrom⟩ := Option.bind_eq_some_iff.mp hbind
    obtain ⟨⟨a, b⟩, hs, rfl⟩ := Option.map_eq_some_iff.mp hx
    obtain ⟨rfl, hlen⟩ := splitAtByte_spec hs
    have hstart : (splitAtByte a start).isSome = true := by
      have hmap := Option.isSome_of_eq_some hfrom
      rwa [sliceFrom, Option.isSome_map] at hmap
    exact ⟨(isCharBoundary_append (by omega)).mpr (splitAtByte_isSome.mp hstart), a, b, rfl, hlen⟩
  · rintro ⟨hstart, a, b, rfl, hlen⟩
    have hin : (splitAtByte a start).isSome = true :=
      splitAtByte_isSome.mpr ((isCharBoundary_append (by omega)).mp hstart)
    rw [← hlen, sliceTo_append, Option.bind_some, sliceFrom, Option.isSome_map]
    exact hin

/-- A window can be read when every cut falls between two characters. -/
theorem read_isSome {w : Window} : (w.read content).isSome = true ↔
    ∀ k ∈ w.cuts, IsCharBoundary content (drifted content k) := by
  cases w with
  | whole => simp [Window.read, Window.cuts]
  | empty => simp [Window.read, Window.cuts]
  | line w => simp [Window.read, Window.cuts]
  | onward before block =>
    simp only [Window.read, Window.cuts, List.mem_singleton, forall_eq, sliceFrom, Option.isSome_map,
      splitAtByte_isSome, lineStartOffset_eq]
  | head block rest =>
    simp only [Window.read, Window.cuts, List.mem_singleton, forall_eq, sliceTo, Option.isSome_map,
      splitAtByte_isSome, lineStartOffset_eq]
  | middle before block rest =>
    simp only [Window.read, Window.cuts, lineStartOffset_eq]
    rw [slice_isSome (drifted_mono content (Nat.le_add_right _ _))]
    simp
  | lastOf block rest =>
    simp only [Window.read, Window.cuts]
    cases rest with
    | nil => simp
    | cons w rest =>
      rw [if_neg (by simp), if_neg (by simp)]
      simp only [List.mem_singleton, forall_eq, sliceTo, Option.isSome_map, splitAtByte_isSome, lineStartOffset_eq]

end

/-- The regions of an accepted name are blocks of whole lines of a screen without the pair. -/
theorem region_is_block_of_lines {input : DetectionInput} (hno : ¬ ['\r', '\n'] <:+: input.screen) {spec : Text}
    (h : validateRegionName spec = .ok ()) :
    (∃ r : Region, r.Spells (trim spec)) ∧
      ∀ r : Region, r.Spells (trim spec) → region input spec = some (r.text input) ∧
        ∀ s, r = .screen s → (window (pieces input.screen) s).Splits (pieces input.screen) := by
  refine ⟨(validateRegionName_iff spec).mp h, ?_⟩
  intro r hr
  rw [region_of_spells hr]
  constructor
  · cases r with
    | oscTitle => rfl
    | oscProgress => rfl
    | screen s => exact read_eq_text hno (window_splits _ s)
  · rintro s rfl
    exact window_splits _ s

/-- The last two lines that are not empty, where one text stands on two lines. -/
theorem region_is_block_of_lines_repeated :
    region ⟨"marker\nold\n\nmiddle\nmarker\nnew\n".toList, [], []⟩ " bottom_non_empty_lines(2)".toList =
        some ((Region.screen (.bottomNonEmptyLines 2)).text ⟨"marker\nold\n\nmiddle\nmarker\nnew\n".toList, [], []⟩) ∧
      (Region.screen (.bottomNonEmptyLines 2)).text ⟨"marker\nold\n\nmiddle\nmarker\nnew\n".toList, [], []⟩ =
        "marker\nnew\n".toList := by
  refine ⟨((region_is_block_of_lines (by decide +kernel) (by decide +kernel)).2 _ ?_).1, by decide +kernel⟩
  refine ⟨['2'], ?_, by decide +kernel⟩
  unfold Counted
  decide +kernel

/-- A name the validator rejects is read as nothing. -/
theorem region_of_invalid {spec : Text} (h : ¬ validateRegionName spec = .ok ()) (input : DetectionInput) :
    region input spec = some [] := by
  rw [validateRegionName_eq_ok, not_or, not_or, not_or] at h
  obtain ⟨hname, h1, h2, h3⟩ := h
  rw [region_of_count hname, countedRegion, Option.not_isSome_iff_eq_none.mp h1, Option.not_isSome_iff_eq_none.mp h2,
    Option.not_isSome_iff_eq_none.mp h3]

/-- None of the cuts of the region falls inside a character. -/
def Readable (input : DetectionInput) (spec : Text) : Prop :=
  ∀ r : Region, r.Spells (trim spec) → ∀ k ∈ r.cuts input.screen,
    IsCharBoundary input.screen (drifted input.screen k)

theorem region_isSome_iff (input : DetectionInput) (spec : Text) :
    (region input spec).isSome = true ↔ Readable input spec := by
  have hread : ∀ {r : Region}, r.Spells (trim spec) → ((region input spec).isSome = true ↔
      ∀ k ∈ r.cuts input.screen, IsCharBoundary input.screen (drifted input.screen k)) := by
    intro r hr
    rw [region_of_spells hr]
    cases r with
    | oscTitle => simp [Region.read, Region.cuts]
    | oscProgress => simp [Region.read, Region.cuts]
    | screen s => exact read_isSome
  constructor
  · intro h r hr
    exact (hread hr).mp h
  · intro h
    by_cases hvalid : validateRegionName spec = .ok ()
    · obtain ⟨r, hr⟩ := (validateRegionName_iff spec).mp hvalid
      exact (hread hr).mpr (h r hr)
    · rw [region_of_invalid hvalid]
      rfl

/-- A region can be read just when none of its cuts falls inside a character. -/
theorem region_readable_iff (input : DetectionInput) (spec : Text) :
    (region input spec).isSome = true ↔ ∀ r : Region, r.Spells (trim spec) → ∀ k ∈ r.cuts input.screen,
      IsCharBoundary input.screen (drifted input.screen k) := by
  rw [region_isSome_iff]
  exact Iff.rfl

/-- Two empty lines that end in the pair, a two-byte character, and the last line asked for. -/
def driftingScreen : DetectionInput := ⟨['\r', '\n', '\r', '\n', 'é', '\n', 'x'], [], []⟩

theorem region_panics_on_drift :
    ¬ ∀ (input : DetectionInput) (spec : Text), (region input spec).isSome = true := by
  intro h
  exact absurd (h driftingScreen "bottom_lines(1)".toList) (by decide +kernel)

end Mux.Agents
