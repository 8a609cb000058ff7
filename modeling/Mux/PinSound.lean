import Mux.KnownHosts

/-!
# A pin that was stored is read back

An appended line is a line of its own only if the text ends with a newline or with nothing
but white space after the last one; and it is read only if no line before it names the host.
-/

namespace Mux.KnownHosts

open Lib

theorem not_space_of_alphanumeric {c : Char} (h : isAsciiAlphanumeric c = true) : isWhitespace c = false := by
  simp only [isAsciiAlphanumeric, Bool.or_eq_true, Bool.and_eq_true, decide_eq_true_eq, Char.le_def,
    UInt32.le_iff_toNat_le] at h
  simp only [isWhitespace, Char.toNat]
  have h0 : '0'.val.toNat = 48 := rfl
  have h9 : '9'.val.toNat = 57 := rfl
  have hA : 'A'.val.toNat = 65 := rfl
  have hZ : 'Z'.val.toNat = 90 := rfl
  have ha : 'a'.val.toNat = 97 := rfl
  have hz : 'z'.val.toNat = 122 := rfl
  simp only [Bool.or_eq_false_iff, Bool.and_eq_false_iff, decide_eq_false_iff_not, beq_eq_false_iff_ne]
  omega

theorem Alias.isWord (a : Alias) : IsWord a.1 := by
  have h := a.2
  unfold checkAlias at h
  rw [Bool.and_eq_true, List.all_eq_true] at h
  refine ⟨?_, fun c hc => ?_⟩
  · intro h0
    simp [h0] at h
  · have hok := h.2 c hc
    simp only [Bool.or_eq_true, beq_iff_eq] at hok
    rcases hok with ((hok | rfl) | rfl) | rfl
    · exact not_space_of_alphanumeric hok
    · rfl
    · rfl
    · rfl

/-! ## Reading lines -/

theorem pinIn_append (ls ms : List Text) (host : Text) :
    pinIn (ls ++ ms) host = if ls.any (names host) then pinIn ls host else pinIn ms host := by
  unfold pinIn
  rw [List.find?_append]
  by_cases h : ls.any (names host) = true
  · obtain ⟨l, hl⟩ := Option.isSome_iff_exists.mp (List.find?_isSome.mpr (List.any_eq_true.mp h))
    rw [if_pos h, hl]
    rfl
  · have hn : ls.find? (names host) = none := by
      rw [List.find?_eq_none]
      intro l hl hh
      exact h (List.any_eq_true.mpr ⟨l, hl, hh⟩)
    rw [if_neg h, hn, Option.none_or]

def second (host : Text) (fields : List Text) : Option Text := if fields.head? = some host then fields[1]? else none

theorem pinIn_singleton (l host : Text) : pinIn [l] host = second host (splitWhitespace l) := by
  unfold pinIn second names
  by_cases h : (splitWhitespace l).head? = some host <;> simp [h]

/-- Some line that a newline ends names the host. -/
def named (file : Option Text) (host : Text) : Bool := (closedLines (file.getD [])).any (names host)

/-- What the file has after its last newline. -/
def tail (file : Option Text) : Text := openLine (file.getD [])

theorem readPin_eq (file : Option Text) (host : Text) : readPin file host =
    if named file host then pinIn (closedLines (file.getD [])) host else second host (splitWhitespace (tail file)) := by
  have h : readPin file host = pinIn (lines (file.getD [])) host := by cases file <;> rfl
  rw [h, lines, pinIn_append]
  unfold named tail
  by_cases ho : openLine (file.getD []) = []
  · rw [if_pos ho, ho]
    rfl
  · rw [if_neg ho, pinIn_singleton]

section
variable {file : Option Text} {a f : Text} (ha : IsWord a) (hf : IsWord f)
include ha hf

theorem append_lines : closedLines (appendPin file a f) =
    closedLines (file.getD []) ++ [tail file ++ (a ++ ' ' :: f)] ∧ openLine (appendPin file a f) = [] := by
  have hx : ∀ c ∈ a ++ [' '], isNewline c = false := by
    intro c hc
    rcases List.mem_append.mp hc with hc | hc
    · exact newline_space (ha.no_space c hc)
    · rw [List.mem_singleton.mp hc]
      rfl
  have h := append_line (t := file.getD []) hx hf
  simpa [appendPin, tail] using h

theorem merged_fields : splitWhitespace (tail file ++ (a ++ ' ' :: f)) =
    closedWords (tail file) ++ [openWord (tail file) ++ a, f] :=
  splitWhitespace_append ha hf

theorem named_append (host : Text) : named (some (appendPin file a f)) host =
    (named file host || names host (tail file ++ (a ++ ' ' :: f))) := by
  simp [named, (append_lines ha hf).1, List.any_append]

theorem readPin_append (host : Text) : readPin (some (appendPin file a f)) host =
    if named file host then pinIn (closedLines (file.getD [])) host
    else second host (closedWords (tail file) ++ [openWord (tail file) ++ a, f]) := by
  obtain ⟨h1, h2⟩ : _ ∧ openLine (appendPin file a f) = [] := append_lines ha hf
  show pinIn (lines (appendPin file a f)) host = _
  rw [lines_of_open h2, h1, pinIn_append, pinIn_singleton, merged_fields ha hf]
  rfl

end

/-! ## When a pin holds -/

/-- Where the host has no pin yet: no ended line names it, and after the last newline there is
only white space (or just the host's name and white space, and the fingerprint is that name
too). Where it has this pin: its line is ended, or goes on after the fingerprint. -/
def Clean (file : Option Text) (host : Alias) (fingerprint : Fingerprint) : Prop :=
  (readPin file host.1 = none → named file host.1 = false ∧ (splitWhitespace (tail file) = [] ∨
    splitWhitespace (tail file) = [host.1] ∧ openWord (tail file) = [] ∧ fingerprint.1 = host.1)) ∧
  (readPin file host.1 = some fingerprint.1 → named file host.1 = true ∨ closedWords (tail file) ≠ [host.1])

/-- A pin that later appends do not reach. -/
def Kept (file : Option Text) (host fingerprint : Text) : Prop :=
  readPin file host = some fingerprint ∧ (named file host = true ∨ closedWords (tail file) ≠ [host])

theorem readPin_of_named {file : Option Text} {host : Text} (h : named file host = true) :
    readPin file host = pinIn (closedLines (file.getD [])) host := by
  rw [readPin_eq, if_pos h]

theorem readPin_of_tail {file : Option Text} {host : Text} (h : named file host = false) :
    readPin file host = second host (splitWhitespace (tail file)) := by
  rw [readPin_eq, h]
  rfl

theorem second_some {host f : Text} {fields : List Text} :
    second host fields = some f ↔ ∃ rest, fields = host :: f :: rest := by
  unfold second
  match fields with
  | [] => simp
  | [g] => simp
  | g :: g' :: rest =>
    simp only [List.head?_cons, Option.some.injEq, List.cons.injEq]
    by_cases hg : g = host <;> simp [hg]

theorem Kept.append {file : Option Text} {host f : Text} (h : Kept file host f) {a g : Text} (ha : IsWord a)
    (hg : IsWord g) : Kept (some (appendPin file a g)) host f := by
  obtain ⟨hpin, hsafe⟩ := h
  cases hn : named file host with
  | true =>
    refine ⟨?_, .inl (by rw [named_append ha hg, hn]; rfl)⟩
    rw [readPin_append ha hg, if_pos hn, ← readPin_of_named hn]
    exact hpin
  | false =>
    rw [hn] at hsafe
    have hne : closedWords (tail file) ≠ [host] := hsafe.resolve_left (by simp)
    rw [readPin_of_tail hn, second_some, splitWhitespace_eq] at hpin
    obtain ⟨rest, hrest⟩ := hpin
    -- The fingerprint is not the open word, so what is appended does not reach it.
    obtain ⟨more, hmore⟩ : ∃ more, closedWords (tail file) = host :: f :: more := by
      match hw : closedWords (tail file) with
      | [] => rw [hw] at hrest; split at hrest <;> cases hrest
      | [w] =>
        rw [hw] at hrest
        simp only [List.singleton_append, List.cons.injEq] at hrest
        exact absurd (by rw [hw, hrest.1]) hne
      | w :: w' :: more =>
        rw [hw] at hrest
        simp only [List.cons_append, List.cons.injEq] at hrest
        exact ⟨more, by rw [hrest.1, hrest.2.1]⟩
    refine ⟨?_, .inl ?_⟩
    · rw [readPin_append ha hg, hn, hmore]
      exact second_some.mpr ⟨_, rfl⟩
    · rw [named_append ha hg, Bool.or_eq_true]
      right
      rw [names, merged_fields ha hg, hmore]
      simp

theorem Kept.check {file : Option Text} {host f : Text} (h : Kept file host f) {a g : Text} (ha : IsWord a)
    (hg : IsWord g) : Kept (checkPin file a g).2 host f := by
  unfold checkPin
  split
  · split <;> exact h
  · exact h.append ha hg

theorem Kept.checks {host f : Text} : ∀ {calls : List (Alias × Fingerprint)} {file : Option Text}, Kept file host f →
    Kept (checkPins file calls) host f
  | [], _, h => h
  | c :: calls, _, h => by
    show Kept (checkPins (checkPin _ c.1.1 c.2.1).2 calls) host f
    exact Kept.checks (h.check c.1.isWord c.2.2)

theorem checkPin_other {file : Option Text} {host f g : Text} (h : readPin file host = some f) (hne : g ≠ f) :
    ∃ e, (checkPin file host g).1 = .error e := by
  unfold checkPin
  rw [h]
  simp only
  rw [if_neg (Ne.symm hne)]
  exact ⟨_, rfl⟩

theorem checkAlias_replicate (n : Nat) : checkAlias (List.replicate (n + 1) 'a') = true := by
  rw [checkAlias, Bool.and_eq_true, List.all_eq_true]
  refine ⟨rfl, fun c hc => ?_⟩
  rw [List.eq_of_mem_replicate hc]
  rfl

/-- A name that no line has. -/
theorem exists_fresh (file : Option Text) : ∃ b : Alias, readPin file b.1 = none := by
  let heads := (lines (file.getD [])).filterMap fun l => (splitWhitespace l).head?
  let n := (heads.map List.length).max?.getD 0
  refine ⟨⟨List.replicate (n + 1) 'a', checkAlias_replicate n⟩, ?_⟩
  have h : readPin file (List.replicate (n + 1) 'a') = pinIn (lines (file.getD [])) (List.replicate (n + 1) 'a') := by
    cases file <;> rfl
  simp only [h, pinIn, Option.bind_eq_none_iff]
  intro l hl
  have hhead : names (List.replicate (n + 1) 'a') l = true := List.find?_some hl
  have hmem : List.replicate (n + 1) 'a' ∈ heads :=
    List.mem_filterMap.mpr ⟨l, List.mem_of_find?_eq_some hl, of_decide_eq_true hhead⟩
  have hle : (List.replicate (n + 1) 'a').length ≤ n := List.le_max?_getD_of_mem (List.mem_map.mpr ⟨_, hmem, rfl⟩)
  rw [List.length_replicate] at hle
  omega

/-- A pin at the very end of the text is lost with the next pin that is appended. -/
theorem lost_of_open {file : Option Text} {host : Alias} {f : Fingerprint} (h : readPin file host.1 = some f.1)
    (hn : named file host.1 = false) (hw : closedWords (tail file) = [host.1]) :
    ∃ (c : Alias × Fingerprint) (other : Fingerprint), other ≠ f ∧
      (checkPin (checkPins file [c]) host.1 other.1).1 = .ok none := by
  obtain ⟨b, hb⟩ := exists_fresh file
  rw [readPin_of_tail hn, second_some, splitWhitespace_eq, hw] at h
  obtain ⟨rest, h⟩ := h
  have hopen : openWord (tail file) = f.1 := by
    split at h
    · cases h
    · simp only [List.singleton_append, List.cons.injEq] at h
      exact h.2.1
  have hword : IsWord (f.1 ++ b.1) := by
    refine ⟨fun h0 => f.2.ne_nil (List.append_eq_nil_iff.mp h0).1, fun c hc => ?_⟩
    rcases List.mem_append.mp hc with hc | hc
    · exact f.2.no_space c hc
    · exact b.isWord.no_space c hc
  refine ⟨(b, f), ⟨f.1 ++ b.1, hword⟩, ?_, ?_⟩
  · intro heq
    have := congrArg Subtype.val heq
    exact b.isWord.ne_nil (List.append_right_eq_self.mp this)
  · have hafter : checkPins file [(b, f)] = some (appendPin file b.1 f.1) := by
      simp [checkPins, checkPin, hb]
    have hread : readPin (some (appendPin file b.1 f.1)) host.1 = some (f.1 ++ b.1) := by
      rw [readPin_append b.isWord f.2, hn, hw, hopen]
      exact second_some.mpr ⟨_, rfl⟩
    rw [hafter, checkPin, hread]
    simp

theorem clean_of_persists {file : Option Text} {host : Alias} {f : Fingerprint} (h : Persists file host f) :
    Clean file host f := by
  refine ⟨fun hpin => ?_, fun hpin => ?_⟩
  · obtain ⟨hread, -, -⟩ := h _ _ (by rw [checkPin, hpin])
    rw [readPin_append host.isWord f.2] at hread
    cases hn : named file host.1 with
    | true =>
      rw [hn, if_pos rfl, ← readPin_of_named hn, hpin] at hread
      cases hread
    | false =>
      rw [hn] at hread
      refine ⟨rfl, ?_⟩
      obtain ⟨rest, hrest⟩ := second_some.mp hread
      have hnone : ∀ g, second host.1 (splitWhitespace (tail file)) ≠ some g := by
        intro g hg
        rw [← readPin_of_tail hn, hpin] at hg
        cases hg
      rw [splitWhitespace_eq] at hnone ⊢
      match hw : closedWords (tail file) with
      | [] =>
        rw [hw] at hrest
        simp only [List.nil_append, List.cons.injEq] at hrest
        rw [if_pos (List.append_left_eq_self.mp hrest.1)]
        exact .inl rfl
      | [g] =>
        rw [hw] at hrest hnone
        simp only [List.singleton_append, List.cons.injEq] at hrest
        obtain ⟨rfl, hf, -⟩ := hrest
        by_cases ho : openWord (tail file) = []
        · rw [if_pos ho]
          rw [ho, List.nil_append] at hf
          exact .inr ⟨rfl, ho, hf.symm⟩
        · rw [if_neg ho] at hnone
          exact absurd (second_some.mpr ⟨[], rfl⟩) (hnone _)
      | g :: g' :: more =>
        rw [hw] at hrest hnone
        simp only [List.cons_append, List.cons.injEq] at hrest
        rw [hrest.1] at hnone
        exact absurd (second_some.mpr ⟨_, rfl⟩) (hnone g')
  · by_contra hnot
    rw [not_or, not_not, Bool.not_eq_true] at hnot
    obtain ⟨c, other, hne, hok⟩ := lost_of_open hpin hnot.1 hnot.2
    obtain ⟨-, hlater, -⟩ := h none file (by rw [checkPin, hpin]; simp)
    obtain ⟨e, he⟩ := hlater [c] other hne
    rw [hok] at he
    cases he

/-- The line that is appended to a clean file, and what was there before it. -/
theorem fields_of_clean {l host f : Text} (h : splitWhitespace l = [] ∨
    splitWhitespace l = [host] ∧ openWord l = [] ∧ f = host) :
    (∃ rest, closedWords l ++ [openWord l ++ host, f] = host :: f :: rest) ∧
      ∀ other, other ≠ host → second other (splitWhitespace l) = none := by
  rw [splitWhitespace_eq] at h ⊢
  rcases h with h | ⟨h, ho, rfl⟩
  · obtain ⟨hw, ho⟩ := List.append_eq_nil_iff.mp h
    have ho : openWord l = [] := by
      by_contra hne
      rw [if_neg hne] at ho
      cases ho
    rw [hw, ho]
    exact ⟨⟨[], rfl⟩, fun other _ => rfl⟩
  · rw [if_pos ho, List.append_nil] at h
    rw [h, ho]
    refine ⟨⟨[f], rfl⟩, fun other hne => ?_⟩
    simp [second, Ne.symm hne]

theorem persists_of_clean {file : Option Text} {host : Alias} {f : Fingerprint} (h : Clean file host f) :
    Persists file host f := by
  intro stored after hcheck
  obtain ⟨hfresh, hknown⟩ := h
  unfold checkPin at hcheck
  cases hpin : readPin file host.1 with
  | some pinned =>
    rw [hpin] at hcheck hknown
    simp only at hcheck
    split at hcheck
    · rename_i heq
      subst heq
      cases hcheck
      refine ⟨hpin, fun calls other hne => ?_, fun _ _ => rfl⟩
      have hkept : Kept file host.1 f.1 := ⟨hpin, hknown rfl⟩
      exact checkPin_other hkept.checks.1 fun h => hne (Subtype.ext h)
    · cases hcheck
  | none =>
    rw [hpin] at hcheck
    cases hcheck
    obtain ⟨hn, htail⟩ := hfresh hpin
    obtain ⟨⟨rest, hmerged⟩, hold⟩ := fields_of_clean htail
    have hread : readPin (some (appendPin file host.1 f.1)) host.1 = some f.1 := by
      rw [readPin_append host.isWord f.2, hn, hmerged]
      exact second_some.mpr ⟨rest, rfl⟩
    have hnamed : named (some (appendPin file host.1 f.1)) host.1 = true := by
      rw [named_append host.isWord f.2, names, merged_fields host.isWord f.2, hmerged]
      simp
    refine ⟨hread, fun calls other hne => ?_, fun other hne => ?_⟩
    · have hkept : Kept (some (appendPin file host.1 f.1)) host.1 f.1 := ⟨hread, .inl hnamed⟩
      exact checkPin_other hkept.checks.1 fun h => hne (Subtype.ext h)
    · rw [readPin_append host.isWord f.2, readPin_eq, hmerged, hold other hne]
      simp [second, Ne.symm hne]

/-- A pin holds exactly if the file is clean for it. -/
theorem pin_persists_iff (file : Option Text) (host : Alias) (fingerprint : Fingerprint) :
    Persists file host fingerprint ↔ Clean file host fingerprint :=
  ⟨clean_of_persists, persists_of_clean⟩

def spark : Alias := ⟨"spark".toList, rfl⟩

def keyB : Fingerprint := ⟨"sha256:B".toList, isWord_of_all (by decide) (by decide)⟩

/-- The last line has no newline, so the pin becomes part of it. -/
theorem pin_lost : ¬ ∀ (file : Option Text) (host : Alias) (fingerprint : Fingerprint), Persists file host fingerprint := by
  intro h
  have hread := (h (some "other sha256:A".toList) spark keyB _ _ rfl).1
  exact absurd hread (by decide)

end Mux.KnownHosts
