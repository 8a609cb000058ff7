import Mux.Detector
import Mux.Lib.Count

/-!
# The detector misses no output

The flag is up just while somebody is about to spawn an evaluation or one of them waits, so
there is at most one of these, and it is the last. When it clears the flag all that has
been fed is there for it to read; what is fed later sets the flag again.
-/

namespace Mux.Detector

open Lib

/-! ## What a step does -/

/-- The steps, each with what it needs and what it does. -/
inductive Move (s : State) : State → Prop where
  | feed (chunk : Bytes) (h : s.readLoop = .receiving) :
    Move s { s with terminal := s.terminal ++ [chunk], readLoop := .fed }
  | refused (h : s.readLoop = .fed) (hp : s.agentPending = true) : Move s { s with readLoop := .receiving }
  | raised (h : s.readLoop = .fed) (hp : s.agentPending = false) :
    Move s { s with agentPending := true, readLoop := .spawning }
  | scheduled (h : s.readLoop = .spawning) : Move s { s.spawn with readLoop := .receiving }
  | unchanged : Move s s
  | requesting (hp : s.agentPending = false) : Move s { s with agentPending := true, callers := s.callers + 1 }
  | requested (h : s.callers ≠ 0) : Move s { s.spawn with callers := s.callers - 1 }
  | settle (i : Nat) (h : s.evaluations[i]? = some .settling) :
    Move s { s.setEvaluation i .settled with agentPending := false }
  | skip (i : Nat) (h : s.evaluations[i]? = some .settled) (hx : s.exited = true) :
    Move s (s.setEvaluation i (.finished none))
  | start (i : Nat) (h : s.evaluations[i]? = some .settled) (hx : s.exited = false) :
    Move s { s.setEvaluation i (.reading ⟨s.terminal.length, none⟩) with begun := s.begun ++ [i] }
  | look (i n : Nat) (h : s.evaluations[i]? = some (.reading ⟨n, none⟩)) :
    Move s (s.setEvaluation i (.reading ⟨n, some s.terminal⟩))
  | finish (i : Nat) (r : Reading) (h : s.evaluations[i]? = some (.reading r)) :
    Move s (s.setEvaluation i (.finished (some r)))
  | exit : Move s { s with exited := true }

theorem move_of_step {s s' : State} {a : Label} (h : step s a = some s') : Move s s' := by
  cases a with
  | feed chunk =>
    obtain ⟨hr, heq⟩ := Option.ite_none_right_eq_some.mp h
    cases heq
    exact .feed chunk hr
  | schedule =>
    obtain ⟨hr, heq⟩ := Option.ite_none_right_eq_some.mp h
    cases heq
    cases hp : s.agentPending with
    | true =>
      have hsame : { s with agentPending := true, readLoop := .receiving } = { s with readLoop := .receiving } := by
        rw [← hp]
      rw [if_pos rfl, hsame]
      exact .refused hr hp
    | false => exact .raised hr hp
  | scheduled =>
    obtain ⟨hr, heq⟩ := Option.ite_none_right_eq_some.mp h
    cases heq
    exact .scheduled hr
  | request =>
    cases h
    cases hp : s.agentPending with
    | true =>
      have hsame : { s with agentPending := true } = s := by
        rw [← hp]
      rw [if_pos rfl, hsame]
      exact .unchanged
    | false => exact .requesting hp
  | requested =>
    obtain ⟨hc, heq⟩ := Option.ite_none_left_eq_some.mp h
    cases heq
    exact .requested hc
  | settle i =>
    obtain ⟨he, heq⟩ := Option.ite_none_right_eq_some.mp h
    cases heq
    exact .settle i he
  | start i =>
    obtain ⟨he, heq⟩ := Option.ite_none_right_eq_some.mp h
    cases hx : s.exited with
    | true =>
      rw [hx, if_pos rfl] at heq
      cases heq
      exact .skip i he hx
    | false =>
      rw [hx, if_neg Bool.false_ne_true] at heq
      cases heq
      exact .start i he hx
  | look i =>
    simp only [step, State.look] at h
    split at h
    · rename_i n he
      cases h
      exact .look i n he
    · cases h
  | finish i =>
    simp only [step, State.finish] at h
    split at h
    · rename_i r he
      cases h
      exact .finish i r he
    · cases h
  | exit =>
    cases h
    exact .exit

/-! ## The flag -/

def State.spawningCount (s : State) : Nat := s.callers + if s.readLoop = .spawning then 1 else 0

def State.waitingCount (s : State) : Nat := s.evaluations.countP Evaluation.waiting

/-- The flag is up just while one evaluation is about to be spawned or waits, and the one that waits is the last. -/
structure FlagInv (s : State) : Prop where
  raised : s.spawningCount + s.waitingCount = if s.agentPending then 1 else 0
  last : ∀ i, s.evaluations[i]? = some .settling → i + 1 = s.evaluations.length

theorem waitingCount_spawn (s : State) : s.spawn.waitingCount = s.waitingCount + 1 := by
  unfold State.waitingCount State.spawn
  rw [List.countP_append]
  rfl

theorem waitingCount_set {s : State} {i : Nat} {e : Evaluation} (h : s.evaluations[i]? = some e) (e' : Evaluation) :
    (s.setEvaluation i e').waitingCount +
    (if e.waiting then 1 else 0) = s.waitingCount + if e'.waiting then 1 else 0 :=
  countP_set_some h e'

theorem not_settling_of_zero {s : State} (h : s.waitingCount = 0) (i : Nat) : s.evaluations[i]? ≠ some .settling := by
  intro he
  have hnone := List.countP_eq_zero.mp h _ (List.mem_of_getElem? he)
  exact hnone rfl

theorem FlagInv.down {s : State} (h : FlagInv s) (hp : s.agentPending = false) :
    s.spawningCount = 0 ∧ s.waitingCount = 0 := by
  have hraised := h.raised
  rw [hp, if_neg Bool.false_ne_true] at hraised
  omega

theorem FlagInv.total_le {s : State} (h : FlagInv s) : s.spawningCount + s.waitingCount ≤ 1 := by
  rw [h.raised]
  by_cases hp : s.agentPending = true
  · exact Nat.le_of_eq (if_pos hp)
  · rw [if_neg hp]
    exact Nat.zero_le 1

/-- The flag is up while somebody is about to spawn. -/
theorem FlagInv.pending_of_spawning {s : State} (h : FlagInv s) (hs : s.spawningCount ≠ 0) : s.agentPending = true := by
  cases hp : s.agentPending with
  | false => exact absurd (h.down hp).1 hs
  | true => rfl

/-- A new evaluation is the only one that waits. -/
theorem FlagInv.last_spawn {s : State} (h : FlagInv s) (hs : s.spawningCount ≠ 0) :
    s.waitingCount = 0 ∧ s.spawningCount = 1 ∧
      ∀ i, s.spawn.evaluations[i]? = some .settling → i + 1 = s.spawn.evaluations.length := by
  have htotal := h.total_le
  have hzero : s.waitingCount = 0 := by omega
  refine ⟨hzero, by omega, ?_⟩
  intro i hi
  rcases getElem?_snoc_some_iff.mp hi with hi | ⟨hi, -⟩
  · exact absurd hi (not_settling_of_zero hzero i)
  · rw [hi]
    simp [State.spawn]

/-- An evaluation that does not begin to wait leaves the last one that does. -/
theorem FlagInv.last_set {s : State} (h : FlagInv s) {i : Nat} {e : Evaluation} (he : s.evaluations[i]? = some e)
    {e' : Evaluation} (hne : e' ≠ .settling) (j : Nat)
    (hj : (s.setEvaluation i e').evaluations[j]? = some .settling) :
    j + 1 = (s.setEvaluation i e').evaluations.length := by
  have hlen : (s.setEvaluation i e').evaluations.length = s.evaluations.length := List.length_set
  rw [hlen]
  rcases (getElem?_set_some_iff (lt_of_getElem?_some he)).mp hj with ⟨-, heq⟩ | ⟨-, hj⟩
  · exact absurd heq hne
  · exact h.last j hj

/-- An evaluation goes on, and did not wait before. -/
theorem FlagInv.set {s : State} (h : FlagInv s) {i : Nat} {e : Evaluation} (he : s.evaluations[i]? = some e)
    {e' : Evaluation} (hold : e.waiting = false) (hnew : e'.waiting = false) : FlagInv (s.setEvaluation i e') := by
  have hcount := waitingCount_set he e'
  rw [hold, hnew] at hcount
  simp only [Bool.false_eq_true, if_false, Nat.add_zero] at hcount
  refine ⟨?_, h.last_set he (by rintro rfl; cases hnew)⟩
  rw [hcount]
  exact h.raised

theorem flagInv_init : FlagInv init := ⟨rfl, by intro i h; simp [init] at h⟩

theorem spawningCount_of_not {s : State} (h : s.readLoop ≠ .spawning) : s.spawningCount = s.callers := by
  simp [State.spawningCount, h]

theorem flagInv_move {s s' : State} (hm : Move s s') (h : FlagInv s) : FlagInv s' := by
  cases hm with
  | feed chunk hr =>
    have hcallers := spawningCount_of_not (s := s) (by rw [hr]; simp)
    have hraised := h.raised
    rw [hcallers] at hraised
    exact ⟨hraised, h.last⟩
  | refused hr hp =>
    have hcallers := spawningCount_of_not (s := s) (by rw [hr]; simp)
    have hraised := h.raised
    rw [hcallers] at hraised
    exact ⟨hraised, h.last⟩
  | raised hr hp =>
    have hcallers := spawningCount_of_not (s := s) (by rw [hr]; simp)
    refine ⟨?_, h.last⟩
    have hdown := h.down hp
    change s.callers + 1 + s.waitingCount = 1
    omega
  | scheduled hr =>
    have hcallers : s.spawningCount = s.callers + 1 := by simp [State.spawningCount, hr]
    have hp := h.pending_of_spawning (by omega)
    obtain ⟨hzero, hone, hlast⟩ := h.last_spawn (by omega)
    have hcount := waitingCount_spawn s
    refine ⟨?_, hlast⟩
    change s.callers + 0 + s.spawn.waitingCount = if s.agentPending then 1 else 0
    rw [hp, if_pos rfl]
    omega
  | unchanged => exact h
  | requesting hp =>
    refine ⟨?_, h.last⟩
    have hcallers :
        State.spawningCount { s with agentPending := true, callers := s.callers + 1 } = s.spawningCount + 1 :=
      Nat.add_right_comm _ _ _
    have hdown := h.down hp
    rw [hcallers]
    change s.spawningCount + 1 + s.waitingCount = 1
    omega
  | requested hc =>
    have hspawning : s.spawningCount ≠ 0 := by
      unfold State.spawningCount
      omega
    have hp := h.pending_of_spawning hspawning
    obtain ⟨hzero, hone, hlast⟩ := h.last_spawn hspawning
    have hcount := waitingCount_spawn s
    have hcallers : State.spawningCount { s.spawn with callers := s.callers - 1 } + 1 = s.spawningCount := by
      unfold State.spawningCount State.spawn
      simp only
      omega
    refine ⟨?_, hlast⟩
    change State.spawningCount { s.spawn with callers := s.callers - 1 } + s.spawn.waitingCount =
      if s.agentPending then 1 else 0
    rw [hp, if_pos rfl]
    omega
  | settle i he =>
    have hcount := waitingCount_set he .settled
    simp only [Evaluation.waiting, if_true, Bool.false_eq_true, if_false] at hcount
    refine ⟨?_, h.last_set he (by simp)⟩
    have htotal := h.total_le
    change s.spawningCount + (s.setEvaluation i .settled).waitingCount = 0
    omega
  | skip i he hx => exact h.set he rfl rfl
  | start i he hx =>
    obtain ⟨h1, h2⟩ := @FlagInv.set s h i _ he (.reading ⟨s.terminal.length, none⟩) rfl rfl
    exact ⟨h1, h2⟩
  | look i n he => exact h.set he rfl rfl
  | finish i r he => exact h.set he rfl rfl
  | exit => exact ⟨h.raised, h.last⟩

/-! ## The readings -/

def Evaluation.read : Evaluation → Option Reading
  | .reading r | .finished (some r) => some r
  | .settling | .settled | .finished none => none

/-- The reading of an evaluation, once it has begun. -/
def State.readAt (s : State) (i : Nat) : Option Reading := s.evaluations[i]?.bind Evaluation.read

/-- Readings are listed in the order in which they began, and have seen at least what had been fed by then. -/
structure ReadInv (s : State) : Prop where
  listed : ∀ i ∈ s.begun, (s.readAt i).isSome = true
  known : ∀ i r, s.readAt i = some r → i ∈ s.begun ∧ r.began ≤ s.terminal.length ∧
    ∀ w, r.screen = some w → w <+: s.terminal ∧ r.began ≤ w.length
  ordered : s.begun.Pairwise fun i j => ∀ r r', s.readAt i = some r → s.readAt j = some r' → r.began ≤ r'.began

theorem readAt_set {s : State} {i : Nat} {e : Evaluation} (h : s.evaluations[i]? = some e) (e' : Evaluation)
    (j : Nat) :
    (s.setEvaluation i e').readAt j = if j = i then e'.read else s.readAt j := by
  have hlt := lt_of_getElem?_some h
  unfold State.readAt State.setEvaluation
  by_cases hj : j = i
  · subst hj
    simp [hlt]
  · rw [if_neg hj]
    simp [List.getElem?_set_ne (Ne.symm hj)]

theorem readAt_of_some {s : State} {i : Nat} {e : Evaluation} (h : s.evaluations[i]? = some e) :
    s.readAt i = e.read := by
  rw [State.readAt, h]
  rfl

/-- An evaluation goes on, and its reading is as before. -/
theorem readAt_set_same {s : State} {i : Nat} {e e' : Evaluation} (h : s.evaluations[i]? = some e)
    (hread : e'.read = e.read)
    (j : Nat) : (s.setEvaluation i e').readAt j = s.readAt j := by
  rw [readAt_set h]
  by_cases hj : j = i
  · rw [if_pos hj, hj, readAt_of_some h, hread]
  · rw [if_neg hj]

theorem readAt_spawn (s : State) (j : Nat) : s.spawn.readAt j = s.readAt j := by
  unfold State.readAt State.spawn
  rcases Nat.lt_trichotomy j s.evaluations.length with hj | hj | hj
  · rw [List.getElem?_append_left hj]
  · subst hj
    simp [Evaluation.read]
  · simp [List.getElem?_eq_none (Nat.le_of_lt hj), List.getElem?_append_right (Nat.le_of_lt hj),
      Nat.sub_ne_zero_of_lt hj]

/-- No reading begins or goes on; the terminal may be fed. -/
theorem ReadInv.keep {s s' : State} (h : ReadInv s) (hread : ∀ j, s'.readAt j = s.readAt j)
    (hbegun : s'.begun = s.begun)
    (hfed : s.terminal <+: s'.terminal) : ReadInv s' where
  listed := by
    intro i hi
    rw [hread]
    exact h.listed i (hbegun ▸ hi)
  known := by
    intro i r hr
    rw [hread] at hr
    obtain ⟨hmem, hle, hseen⟩ := h.known i r hr
    refine ⟨hbegun ▸ hmem, Nat.le_trans hle hfed.length_le, ?_⟩
    intro w hw
    exact ⟨(hseen w hw).1.trans hfed, (hseen w hw).2⟩
  ordered := by
    rw [hbegun]
    refine h.ordered.imp ?_
    intro i j hij r r' hr hr'
    rw [hread] at hr hr'
    exact hij r r' hr hr'

theorem readInv_init : ReadInv init := by
  constructor <;> simp [init, State.readAt]

/-- A reading that begins has all that was fed before it, like those before it. -/
theorem ReadInv.start {s : State} (h : ReadInv s) {i : Nat} (he : s.evaluations[i]? = some .settled) :
    ReadInv { s.setEvaluation i (.reading ⟨s.terminal.length, none⟩) with begun := s.begun ++ [i] } := by
  have hread : ∀ j,
      State.readAt { s.setEvaluation i (.reading ⟨s.terminal.length, none⟩) with begun := s.begun ++ [i] } j =
      if j = i then some ⟨s.terminal.length, none⟩ else s.readAt j := readAt_set he _
  have hnew : ∀ j ∈ s.begun, j ≠ i := by
    rintro j hmem rfl
    have hsome := h.listed j hmem
    rw [readAt_of_some he] at hsome
    cases hsome
  constructor
  · intro j hj
    rw [hread]
    by_cases hji : j = i
    · rw [if_pos hji]
      rfl
    · rw [if_neg hji]
      refine h.listed j ?_
      rcases List.mem_append.mp hj with hj | hj
      · exact hj
      · exact absurd (List.mem_singleton.mp hj) hji
  · intro j r hr
    rw [hread] at hr
    by_cases hji : j = i
    · rw [if_pos hji] at hr
      cases hr
      refine ⟨List.mem_append_right _ (by rw [hji]; exact List.mem_singleton_self i), Nat.le_refl _, ?_⟩
      intro w hw
      cases hw
    · rw [if_neg hji] at hr
      obtain ⟨hmem, hrest⟩ := h.known j r hr
      exact ⟨List.mem_append_left _ hmem, hrest⟩
  · refine List.pairwise_append.mpr ⟨?_, List.pairwise_singleton _ _, ?_⟩
    · refine h.ordered.imp_of_mem ?_
      intro j k hj hk hjk r r' hr hr'
      rw [hread, if_neg (hnew j hj)] at hr
      rw [hread, if_neg (hnew k hk)] at hr'
      exact hjk r r' hr hr'
    · intro j hj k hk r r' hr hr'
      rw [List.mem_singleton] at hk
      rw [hread, if_neg (hnew j hj)] at hr
      rw [hread, if_pos hk] at hr'
      cases hr'
      exact (h.known j r hr).2.1

/-- A reading sees the terminal as it is. -/
theorem ReadInv.look {s : State} (h : ReadInv s) {i n : Nat} (he : s.evaluations[i]? = some (.reading ⟨n, none⟩)) :
    ReadInv (s.setEvaluation i (.reading ⟨n, some s.terminal⟩)) := by
  have hread := readAt_set he (.reading ⟨n, some s.terminal⟩)
  have hold : s.readAt i = some ⟨n, none⟩ := readAt_of_some he
  have hbegan : ∀ j r, (s.setEvaluation i (.reading ⟨n, some s.terminal⟩)).readAt j = some r →
      ∃ r', s.readAt j = some r' ∧ r'.began = r.began := by
    intro j r hr
    rw [hread] at hr
    by_cases hji : j = i
    · rw [if_pos hji] at hr
      cases hr
      exact ⟨⟨n, none⟩, by rw [hji, hold], rfl⟩
    · rw [if_neg hji] at hr
      exact ⟨r, hr, rfl⟩
  constructor
  · intro j hj
    rw [hread]
    by_cases hji : j = i
    · rw [if_pos hji]
      rfl
    · rw [if_neg hji]
      exact h.listed j hj
  · intro j r hr
    obtain ⟨r', hr', hsame⟩ := hbegan j r hr
    obtain ⟨hmem, hle, -⟩ := h.known j r' hr'
    refine ⟨hmem, hsame ▸ hle, ?_⟩
    intro w hw
    rw [hread] at hr
    by_cases hji : j = i
    · rw [if_pos hji] at hr
      cases hr
      cases hw
      exact ⟨List.prefix_refl _, hsame ▸ hle⟩
    · rw [if_neg hji] at hr
      exact (h.known j r hr).2.2 w hw
  · refine h.ordered.imp ?_
    intro j k hjk r r' hr hr'
    obtain ⟨q, hq, hqr⟩ := hbegan j r hr
    obtain ⟨q', hq', hqr'⟩ := hbegan k r' hr'
    rw [← hqr, ← hqr']
    exact hjk q q' hq hq'

theorem readInv_move {s s' : State} (hm : Move s s') (h : ReadInv s) : ReadInv s' := by
  cases hm with
  | feed chunk hr => exact h.keep (fun _ => rfl) rfl (List.prefix_append _ _)
  | refused hr hp => exact h.keep (fun _ => rfl) rfl (List.prefix_refl _)
  | raised hr hp => exact h.keep (fun _ => rfl) rfl (List.prefix_refl _)
  | scheduled hr => exact h.keep (readAt_spawn s) rfl (List.prefix_refl _)
  | unchanged => exact h
  | requesting hp => exact h.keep (fun _ => rfl) rfl (List.prefix_refl _)
  | requested hc => exact h.keep (readAt_spawn s) rfl (List.prefix_refl _)
  | settle i he => exact h.keep (readAt_set_same he rfl) rfl (List.prefix_refl _)
  | skip i he hx => exact h.keep (readAt_set_same he rfl) rfl (List.prefix_refl _)
  | start i he hx => exact h.start he
  | look i n he => exact h.look he
  | finish i r he => exact h.keep (readAt_set_same he rfl) rfl (List.prefix_refl _)
  | exit => exact h.keep (fun _ => rfl) rfl (List.prefix_refl _)

/-! ## The last evaluation -/

/-- It reads, or has read or is going to read, all of the `fed` chunks; or it found the session exited. -/
def Evaluation.Current (fed : Nat) (e : Evaluation) : Prop :=
  e = .settled ∨ e = .finished none ∨ ∃ r, e.read = some r ∧ r.began = fed

/-- With the flag down the last evaluation spawned is current, if anything has been fed. -/
structure LastInv (s : State) : Prop where
  current : s.agentPending = false → s.readLoop ≠ .fed → s.terminal = [] ∨
    ∃ i e, i + 1 = s.evaluations.length ∧ s.evaluations[i]? = some e ∧ e.Current s.terminal.length
  skipped : ∀ i : Nat, s.evaluations[i]? = some (Evaluation.finished none) → s.exited = true

theorem lastInv_init : LastInv init := by
  constructor
  · intro _ _
    exact Or.inl rfl
  · intro i h
    simp [init] at h

theorem LastInv.set {s : State} (h : LastInv s) {i : Nat} {e e' : Evaluation} (he : s.evaluations[i]? = some e)
    (hcur : e.Current s.terminal.length → e'.Current s.terminal.length)
    (hskip : e' = .finished none → s.exited = true) :
    LastInv (s.setEvaluation i e') where
  current := by
    intro hp hr
    refine (h.current hp hr).imp_right ?_
    rintro ⟨j, x, hj, hx, hxcur⟩
    have hlen : (s.setEvaluation i e').evaluations.length = s.evaluations.length := List.length_set
    by_cases hji : j = i
    · rw [hji, he] at hx
      cases hx
      exact ⟨i, e', by rw [hlen, ← hji, hj], getElem?_set_self_some he, hcur hxcur⟩
    · exact ⟨j, x, by rw [hlen, hj], getElem?_set_other hji hx, hxcur⟩
  skipped := by
    intro j hj
    rcases (getElem?_set_some_iff (lt_of_getElem?_some he)).mp hj with ⟨-, heq⟩ | ⟨-, hj⟩
    · exact hskip heq
    · exact h.skipped j hj

theorem LastInv.skipped_spawn {s : State} (h : LastInv s) (i : Nat)
    (hi : s.spawn.evaluations[i]? = some (.finished none)) :
    s.exited = true := by
  rcases getElem?_snoc_some_iff.mp hi with hi | ⟨-, heq⟩
  · exact h.skipped i hi
  · cases heq

theorem Evaluation.Current.same {fed : Nat} {e e' : Evaluation} {r : Reading} (hr : e.read = some r)
    (hr' : ∃ r', e'.read = some r' ∧ r'.began = r.began) (h : e.Current fed) : e'.Current fed := by
  obtain ⟨r', hread, hbegan⟩ := hr'
  rcases h with rfl | rfl | ⟨q, hq, hfed⟩
  · cases hr
  · cases hr
  · rw [hr] at hq
    cases hq
    exact Or.inr (Or.inr ⟨r', hread, hbegan.trans hfed⟩)

theorem lastInv_move {s s' : State} (hm : Move s s') (hf : FlagInv s) (h : LastInv s) : LastInv s' := by
  cases hm with
  | feed chunk hr => exact ⟨fun _ hne => absurd rfl hne, h.skipped⟩
  | refused hr hp => exact ⟨fun hdown => absurd (hp.symm.trans hdown) (by simp), h.skipped⟩
  | raised hr hp => exact ⟨fun hdown => absurd hdown (by simp), h.skipped⟩
  | scheduled hr =>
    have hp := hf.pending_of_spawning (by simp [State.spawningCount, hr])
    exact ⟨fun hdown => absurd (hp.symm.trans hdown) (by simp), h.skipped_spawn⟩
  | unchanged => exact h
  | requesting hp => exact ⟨fun hdown => absurd hdown (by simp), h.skipped⟩
  | requested hc =>
    have hp := hf.pending_of_spawning (by unfold State.spawningCount; omega)
    exact ⟨fun hdown => absurd (hp.symm.trans hdown) (by simp), h.skipped_spawn⟩
  | settle i he =>
    -- the one that waited is the last, and what is there now it will read
    refine ⟨fun _ _ => Or.inr ⟨i, .settled, ?_, getElem?_set_self_some he, Or.inl rfl⟩, ?_⟩
    · exact (hf.last i he).trans List.length_set.symm
    · intro j hj
      rcases (getElem?_set_some_iff (lt_of_getElem?_some he)).mp hj with ⟨-, heq⟩ | ⟨-, hj⟩
      · cases heq
      · exact h.skipped j hj
  | skip i he hx => exact h.set he (fun _ => Or.inr (Or.inl rfl)) fun _ => hx
  | start i he hx =>
    obtain ⟨h1, h2⟩ := @LastInv.set s h i _ (.reading ⟨s.terminal.length, none⟩) he
      (fun _ => Or.inr (Or.inr ⟨_, rfl, rfl⟩)) (by simp)
    exact ⟨h1, h2⟩
  | look i n he => exact h.set he (Evaluation.Current.same rfl ⟨_, rfl, rfl⟩) (by simp)
  | finish i r he => exact h.set he (Evaluation.Current.same rfl ⟨_, rfl, rfl⟩) (by simp)
  | exit => exact ⟨h.current, fun i hi => rfl⟩

/-! ## Runs -/

structure Inv (s : State) : Prop where
  flag : FlagInv s
  read : ReadInv s
  last : LastInv s

theorem inv_run {labels : List Label} {t : State} (h : exec step init labels = some t) : Inv t := by
  refine exec_inv ?_ h ⟨flagInv_init, readInv_init, lastInv_init⟩
  intro s a s' hs hi
  have hm := move_of_step hs
  exact ⟨flagInv_move hm hi.flag, readInv_move hm hi.read, lastInv_move hm hi.flag hi.last⟩

/-- An evaluation that has ended with a reading of all the output there is. -/
def State.SawAll (s : State) (i : Nat) : Prop :=
  ∃ r, s.evaluations[i]? = some (.finished (some r)) ∧ r.began = s.terminal.length ∧
    ∀ w, r.screen = some w → w = s.terminal

/-- Without an evaluation that runs every reading has ended, and one that began last has seen everything. -/
theorem ReadInv.sawAll {s : State} (h : ReadInv s) (hrest : ∀ e ∈ s.evaluations, e.running = false) {i : Nat}
    {r : Reading}
    (hr : s.readAt i = some r) (hfed : r.began = s.terminal.length) : s.SawAll i := by
  obtain ⟨e, he, hread⟩ := Option.bind_eq_some_iff.mp hr
  have hquiet := hrest e (List.mem_of_getElem? he)
  have hseen := (h.known i r hr).2.2
  refine ⟨r, ?_, hfed, ?_⟩
  · cases e with
    | settling => cases hread
    | settled => cases hread
    | reading q => cases hquiet
    | finished q =>
      cases q with
      | none => cases hread
      | some q =>
        cases hread
        exact he
  · intro w hw
    obtain ⟨hpre, hle⟩ := hseen w hw
    exact hpre.eq_of_length_le (hfed ▸ hle)

theorem pairwise_getLast {α : Type} {R : α → α → Prop} {l : List α} (h : l.Pairwise R) {a b : α}
    (hb : l.getLast? = some b)
    (ha : a ∈ l) : a = b ∨ R a b := by
  have hsplit : l.dropLast ++ [b] = l := List.dropLast_append_getLast? b hb
  rw [← hsplit] at h ha
  rcases List.mem_append.mp ha with ha | ha
  · exact Or.inr ((List.pairwise_append.mp h).2.2 a ha b (List.mem_singleton_self b))
  · exact Or.inl (List.mem_singleton.mp ha)

/-- When all is quiet, nothing was ever fed or the last evaluation has seen all of it, whether the last is the
one spawned last or the one whose reading began last. -/
theorem detector_misses_no_output {labels : List Label} {t : State} (h : exec step init labels = some t) :
    t.evaluations.countP Evaluation.waiting ≤ 1 ∧
      (t.exited = false → t.readLoop ≠ .fed → t.agentPending = false →
        (∀ e ∈ t.evaluations, e.running = false) →
          t.terminal = [] ∨
            ∃ i j, i + 1 = t.evaluations.length ∧ t.begun.getLast? = some j ∧ t.SawAll i ∧ t.SawAll j) := by
  have hinv := inv_run h
  refine ⟨?_, ?_⟩
  · have htotal := hinv.flag.total_le
    change t.waitingCount ≤ 1
    omega
  · intro hx hr hp hrest
    refine (hinv.last.current hp hr).imp_right ?_
    rintro ⟨i, e, hi, he, hcur⟩
    have hread : ∃ r, t.readAt i = some r ∧ r.began = t.terminal.length := by
      rcases hcur with rfl | rfl | ⟨r, hr, hfed⟩
      · exact absurd (hrest _ (List.mem_of_getElem? he)) (by simp [Evaluation.running])
      · exact absurd (hinv.last.skipped i he) (by simp [hx])
      · exact ⟨r, (readAt_of_some he).trans hr, hfed⟩
    obtain ⟨r, hr, hfed⟩ := hread
    have hmem := (hinv.read.known i r hr).1
    obtain ⟨j, hj⟩ := Option.isSome_iff_exists.mp (List.getLast?_isSome.mpr (List.ne_nil_of_mem hmem))
    obtain ⟨q, hq⟩ := Option.isSome_iff_exists.mp (hinv.read.listed j (List.mem_of_getLast? hj))
    have hle := (hinv.read.known j q hq).2.1
    have hge : r.began ≤ q.began := by
      rcases pairwise_getLast hinv.read.ordered hj hmem with rfl | hij
      · rw [hr] at hq
        cases hq
        exact Nat.le_refl _
      · exact hij r q hr hq
    exact ⟨i, j, hi, hj, hinv.read.sawAll hrest hr hfed, hinv.read.sawAll hrest hq (by omega)⟩

/-- The first evaluation is slow: it begins to read when the second one waits, and ends after it. -/
def slowRun : List Label :=
  [.feed [1], .schedule, .scheduled, .request, .settle 0, .feed [2], .schedule, .scheduled, .start 0, .settle 1,
    .start 1, .look 1, .finish 1, .look 0, .finish 0]

theorem detector_misses_no_output_slow : ∃ t, exec step init slowRun = some t ∧ t.terminal = [[1], [2]] ∧
    ∃ i j, i + 1 = t.evaluations.length ∧ t.begun.getLast? = some j ∧ t.SawAll i ∧ t.SawAll j := by
  have hrun : exec step init slowRun = some ⟨false, false, [[1], [2]], .receiving, 0,
      [.finished (some ⟨2, some [[1], [2]]⟩), .finished (some ⟨2, some [[1], [2]]⟩)], [0, 1]⟩ := by
    decide
  refine ⟨_, hrun, rfl, ?_⟩
  exact ((detector_misses_no_output hrun).2 rfl (by decide) rfl (by decide)).resolve_left (by decide)

end Mux.Detector
