import Mux.TableSound

/-!
# The lease of a closed terminal

Every close, also a retry, spawns a timer task, and none of them is cancelled by a reopen.
What keeps them apart is that a timer compares the generation and the deadline it was armed
with under the table lock. A session that is in the table with a deadline has a timer for
it, and no timer wakes up before its deadline.
-/

namespace Mux.Manager

open Lib

/-- What a step of a daemon may do to the lease of one of its sessions. -/
structure LeaseStep {T : Type} (s : State T) (a : Label) (r : Ref) (c c' : Cell T) : Prop where
  cleared : ∀ d, c.session.closeDeadline = some d → c'.session.closeDeadline = some d ∨
    c'.session.closeDeadline = none ∧ (∃ name, a = .reopen name ∧ s.ptys.get name = some r) ∧ s.unixMillis < d
  fired : ∀ i t, a = .timerFire i → s.timers[i]? = some t → c' = c ∨
    c.session.generation = t.generation ∧ c.session.closeDeadline = some t.deadline ∧ t.deadline ≤ s.clock

/-- What holds of a session in the table while its deadline is set. -/
structure Leased {T : Type} [Ghostty T] (s : State T) (r : Ref) (c : Cell T) (d : Nat) : Prop where
  retry : ∀ retention, (s.closeFor c.session.name retention).1 = .ok d
  closed : ∀ command cols rows spawned generation,
    s.openTerm c.session.name command cols rows spawned generation = (.error isClosed, s)
  existing : ∃ e, s.checkExisting c.session.name r = .error e
  armed : c.arming = false → ∃ t ∈ s.timers, t.name = c.session.name ∧ t.generation = c.session.generation ∧ t.deadline = d

structure LeaseInv {T : Type} (s : State T) : Prop where
  table : TableInv s
  wake : ∀ t ∈ s.timers, ∀ u, t.wakeAt = some u → t.deadline ≤ u
  armed : ∀ (r : Nat) c d, s.cells[r]? = some c → c.removal = none → c.arming = false → c.session.closeDeadline = some d →
    ∃ t ∈ s.timers, t.name = c.session.name ∧ t.generation = c.session.generation ∧ t.deadline = d

section
variable {T : Type} {s s' : State T} {a : Label} {r : Nat} {c c' : Cell T} {d : Nat}

theorem scheduleClose_arms (hc : s.cells[r]? = some c) :
    ⟨r, c.session.name, c.session.generation, d, none⟩ ∈ (s.scheduleClose r d).timers := by
  simp only [State.scheduleClose, session_cell hc]
  exact List.mem_append_right _ (List.mem_singleton.mpr rfl)

theorem scheduleClose_keeps {t : Timer} (ht : t ∈ s.timers) : t ∈ (s.scheduleClose r d).timers := by
  unfold State.scheduleClose
  split
  · exact List.mem_append_left _ ht
  · exact ht

theorem extend_clock : ∀ (staged : List (Sigma fun _ : String => PtySession T)) (s : State T),
    (s.extend staged).clock = s.clock
  | [], _ => rfl
  | e :: staged, s => by
    rw [extend_cons, extend_clock staged]
    rfl

variable [Ghostty T]

theorem clock_of_step (hs : step s a = some s') (hn : ∀ ms, a ≠ .tick ms) : s'.clock = s.clock := by
  cases a with
  | tick ms => exact absurd rfl (hn ms)
  | openTerm name command cols rows spawned generation =>
    cases hs
    rcases openTerm_cases s name command cols rows spawned generation with heq | ⟨_, _, _, _, _, _, heq⟩
    · rw [heq]
    · rw [heq]; rfl
  | adoptMany incoming =>
    cases hs
    rcases adoptMany_cases s incoming with ⟨e, heq⟩ | ⟨staged, _, _, _, heq⟩
    · rw [heq]
    · rw [heq, extend_clock]
  | _ =>
    simp only [step] at hs
    grind [State.get, State.kill, State.remove, State.modify, State.closeFor, State.setDeadline, State.scheduleClose,
      State.reopen, State.startLoop, State.armClose, State.killSession, State.timerSleep, State.timerFire, State.read,
      State.eof, State.reapMark, State.reapRemove]

theorem timers_of_step (hs : step s a = some s') {t : Timer} (ht : t ∈ s.timers) :
    (∃ t' ∈ s'.timers, t'.name = t.name ∧ t'.generation = t.generation ∧ t'.deadline = t.deadline) ∨
      ∃ i, a = .timerFire i ∧ s.timers[i]? = some t := by
  have hkeep : t ∈ s'.timers → (∃ t' ∈ s'.timers, t'.name = t.name ∧ t'.generation = t.generation ∧ t'.deadline = t.deadline) ∨
      ∃ i, a = .timerFire i ∧ s.timers[i]? = some t := fun h => Or.inl ⟨t, h, rfl, rfl, rfl⟩
  cases a with
  | openTerm name command cols rows spawned generation =>
    cases hs
    refine hkeep ?_
    rcases openTerm_cases s name command cols rows spawned generation with heq | ⟨_, _, _, _, _, _, heq⟩
    · rw [heq]; exact ht
    · rw [heq]; exact ht
  | adoptMany incoming =>
    cases hs
    refine hkeep ?_
    rcases adoptMany_cases s incoming with ⟨e, heq⟩ | ⟨staged, _, _, _, heq⟩
    · rw [heq]; exact ht
    · rw [heq, extend_timers]; exact ht
  | closeFor name retention =>
    cases hs
    refine hkeep ?_
    unfold State.closeFor
    split
    · split
      · exact scheduleClose_keeps ht
      · exact ht
    · exact ht
  | armClose q =>
    obtain ⟨c, _, hs⟩ := Option.bind_eq_some_iff.mp hs
    split at hs
    · cases hs
      refine hkeep ?_
      split
      · exact scheduleClose_keeps ht
      · exact ht
    · cases hs
  | timerSleep i =>
    obtain ⟨t₀, ht₀, hs⟩ := Option.bind_eq_some_iff.mp hs
    split at hs
    · cases hs
      obtain ⟨j, hj⟩ := List.getElem?_of_mem ht
      by_cases h : i = j
      · subst h
        rw [ht₀] at hj
        cases hj
        exact Or.inl ⟨_, List.mem_set (List.getElem?_eq_some_iff.mp ht₀).1 _, rfl, rfl, rfl⟩
      · refine hkeep (List.mem_of_getElem? (i := j) ?_)
        rw [List.getElem?_set_ne h]
        exact hj
    · cases hs
  | timerFire i =>
    obtain ⟨t₀, ht₀, hs⟩ := Option.bind_eq_some_iff.mp hs
    split at hs
    · cases hs
      obtain ⟨j, hj⟩ := List.getElem?_of_mem ht
      by_cases h : i = j
      · subst h
        exact Or.inr ⟨i, rfl, hj⟩
      · refine hkeep ?_
        have hmem : t ∈ s.timers.eraseIdx i := List.mem_eraseIdx_iff_getElem?.mpr ⟨j, Ne.symm h, hj⟩
        split
        · exact hmem
        · exact hmem
    · cases hs
  | get name =>
    obtain ⟨q, _, rfl⟩ := Option.map_eq_some_iff.mp hs
    exact hkeep ht
  | checkExisting i =>
    simp only [step, Option.ite_none_right_eq_some, Option.some.injEq] at hs
    obtain ⟨_, rfl⟩ := hs
    exact hkeep ht
  | kill name =>
    cases hs
    refine hkeep ?_
    unfold State.kill
    split
    · exact ht
    · exact ht
  | reopen name =>
    cases hs
    refine hkeep ?_
    unfold State.reopen
    split
    · split
      · exact ht
      · exact ht
    · exact ht
  | tick ms => cases hs; exact hkeep ht
  | startLoop q | killSession q | read q chunk | eof q | reapMark q | reapRemove q =>
    obtain ⟨d, _, hs⟩ := Option.bind_eq_some_iff.mp hs
    split at hs
    · cases hs; exact hkeep ht
    · cases hs

/-- A session with a deadline and its timer armed had both before, or the step has armed it. -/
theorem armed_of_step (hs : step s a = some s') (hc' : s'.cells[r]? = some c') (hn : c'.removal = none)
    (ha : c'.arming = false) (hd : c'.session.closeDeadline = some d) :
    (∃ c, s.cells[r]? = some c ∧ c.removal = none ∧ c.arming = false ∧ c.session.closeDeadline = some d ∧
      c.session.name = c'.session.name ∧ c.session.generation = c'.session.generation) ∨
      ∃ t ∈ s'.timers, t.name = c'.session.name ∧ t.generation = c'.session.generation ∧ t.deadline = d := by
  rcases cells_of_step hs with ⟨hcells, _⟩ | ⟨q, f, he, hcells⟩ | ⟨new, hcells, _, _, hown⟩
  · exact Or.inl ⟨c', hcells ▸ hc', hn, ha, hd, rfl, rfl⟩
  · have hcell := hcells ▸ hc'
    obtain ⟨c, hc, rfl⟩ := modify_cell hcell
    by_cases hq : q = r
    · subst hq
      rw [if_pos rfl] at hn ha hd hcell ⊢
      cases he with
      | kill hr => exact absurd hn (some_orElse _ _)
      | expire ht hdue => exact absurd hn (some_orElse _ _)
      | reapRemove hc₀ hm => exact absurd hn (some_orElse _ _)
      | reopen hr hlate => cases hd
      | close hr hc₀ =>
        rename_i name retention c₀
        rw [hc] at hc₀
        cases hc₀
        cases hs
        cases hd
        simp only [State.closeFor, hr, session_cell hc]
        exact Or.inr ⟨_, scheduleClose_arms hcell, rfl, rfl, rfl⟩
      | armClose =>
        simp only [step, State.armClose, hc, Option.bind_some] at hs
        split at hs
        · cases hs
          rw [show c.session.closeDeadline = some d from hd]
          exact Or.inr ⟨_, scheduleClose_arms hcell, rfl, rfl, rfl⟩
        · cases hs
      | _ => exact Or.inl ⟨c, hc, hn, ha, hd, rfl, rfl⟩
    · rw [if_neg hq] at hn ha hd ⊢
      exact Or.inl ⟨c, hc, hn, ha, hd, rfl, rfl⟩
  · rw [hcells, List.getElem?_append] at hc'
    split at hc'
    · exact Or.inl ⟨c', hc', hn, ha, hd, rfl, rfl⟩
    · obtain ⟨p, hp, rfl⟩ := List.mem_map.mp (List.mem_of_getElem? hc')
      rw [show (State.freshCell p).session.closeDeadline = none from hown p hp ha] at hd
      cases hd

theorem arming_of_step (hs : step s a = some s') (hc : s.cells[r]? = some c) (ha : c.arming = false)
    (hc' : s'.cells[r]? = some c') : c'.arming = false := by
  rcases cells_of_step hs with ⟨hcells, _⟩ | ⟨q, f, he, hcells⟩ | ⟨new, hcells, _, _, _⟩
  · rw [hcells, hc] at hc'
    exact Option.some.inj hc' ▸ ha
  · rw [hcells] at hc'
    obtain ⟨c₀, hc₀, rfl⟩ := modify_cell hc'
    rw [hc] at hc₀
    cases hc₀
    split
    · cases he with
      | armClose => rfl
      | _ => exact ha
    · exact ha
  · rw [hcells, List.getElem?_append_left (List.getElem?_eq_some_iff.mp hc).1, hc] at hc'
    exact Option.some.inj hc' ▸ ha

/-! ## The invariant -/

namespace LeaseInv

omit [Ghostty T] in
theorem wake_le (s : State T) (d : Nat) : d ≤ s.clock + (d - s.unixMillis) := by
  have hle : s.unixMillis ≤ s.clock := Nat.min_le_left _ _
  omega

theorem step (h : LeaseInv s) (hs : step s a = some s') : LeaseInv s' where
  table := h.table.step hs
  wake := by
    intro t' ht' u hu
    rcases timer_of_step hs ht' with ht | ⟨t, _, _, rfl⟩ | ⟨_, _, _, _, ht⟩
    · exact h.wake t' ht u hu
    · cases hu
      exact wake_le s t.deadline
    · rw [ht] at hu
      cases hu
  armed := by
    intro r c' d hc' hn ha hd
    rcases armed_of_step hs hc' hn ha hd with ⟨c, hc, hn₀, ha₀, hd₀, hname, hgen⟩ | harmed
    · obtain ⟨t, ht, htn, htg, htd⟩ := h.armed r c d hc hn₀ ha₀ hd₀
      rcases timers_of_step hs ht with ⟨t', ht', hn', hg', hd'⟩ | ⟨i, rfl, hi⟩
      · exact ⟨t', ht', hn'.trans (htn.trans hname), hg'.trans (htg.trans hgen), hd'.trans htd⟩
      · -- the timer that has just fired was due, so the session is gone
        have hdue : s.due t = some r := by
          simp only [State.due, htn, h.table.live r c hc hn₀, session_cell hc, Option.bind_some, htg, hd₀, htd, and_self, if_true]
        have hgone : c'.removal ≠ none := by
          obtain ⟨t₀, ht₀, hs⟩ := Option.bind_eq_some_iff.mp hs
          rw [hi] at ht₀
          cases ht₀
          split at hs
          · cases hs
            have hdue₀ : State.due { s with timers := s.timers.eraseIdx i } t = some r := hdue
            simp only [hdue₀, State.remove] at hc'
            obtain ⟨c₀, _, rfl⟩ := modify_cell hc'
            rw [if_pos rfl]
            exact some_orElse _ _
          · cases hs
        exact absurd hn hgone
    · exact harmed

omit [Ghostty T] in
theorem new (clock : Nat) : LeaseInv (State.new clock : State T) := by
  refine ⟨TableInv.new clock, fun t ht => ?_, fun r c d hc => ?_⟩
  · cases ht
  · rw [State.new, List.getElem?_nil] at hc
    cases hc

theorem leased (h : LeaseInv s) (hc : s.cells[r]? = some c) (hn : c.removal = none)
    (hd : c.session.closeDeadline = some d) : Leased s r c d where
  retry := by
    intro retention
    simp only [State.closeFor, h.table.live r c hc hn, session_cell hc, State.expires, hd, Option.getD_some]
  closed := by
    intro command cols rows spawned generation
    simp [State.openTerm, h.table.live r c hc hn, session_cell hc, hd]
  existing := by
    simp only [State.checkExisting, session_cell hc, hd, Option.isSome_some, if_true]
    split
    · exact ⟨_, rfl⟩
    · exact ⟨_, rfl⟩
  armed := fun ha => h.armed r c d hc hn ha hd

omit [Ghostty T] in
theorem deadline_le_clock (h : LeaseInv s) {i : Nat} {t : Timer} (hs : s.timerFire i = some s')
    (ht : s.timers[i]? = some t) : t.deadline ≤ s.clock := by
  obtain ⟨t₀, ht₀, hs⟩ := Option.bind_eq_some_iff.mp hs
  rw [ht] at ht₀
  cases ht₀
  split at hs
  · rename_i hwake
    obtain ⟨u, hu, hle⟩ := (Option.any_eq_true ..).mp hwake
    exact Nat.le_trans (h.wake t (List.mem_of_getElem? ht) u hu) (of_decide_eq_true hle)
  · cases hs

theorem leaseStep (h : LeaseInv s) (hs : Manager.step s a = some s') (hc : s.cells[r]? = some c)
    (hc' : s'.cells[r]? = some c') : LeaseStep s a r c c' where
  cleared := by
    intro d hd
    obtain ⟨c₁, hc₁, he⟩ := evolves_of_step hs hc
    rw [hc'] at hc₁
    cases hc₁
    rcases he.deadline with heq | ⟨name, retention, _, _, heq⟩ | ⟨name, ha, hget, heq, hlate⟩
    · exact Or.inl (heq.trans hd)
    · refine Or.inl ?_
      rw [heq, State.expires, hd]
      rfl
    · rw [hd, Option.any_some, decide_eq_false_iff_not, Nat.not_le] at hlate
      exact Or.inr ⟨heq, ⟨name, ha, hget⟩, hlate⟩
  fired := by
    rintro i t rfl ht
    have hclock := h.deadline_le_clock hs ht
    obtain ⟨t₀, ht₀, hs⟩ := Option.bind_eq_some_iff.mp hs
    rw [ht] at ht₀
    cases ht₀
    split at hs
    · have hcells : s'.cells[r]? = s.cells[r]? ∨ s.due t = some r := by
        cases hs
        split
        · rename_i q hq
          by_cases he : r = q
          · subst he
            exact Or.inr hq
          · exact Or.inl (modify_other he)
        · exact Or.inl rfl
      rcases hcells with heq | hdue
      · rw [hc', hc] at heq
        exact Or.inl (Option.some.inj heq)
      · obtain ⟨_, c₁, hc₁, hg, hd⟩ := due_some hdue
        rw [hc] at hc₁
        cases hc₁
        exact Or.inr ⟨hg, hd, hclock⟩
    · cases hs

end LeaseInv

theorem lease_inv {clock : Nat} {tr : List Label} (h : exec step (State.new clock) tr = some s) : LeaseInv s :=
  exec_inv (fun _ _ _ hs hi => LeaseInv.step hi hs) h (LeaseInv.new clock)

end

end Mux.Manager
