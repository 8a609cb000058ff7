import Mux.Control
import Mux.HandoffInv

/-!
# Who takes the control socket after the predecessor

A daemon that a client has started does no harm as long as it probes the socket when the
predecessor or the successor answers: it gives up. So if none of them probes while nobody
answers, and the successor does not give up waiting before the predecessor is gone, the
successor is the one that binds.
-/

namespace Mux.Control

open Lib Manager Handoff

section
variable {T : Type}

/-- The predecessor has exited after the ack and the successor does not answer yet. -/
def gap (s : State T) : Bool := decide (s.world.out.phase = .exited) && s.world.succUp && !s.boot.accepts

/-- No daemon that a client has started probes in the gap, and the successor's wait ends
with the predecessor gone, unless the handoff has failed. -/
def Unraced (s : State T) : Label → Prop
  | .bindOther i => s.others[i]? = some .probing → gap s = false
  | .poll => s.world.acc = .acked → s.world.predUp = false
  | _ => True

instance (s : State T) (a : Label) : Decidable (Unraced s a) := by
  unfold Unraced
  split <;> infer_instance

/-- The predecessor or, after it, the successor is there to own the socket. -/
def owned (s : State T) : Prop := s.world.predUp = true ∨ (s.world.out.phase = .exited ∧ s.world.succUp = true)

def Boot.waits : Boot → Bool
  | .adopting | .polling _ => true
  | .bind _ => false

structure ControlInv (s : State T) : Prop where
  hand : HandInv s.world
  down : s.world.out.phase = .exited → s.world.predUp = false
  ended : s.boot ≠ .adopting → s.world.acc = .acked ∨ s.world.acc = .failed
  others : owned s → ∀ b ∈ s.others, b = .probing ∨ b = .failed
  pred : s.world.predUp = true → s.path = some .pred
  waits : s.world.predUp = true → s.boot.waits = true ∨
    s.world.acc = .failed ∧ (s.boot = .bind .probing ∨ s.boot = .bind .failed)
  bound : s.world.out.phase = .exited → s.boot ≠ .bind .failed
  unlinked : s.world.out.phase = .exited → s.world.succUp = true → s.boot = .bind .binding → s.path = none
  succ : s.world.out.phase = .exited → s.world.succUp = true → s.boot = .bind .listening ∨ s.boot.accepts = true →
    s.path = some .succ

variable {s s' : State T}

namespace ControlInv

theorem answers_eq (h : ControlInv s) (ho : owned s) : s.answers = (s.world.predUp || s.boot.accepts) := by
  cases hup : s.world.predUp with
  | true =>
    rw [State.answers, h.pred hup]
    exact hup
  | false =>
    obtain ⟨hex, hsup⟩ := ho.resolve_left fun h => by rw [hup] at h; cases h
    rw [Bool.false_or]
    cases hacc : s.boot.accepts with
    | true =>
      rw [State.answers, h.succ hex hsup (Or.inr hacc)]
      simp only [hsup, hacc, Bool.and_self]
    | false =>
      unfold State.answers
      split
      · exact hup
      · rw [hacc, Bool.and_false]
      · rename_i i _
        cases hi : s.others[i]? with
        | none => rfl
        | some b =>
          rcases h.others ho b (List.mem_of_getElem? hi) with rfl | rfl
          · rfl
          · rfl
      · rfl

variable [Ghostty T]

theorem handoff {a : Handoff.Label} (h : ControlInv s) (hs : s.handoff a = some s') : ControlInv s' := by
  simp only [State.handoff, Option.ite_none_right_eq_some, Option.map_eq_some_iff] at hs
  obtain ⟨_, w, hs, rfl⟩ := hs
  obtain ⟨hacked, hfailed⟩ := ended_of_step hs
  -- at the exit the ack has been read, so the successor has been waiting
  have hexit : w.out.phase = .exited → s.world.out.phase = .exited ∨ s.world.predUp = true ∧ s.boot.waits = true := by
    intro hex
    rcases exit_of_step hs hex with hold | ⟨hup, hack⟩
    · exact Or.inl hold
    · refine Or.inr ⟨hup, (h.waits hup).resolve_right ?_⟩
      rintro ⟨hf, _⟩
      rw [h.hand.acked hack] at hf
      cases hf
  have howned : owned { s with world := w } → owned s := by
    rintro (hup | ⟨hex, hsup⟩)
    · exact Or.inl (predUp_of_step hs hup)
    · rcases hexit hex with hold | ⟨hup, _⟩
      · exact Or.inr ⟨hold, succUp_of_step hs hsup⟩
      · exact Or.inl hup
  refine ⟨h.hand.step hs, fun hex => exited_down_of_step hs h.down hex, fun hb => ?_, fun ho => h.others (howned ho),
    fun hup => h.pred (predUp_of_step hs hup), fun hup => ?_, fun hex => ?_, fun hex hsup hb => ?_, fun hex hsup hb => ?_⟩
  · exact (h.ended hb).imp hacked hfailed
  · exact (h.waits (predUp_of_step hs hup)).imp_right fun hw => ⟨hfailed hw.1, hw.2⟩
  · rcases hexit hex with hold | ⟨_, hw⟩
    · exact h.bound hold
    · intro hb
      rw [show s.boot = .bind .failed from hb] at hw
      cases hw
  · rcases hexit hex with hold | ⟨_, hw⟩
    · exact h.unlinked hold (succUp_of_step hs hsup) hb
    · rw [show s.boot = .bind .binding from hb] at hw
      cases hw
  · rcases hexit hex with hold | ⟨_, hw⟩
    · exact h.succ hold (succUp_of_step hs hsup) hb
    · rcases hboot : s.boot with _ | _ | b
      all_goals simp_all [Boot.waits, Boot.accepts]

omit [Ghostty T] in
theorem connect (h : ControlInv s) (c : Client) : ControlInv (s.connect c) := by
  unfold State.connect
  split
  · exact h
  · split
    · refine ⟨h.hand, h.down, h.ended, fun ho b hb => ?_, h.pred, h.waits, h.bound, h.unlinked, h.succ⟩
      rcases List.mem_append.mp hb with hb | hb
      · exact h.others ho b hb
      · exact Or.inl (List.mem_singleton.mp hb)
    · exact h

omit [Ghostty T] in
theorem startPoll (h : ControlInv s) (hs : s.startPoll = some s') : ControlInv s' := by
  simp only [State.startPoll, Option.ite_none_right_eq_some, Option.some.injEq] at hs
  obtain ⟨⟨_, _, hacc⟩, rfl⟩ := hs
  exact ⟨h.hand, h.down, fun _ => hacc, h.others, h.pred, fun _ => Or.inl rfl, fun _ => nofun, fun _ _ => nofun, fun _ _ => nofun⟩

omit [Ghostty T] in
theorem poll (h : ControlInv s) (ha : Unraced s .poll) (hs : s.poll = some s') : ControlInv s' := by
  unfold State.poll at hs
  split at hs
  · rename_i deadline hb
    simp only [Option.ite_none_right_eq_some, Option.some.injEq] at hs
    obtain ⟨_, rfl⟩ := hs
    have hacc := h.ended (by rw [hb]; nofun)
    refine ⟨h.hand, h.down, fun _ => hacc, h.others, h.pred, fun hup => ?_, fun _ => nofun, fun _ _ => nofun, fun _ _ => nofun⟩
    refine Or.inr ⟨hacc.resolve_left fun hacked => ?_, Or.inl rfl⟩
    have hdown := ha hacked
    rw [show s.world.predUp = true from hup] at hdown
    cases hdown
  · cases hs

omit [Ghostty T] in
theorem handInv_succUp {w : World T} (h : HandInv w) (up : Bool) : HandInv { w with succUp := up } :=
  ⟨h.pred, h.succ, h.listed, h.gathered, h.message, h.received, h.adopted, h.acked, h.exited⟩

omit [Ghostty T] in
/-- The successor's `server::bind`: it gives up while the predecessor is there, and after
the exit it finds at each step what it needs. -/
theorem bindNext_succ (h : ControlInv s) (hsup : s.world.succUp = true) {b b' : Bind} {path : Option Proc}
    (hboot : s.boot = .bind b) (hnext : s.bindNext .succ b = some (path, b')) :
    (s.world.predUp = true → path = some .pred ∧ s.world.acc = .failed ∧ b' = .failed) ∧
      (s.world.out.phase = .exited → b' ≠ .failed ∧ (b' = .binding → path = none) ∧
        (b' = .listening ∨ b'.accepts = true → path = some .succ)) := by
  have hwaits : s.world.predUp = true → s.world.acc = .failed ∧ (b = .probing ∨ b = .failed) := by
    intro hup
    rcases h.waits hup with hw | ⟨hf, hb | hb⟩
    · rw [hboot] at hw
      cases hw
    · rw [hboot] at hb
      cases hb
      exact ⟨hf, Or.inl rfl⟩
    · rw [hboot] at hb
      cases hb
      exact ⟨hf, Or.inr rfl⟩
  have hans := fun ho => h.answers_eq ho
  rw [hboot] at hans
  cases b with
  | probing =>
    cases hnext
    constructor
    · intro hup
      refine ⟨h.pred hup, (hwaits hup).1, ?_⟩
      rw [hans (Or.inl hup), hup]
      rfl
    · intro hex
      rw [hans (Or.inr ⟨hex, hsup⟩), h.down hex]
      exact ⟨nofun, nofun, fun hb => by rcases hb with hb | hb <;> cases hb⟩
  | unlinking =>
    cases hnext
    refine ⟨fun hup => ?_, fun _ => ⟨nofun, fun _ => rfl, fun hb => by rcases hb with hb | hb <;> cases hb⟩⟩
    rcases (hwaits hup).2 with hb | hb <;> cases hb
  | binding =>
    constructor
    · intro hup
      rcases (hwaits hup).2 with hb | hb <;> cases hb
    · intro hex
      simp only [State.bindNext, h.unlinked hex hsup hboot] at hnext
      cases hnext
      exact ⟨nofun, nofun, fun _ => rfl⟩
  | listening =>
    cases hnext
    constructor
    · intro hup
      rcases (hwaits hup).2 with hb | hb <;> cases hb
    · intro hex
      exact ⟨nofun, nofun, fun _ => h.succ hex hsup (Or.inl hboot)⟩
  | permitting =>
    constructor
    · intro hup
      rcases (hwaits hup).2 with hb | hb <;> cases hb
    · intro hex
      have hpath := h.succ hex hsup (Or.inr (by rw [hboot]; rfl))
      simp only [State.bindNext, hpath] at hnext
      cases hnext
      exact ⟨nofun, nofun, fun _ => rfl⟩
  | serving => cases hnext
  | failed => cases hnext

omit [Ghostty T] in
theorem bindSucc (h : ControlInv s) (hs : s.bindSucc = some s') : ControlInv s' := by
  unfold State.bindSucc at hs
  split at hs
  · rename_i b hboot
    simp only [Option.ite_none_right_eq_some, Option.map_eq_some_iff] at hs
    obtain ⟨hsup, ⟨path, b'⟩, hnext, rfl⟩ := hs
    obtain ⟨hpred, hsucc⟩ := h.bindNext_succ hsup hboot hnext
    refine ⟨handInv_succUp h.hand _, h.down, fun _ => h.ended (by rw [hboot]; nofun), fun ho => h.others ?_,
      fun hup => (hpred hup).1, fun hup => ?_, fun hex hb => ?_, fun hex _ hb => ?_, fun hex _ hb => ?_⟩
    · exact ho.imp_right fun ho => ⟨ho.1, hsup⟩
    · exact Or.inr ⟨(hpred hup).2.1, Or.inr (congrArg Boot.bind (hpred hup).2.2)⟩
    · exact (hsucc hex).1 (Boot.bind.inj hb)
    · exact (hsucc hex).2.1 (Boot.bind.inj hb)
    · exact (hsucc hex).2.2 (hb.imp_left Boot.bind.inj)
  · cases hs

omit [Ghostty T] in
theorem bindNext_other (h : ControlInv s) {i : Nat} (ha : Unraced s (.bindOther i)) (ho : owned s) {b b' : Bind}
    {path : Option Proc} (hi : s.others[i]? = some b) (hnext : s.bindNext (.other i) b = some (path, b')) :
    path = s.path ∧ b' = .failed := by
  rcases h.others ho b (List.mem_of_getElem? hi) with rfl | rfl
  · cases hnext
    have hans : s.answers = true := by
      rw [h.answers_eq ho]
      rcases ho with hup | ⟨hex, hsup⟩
      · rw [hup, Bool.true_or]
      · have hgap := ha hi
        rw [gap, hex, hsup] at hgap
        simp only [decide_true, Bool.true_and, Bool.not_eq_false'] at hgap
        rw [hgap, Bool.or_true]
    rw [hans]
    exact ⟨rfl, rfl⟩
  · cases hnext

omit [Ghostty T] in
theorem bindOther {i : Nat} (h : ControlInv s) (ha : Unraced s (.bindOther i)) (hs : s.bindOther i = some s') :
    ControlInv s' := by
  simp only [State.bindOther, Option.bind_eq_some_iff, Option.map_eq_some_iff] at hs
  obtain ⟨b, hi, ⟨path, b'⟩, hnext, rfl⟩ := hs
  have hkeep : owned s → path = s.path ∧ b' = .failed := fun ho => h.bindNext_other ha ho hi hnext
  refine ⟨h.hand, h.down, h.ended, fun ho b hb => ?_, fun hup => ?_, h.waits, h.bound, fun hex hsup hb => ?_,
    fun hex hsup hb => ?_⟩
  · rcases List.mem_or_eq_of_mem_set hb with hb | rfl
    · exact h.others ho b hb
    · exact Or.inr (hkeep ho).2
  · exact (hkeep (Or.inl hup)).1.trans (h.pred hup)
  · exact (hkeep (Or.inr ⟨hex, hsup⟩)).1.trans (h.unlinked hex hsup hb)
  · exact (hkeep (Or.inr ⟨hex, hsup⟩)).1.trans (h.succ hex hsup hb)

theorem step {a : Label} (h : ControlInv s) (ha : Unraced s a) (hs : step s a = some s') : ControlInv s' := by
  cases a with
  | handoff a => exact h.handoff hs
  | connect c => cases hs; exact h.connect c
  | startPoll => exact h.startPoll hs
  | poll => exact h.poll ha hs
  | bindSucc => exact h.bindSucc hs
  | bindOther i => exact h.bindOther ha hs

omit [Ghostty T] in
theorem start {m : Manager.State T} (h : TableInv m) : ControlInv (State.start m) where
  hand := HandInv.start h
  down := nofun
  ended := fun hb => absurd rfl hb
  others := nofun
  pred := fun _ => rfl
  waits := fun _ => Or.inl rfl
  bound := nofun
  unlinked := nofun
  succ := nofun

end ControlInv

/-! ## The successor binds -/

def Bind.rest : Bind → Nat
  | .probing => 5
  | .unlinking => 4
  | .binding => 3
  | .listening => 2
  | .permitting => 1
  | .serving | .failed => 0

/-- The predecessor has exited after the ack and the successor lives. -/
structure Alone (s : State T) : Prop where
  inv : ControlInv s
  exited : s.world.out.phase = .exited
  up : s.world.succUp = true

namespace Alone

variable [Ghostty T]

theorem bindSucc_next (h : Alone s) {b : Bind} (hboot : s.boot = .bind b) (hb : b ≠ .serving) :
    ∃ s' b', step s .bindSucc = some s' ∧ Alone s' ∧ s'.boot = .bind b' ∧ b'.rest + 1 = b.rest := by
  have hne : b ≠ .failed := fun hf => h.inv.bound h.exited (hf ▸ hboot)
  have hsome : ∃ path b', s.bindNext .succ b = some (path, b') ∧ (b' ≠ .failed → b'.rest + 1 = b.rest) := by
    cases b with
    | probing =>
      refine ⟨_, _, rfl, ?_⟩
      cases s.answers with
      | true => exact fun hf => absurd rfl hf
      | false => exact fun _ => rfl
    | unlinking => exact ⟨_, _, rfl, fun _ => rfl⟩
    | binding =>
      unfold State.bindNext
      rw [h.inv.unlinked h.exited h.up hboot]
      exact ⟨_, _, rfl, fun _ => rfl⟩
    | listening => exact ⟨_, _, rfl, fun _ => rfl⟩
    | permitting =>
      refine ⟨_, _, rfl, ?_⟩
      cases s.path.isSome with
      | true => exact fun _ => rfl
      | false => exact fun hf => absurd rfl hf
    | serving => exact absurd rfl hb
    | failed => exact absurd rfl hne
  obtain ⟨path, b', hnext, hrest⟩ := hsome
  have hlive := ((h.inv.bindNext_succ h.up hboot hnext).2 h.exited).1
  have hs : step s .bindSucc = some { s with
      path := path, boot := .bind b', world := { s.world with succUp := decide (b' ≠ .failed) } } := by
    simp only [step, State.bindSucc, hboot, h.up, if_true, hnext, Option.map_some]
  exact ⟨_, b', hs, ⟨h.inv.bindSucc hs, h.exited, decide_eq_true hlive⟩, rfl, hrest hlive⟩

/-- By induction on the steps that are left. -/
theorem bindSucc_run : ∀ (n : Nat) {s : State T} {b : Bind}, Alone s → s.boot = .bind b → b.rest = n →
    ∃ s', exec step s (List.replicate n .bindSucc) = some s' ∧ s'.boot = .bind .serving ∧ s'.path = some .succ
  | 0, s, b, h, hboot, hn => by
    cases b with
    | serving => exact ⟨s, rfl, hboot, h.inv.succ h.exited h.up (Or.inr (by rw [hboot]; rfl))⟩
    | failed => exact absurd hboot (h.inv.bound h.exited)
    | _ => cases hn
  | n + 1, s, b, h, hboot, hn => by
    have hb : b ≠ .serving := by
      rintro rfl
      cases hn
    obtain ⟨s₁, b₁, hs, h₁, hboot₁, hrest⟩ := h.bindSucc_next hboot hb
    obtain ⟨s', hrun, hdone⟩ := bindSucc_run n h₁ hboot₁ (by omega)
    exact ⟨s', exec_cons_some.mpr ⟨s₁, hs, hrun⟩, hdone⟩

theorem poll_run (h : Alone s) {deadline : Nat} (hboot : s.boot = .polling deadline) :
    ∃ s', exec step s (.poll :: List.replicate 5 .bindSucc) = some s' ∧ s'.boot = .bind .serving ∧ s'.path = some .succ := by
  have hdown := h.inv.down h.exited
  have hs : step s .poll = some { s with boot := .bind .probing } := by
    simp only [step, State.poll, hboot, h.up, hdown, true_or, and_self, if_true]
  have h₁ : Alone { s with boot := .bind .probing } :=
    ⟨h.inv.poll (fun _ => hdown) hs, h.exited, h.up⟩
  obtain ⟨s', hrun, hdone⟩ := bindSucc_run 5 h₁ rfl rfl
  exact ⟨s', exec_cons_some.mpr ⟨_, hs, hrun⟩, hdone⟩

theorem binds (h : Alone s) : ∃ own s', (∀ a ∈ own, a = .startPoll ∨ a = .poll ∨ a = .bindSucc) ∧
    exec step s own = some s' ∧ s'.boot = .bind .serving ∧ s'.path = some .succ := by
  have hmem : ∀ n, ∀ a ∈ List.replicate n Label.bindSucc, a = .startPoll ∨ a = .poll ∨ a = .bindSucc :=
    fun n a ha => Or.inr (Or.inr (List.eq_of_mem_replicate ha))
  rcases hboot : s.boot with _ | deadline | b
  · have hacc : s.world.acc = .acked := h.inv.hand.acked (h.inv.hand.exited h.exited)
    have hs : step s .startPoll = some { s with boot := .polling (s.world.pred.clock + predecessorExitTimeout) } := by
      simp only [step, State.startPoll, hboot, h.up, hacc, true_or, and_self, if_true]
    have h₁ : Alone { s with boot := .polling (s.world.pred.clock + predecessorExitTimeout) } :=
      ⟨h.inv.startPoll hs, h.exited, h.up⟩
    obtain ⟨s', hrun, hdone⟩ := h₁.poll_run rfl
    refine ⟨.startPoll :: .poll :: List.replicate 5 .bindSucc, s', fun a ha => ?_, exec_cons_some.mpr ⟨_, hs, hrun⟩, hdone⟩
    rcases List.mem_cons.mp ha with rfl | ha
    · exact Or.inl rfl
    · rcases List.mem_cons.mp ha with rfl | ha
      · exact Or.inr (Or.inl rfl)
      · exact hmem 5 a ha
  · obtain ⟨s', hrun, hdone⟩ := h.poll_run hboot
    refine ⟨.poll :: List.replicate 5 .bindSucc, s', fun a ha => ?_, hrun, hdone⟩
    rcases List.mem_cons.mp ha with rfl | ha
    · exact Or.inr (Or.inl rfl)
    · exact hmem 5 a ha
  · obtain ⟨s', hrun, hdone⟩ := bindSucc_run b.rest h hboot rfl
    exact ⟨_, s', hmem b.rest, hrun, hdone⟩

end Alone

/-- In every run in which no daemon started by a client probes in the gap and the successor
waits for the exit, no such daemon gets past its probe while the predecessor or the
successor is there, and the successor does not fail to bind. -/
theorem upgrade_not_hijacked [Ghostty T] {m : Manager.State T} (h₀ : Reached m) (tr : List Label)
    (hm : Meets step Unraced (State.start m) tr) (h : exec step (State.start m) tr = some s) :
    (owned s → ∀ b ∈ s.others, b = .probing ∨ b = .failed) ∧
      (s.world.out.phase = .exited → s.boot ≠ .bind .failed) ∧
      (s.world.out.phase = .exited → s.world.succUp = true →
        ∃ own s', (∀ a ∈ own, a = .startPoll ∨ a = .poll ∨ a = .bindSucc) ∧ exec step s own = some s' ∧
          s'.boot = .bind .serving ∧ s'.path = some .succ) := by
  have hi : ControlInv s :=
    exec_inv_of_meets (fun _ _ _ ha hs hi => hi.step ha hs) hm h (ControlInv.start h₀.table)
  exact ⟨hi.others, hi.bound, fun hex hup => Alone.binds ⟨hi, hex, hup⟩⟩

end

/-- A handoff of one terminal, up to the predecessor's exit. -/
def handoffRun : List Label :=
  List.map .handoff [.onPred (.openTerm "p1" [] 80 24 (.ok (7, 100)) 1), .onPred (.startLoop 0), .snapshot, .connect, .lock,
    .gather 80 24, .send, .accept, .receive, .adopt [⟨true, true, 3⟩], .onSucc (.startLoop 0), .onSucc (.armClose 0),
    .adoptedAll, .writeAck, .readAck]

/-- A query starts a daemon in the gap, which gets to its probe after the successor. -/
def lateProbeRun : List Label :=
  [.startPoll, .connect (.query false), .connect (.reconnect 0), .poll, .bindSucc, .bindSucc, .bindSucc, .bindSucc,
    .bindOther 0, .bindSucc]

theorem upgrade_not_hijacked_late : ∃ s : State Echo,
    exec step (State.start (Manager.State.new 0)) (handoffRun ++ lateProbeRun) = some s ∧ s.others = [.failed] ∧
    s.world.out.phase = .exited ∧ s.path = some .succ ∧ s.boot ≠ .bind .failed := by
  have hm : Meets step Unraced (State.start (Manager.State.new 0) : State Echo) (handoffRun ++ lateProbeRun) := by
    decide +kernel
  obtain ⟨_, hbound, _⟩ := upgrade_not_hijacked ⟨0, [], rfl⟩ (handoffRun ++ lateProbeRun) hm rfl
  exact ⟨_, rfl, by decide +kernel, rfl, rfl, hbound rfl⟩

/-- The daemon a query starts in the gap binds first. -/
def hijackRun : List Label :=
  [.connect (.query false), .bindOther 0, .bindOther 0, .bindOther 0, .bindOther 0, .bindOther 0, .startPoll, .poll, .bindSucc]

theorem upgrade_hijacked : ∃ s : State Echo,
    exec step (State.start (Manager.State.new 0)) (handoffRun ++ hijackRun) = some s ∧ s.world.out.phase = .exited ∧
    s.world.adopted = [(0, 0)] ∧ s.path = some (.other 0) ∧ s.others = [.serving] ∧ s.boot = .bind .failed ∧
    s.world.succUp = false :=
  ⟨_, rfl, rfl, by decide +kernel, rfl, by decide +kernel, rfl, rfl⟩

end Mux.Control
