import Mux.StreamSound

/-!
# Clients of a session that has been reaped

`reap` takes the client out of the slot before it removes the table entry, and `open` hands
an entry out without a look at `exited`. Every client is let go as long as no attach is
installed after the take.
-/

namespace Mux.Session

open Lib

/-- A clone of the client's sender is in a send of its own, which drops it. -/
def InSend {T : Type} (s : State T) (id : ClientId) : Prop :=
  .detaching id ∈ s.tells ∨ (∃ name, .sending name id ∈ s.tells) ∨
    ∃ i c d, s.clients i = some c ∧ c.resize = .sending id d

/-- Somebody can still write to the client's channel, so that its forwarder waits. -/
def HasSender {T : Type} (s : State T) (id : ClientId) : Prop :=
  s.slot = some id ∨ (∃ a, s.attaching = some a ∧ a.id = id) ∨ s.readLoop.owes id ∨
    (∃ code, s.readLoop = .exiting code id) ∨ InSend s id

/-- No client is installed once `reap` has taken the slot. -/
def Prompt {T : Type} (s : State T) : Label → Prop
  | .attachInstall => s.readLoop.taken = false
  | _ => True

instance {T : Type} (s : State T) (a : Label) : Decidable (Prompt s a) := by
  unfold Prompt
  split <;> infer_instance

section
variable {T : Type} [Ghostty T] {s s' : State T} {a : Label}

theorem empty_step (ha : Prompt s a) (hs : step s a = some s') (h : s.readLoop.taken = true → s.slot = none) :
    s'.readLoop.taken = true → s'.slot = none := by
  intro ht
  rcases taken_of_step hs ht with ht | hslot
  · cases hslot : s'.slot with
    | none => rfl
    | some id =>
      rcases slot_new_of_step hs hslot with hold | ⟨att, rfl, _, _⟩
      · rw [h ht] at hold; cases hold
      · rw [show s.readLoop.taken = false from ha] at ht; cases ht
  · exact hslot

/-- After `reap` the slot is empty, and a client that was attached is held by no sender
but one that is in a send. -/
theorem reaped_clients (p : PtySession T) (winsize : UInt16 × UInt16) (next holding : Nat) (tr : List Label)
    (hm : Meets step Prompt (State.start p winsize next holding) tr)
    (h : exec step (State.start p winsize next holding) tr = some s) (hdone : s.readLoop = .done) :
    s.slot = none ∧ ∀ id c, s.clients id = some c → ¬ InSend s id → ¬ HasSender s id := by
  have hslot : s.readLoop.taken = true → s.slot = none :=
    exec_inv_of_meets (I := fun s => s.readLoop.taken = true → s.slot = none)
      (fun _ _ _ ha hs hi => empty_step ha hs hi) hm h nofun
  have hempty := hslot (by rw [hdone]; rfl)
  refine ⟨hempty, fun id c hc hn hsend => ?_⟩
  rcases hsend with hsend | ⟨att, hatt, rfl⟩ | howes | ⟨code, hexit⟩ | hsend
  · rw [hempty] at hsend; cases hsend
  · rw [((stream_inv h).ids.attaching_new att hatt).2.1] at hc; cases hc
  · rw [hdone] at howes; exact howes
  · rw [hdone] at hexit; cases hexit
  · exact hn hsend

end

/-- The shell exits while client 1 is attached. -/
def exitRun : List Label :=
  [.openTerm, .drawId, .attachLock 1 80 24 none, .attachInstall, .eof, .reapMark 3, .reapTake, .reapSend, .reapRemove]

theorem reaped_clients_exit : ∃ s c, Meets step Prompt (State.start shell (80, 24) 1 0) exitRun ∧
    exec step (State.start shell (80, 24) 1 0) exitRun = some s ∧ s.readLoop = .done ∧ s.clients 1 = some c ∧
    c.chan.queue = [.exit 3] ∧ s.slot = none := by
  have hm : Meets step Prompt (State.start shell (80, 24) 1 0) exitRun := by decide
  exact ⟨_, _, hm, rfl, rfl, rfl, rfl, (reaped_clients shell (80, 24) 1 0 exitRun hm rfl rfl).1⟩

/-- `open` finds the entry of a shell that has exited, and attaches between the take and
the removal. -/
def lateRun : List Label :=
  [.eof, .reapMark 3, .openTerm, .drawId, .reapTake, .attachLock 1 80 24 none, .attachInstall, .reapRemove]

theorem reaped_client_stranded : ∃ s c, exec step (State.start shell (80, 24) 1 0) lateRun = some s ∧
    s.readLoop = .done ∧ s.inTable = false ∧ s.session.exited = true ∧ s.slot = some 1 ∧ s.clients 1 = some c ∧
    c.handler = .serving ∧ ¬ InSend s 1 ∧ HasSender s 1 := by
  refine ⟨_, _, rfl, rfl, rfl, rfl, rfl, rfl, rfl, ?_, Or.inl rfl⟩
  rintro (h | ⟨name, h⟩ | ⟨i, c, d, hc, hd⟩)
  · cases h
  · cases h
  · rcases setClient_client hc with ⟨_, rfl⟩ | ⟨_, hc⟩
    · cases hd
    · obtain ⟨c₁, hc₁, _⟩ := setSlot_client _ hc
      cases hc₁

end Mux.Session
