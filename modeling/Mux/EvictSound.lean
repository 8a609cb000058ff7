import Mux.StreamSound

/-!
# Resizes of clients that left the slot

`server::resize` knows its session and not its client: it resizes the terminal and the pty
whoever is in the slot, and looks the destination of its dump up afterwards. The grid is
the slot's client's as long as a frame is handled while its client is in the slot; what is
left of a frame when its client is replaced reaches nobody else.
-/

namespace Mux.Session

open Lib

/-- The client whose Resize frame a label is a part of. -/
def Label.resizer : Label → Option ClientId
  | .resizeLock id .. | .resizeIoctl id | .resizeResolve id | .resizeSend id | .resizeDrop id => some id
  | _ => none

/-- A Resize frame is handled for the client in the slot: it takes the terminal lock while its
client is there, resizes the pty while its client is there and nobody is attaching, and looks
for the destination of its dump while its client or nobody is there. -/
def Own {T : Type} (s : State T) : Label → Prop
  | .resizeLock id .. => s.slot = some id
  | .resizeIoctl id => s.slot = some id ∧ s.attaching.isNone
  | .resizeResolve id => s.slot = some id ∨ s.slot = none
  | _ => True

instance {T : Type} (s : State T) (a : Label) : Decidable (Own s a) := by
  unfold Own
  split <;> infer_instance

/-- Nothing the slot's client can see has changed. -/
structure Unseen {T : Type} (s s' : State T) (id : ClientId) : Prop where
  terminal : s'.session.terminal.size = s.session.terminal.size
  winsize : s'.winsize = s.winsize
  chan : ∀ i, i ≠ id → (s'.clients i).map (·.chan) = (s.clients i).map (·.chan)

/-- The grid of the client in the slot: the terminal has the size it last asked for, and so
has the pty once the ioctl of that frame is done. -/
def GridOf {T : Type} (s : State T) (c : Client) : Prop :=
  s.session.terminal.size = clampSize c.requested.1 c.requested.2 ∧
    (c.resize.asked? = none → s.winsize = clampSize c.requested.1 c.requested.2)

structure GridInv {T : Type} (s : State T) : Prop where
  attaching : ∀ a, s.attaching = some a →
    s.session.terminal.size = clampSize a.cols a.rows ∧ s.winsize = clampSize a.cols a.rows
  slot : s.attaching = none → ∀ id c, s.slot = some id → s.clients id = some c → GridOf s c
  asked : ∀ id c size, s.clients id = some c → c.resize.asked? = some size → size = c.requested

/-- A dump goes to the client it was rendered for. -/
def Aimed {T : Type} (s : State T) : Prop :=
  ∀ id c target d, s.clients id = some c → c.resize = .sending target d → target = id

section
variable {T : Type} [Ghostty T] {s s' : State T} {a : Label} {id : ClientId}

/-! ## A stale frame -/

theorem aimed_step (h : Aimed s) (ha : Own s a) (hs : step s a = some s') : Aimed s' := by
  intro id c' target d hc hr
  rcases target_of_step hs hc hr with ⟨c, hc, hr⟩ | ⟨rfl, hslot⟩
  · exact h id c target d hc hr
  · rcases ha with hown | hnone
    · exact Option.some.inj (hslot.symm.trans hown)
    · rw [hslot] at hnone
      cases hnone

/-- What a frame still does when its client has left the slot. -/
theorem unseen_of_step (h : Aimed s) (hs : step s a = some s') (hr : a.resizer = some id) (ha : Own s a)
    (hslot : s.slot ≠ some id) : Unseen s s' id := by
  cases a with
  | resizeLock i cols rows =>
    cases hr
    exact absurd ha hslot
  | resizeIoctl i =>
    cases hr
    exact absurd ha.1 hslot
  | resizeResolve i =>
    cases hr
    obtain ⟨c, hc, hs⟩ := Option.bind_eq_some_iff.mp hs
    split at hs
    · cases hs
      refine ⟨rfl, rfl, fun j hj => ?_⟩
      simp only [State.setClient, if_neg hj]
    · cases hs
  | resizeSend i =>
    cases hr
    obtain ⟨c, hc, hs⟩ := Option.bind_eq_some_iff.mp hs
    split at hs
    · rename_i target d hsend
      obtain rfl := h _ c target d hc hsend
      obtain ⟨s₁, hp, rfl⟩ := Option.map_eq_some_iff.mp hs
      obtain ⟨c₁, chan, _, _, rfl⟩ := push_some hp
      refine ⟨rfl, rfl, fun j hj => ?_⟩
      simp only [State.mapClient, State.setClient, if_neg hj]
    · cases hs
  | resizeDrop i =>
    cases hr
    obtain ⟨c, hc, hs⟩ := Option.bind_eq_some_iff.mp hs
    split at hs
    · split at hs
      · cases hs
        refine ⟨rfl, rfl, fun j hj => ?_⟩
        simp only [State.setClient, if_neg hj]
      · cases hs
    · cases hs
  | _ => cases hr

/-! ## The grid -/

namespace GridInv

theorem of_step_quiet (h : GridInv s) (hs : step s a = some s') (ha : a.resizes = false) : GridInv s' := by
  obtain ⟨hsize, hwin, hatt⟩ := grid_of_step hs ha
  refine ⟨fun att h' => ?_, fun h' id c' hslot hc' => ?_, fun id c' size hc' hask => ?_⟩
  · rw [hsize, hwin]; exact h.attaching att (hatt ▸ h')
  · obtain ⟨c, hc, hreq, hask⟩ := asked_of_step hs ha hc'
    rcases slot_new_of_step hs hslot with hslot | ⟨att, rfl, _⟩
    · rw [GridOf, hsize, hwin, hreq, hask]
      exact h.slot (hatt ▸ h') id c hslot hc
    · cases ha
  · obtain ⟨c, hc, hreq, hask'⟩ := asked_of_step hs ha hc'
    rw [hreq]
    exact h.asked id c size hc (hask' ▸ hask)

theorem attachLock {cols rows : UInt16} {connection : Option Nat} (h : GridInv s)
    (hs : s.attachLock id cols rows connection = some s') : GridInv s' := by
  unfold State.attachLock at hs
  split at hs
  · cases hs
    refine ⟨fun att h' => ?_, nofun, h.asked⟩
    cases h'
    exact ⟨rfl, rfl⟩
  · cases hs

theorem attachInstall (h : GridInv s) (hs : s.attachInstall = some s') : GridInv s' := by
  obtain ⟨att, hatt, rfl⟩ := Option.map_eq_some_iff.mp hs
  refine ⟨nofun, fun _ i c hslot hc => ?_, fun i c size hc hask => ?_⟩
  · cases hslot
    rcases setClient_client hc with ⟨_, rfl⟩ | ⟨hne, _⟩
    · exact ⟨(h.attaching att hatt).1, fun _ => (h.attaching att hatt).2⟩
    · exact absurd rfl hne
  · rcases setClient_client hc with ⟨_, rfl⟩ | ⟨_, hc⟩
    · cases hask
    · obtain ⟨c₁, hc₁, left, rfl⟩ := setSlot_client _ hc
      exact h.asked i c₁ size hc₁ hask

theorem resizeLock {cols rows : UInt16} (h : GridInv s) (ha : Own s (.resizeLock id cols rows))
    (hs : s.resizeLock id cols rows = some s') : GridInv s' := by
  obtain ⟨c, hc, hs⟩ := Option.bind_eq_some_iff.mp hs
  split at hs
  · rename_i hg
    obtain ⟨_, _, hatt⟩ := hg
    cases hs
    refine ⟨fun att h' => ?_, fun h' i ci hslot hci => ?_, fun i ci size hci hask => ?_⟩
    · rw [show s.attaching = some att from h'] at hatt; cases hatt
    · rcases setClient_client hci with ⟨rfl, rfl⟩ | ⟨hne, hci⟩
      · exact ⟨rfl, nofun⟩
      · exact absurd (Option.some.inj (hslot.symm.trans ha)) hne
    · rcases setClient_client hci with ⟨rfl, rfl⟩ | ⟨_, hci⟩
      · exact (Option.some.inj hask).symm
      · exact h.asked i ci size hci hask
  · cases hs

omit [Ghostty T] in
theorem resizeIoctl (h : GridInv s) (ha : Own s (.resizeIoctl id)) (hs : s.resizeIoctl id = some s') : GridInv s' := by
  obtain ⟨c, hc, hs⟩ := Option.bind_eq_some_iff.mp hs
  split at hs
  · rename_i cols rows redump hask
    cases hs
    obtain ⟨hown, hfree⟩ := ha
    have hreq : (cols, rows) = c.requested := h.asked id c (cols, rows) hc (by rw [hask]; rfl)
    refine ⟨fun att h' => ?_, fun h' i ci hslot hci => ?_, fun i ci size hci hask' => ?_⟩
    · rw [show s.attaching = some att from h'] at hfree; cases hfree
    · rcases setClient_client hci with ⟨rfl, rfl⟩ | ⟨hne, hci⟩
      · exact ⟨(h.slot h' i c hslot hc).1, fun _ => by rw [← hreq]⟩
      · exact absurd (Option.some.inj (hslot.symm.trans hown)) hne
    · rcases setClient_client hci with ⟨rfl, rfl⟩ | ⟨_, hci⟩
      · rw [show Resize.asked? _ = none from asked_afterIoctl redump] at hask'; cases hask'
      · exact h.asked i ci size hci hask'
  · cases hs

theorem step (h : GridInv s) (ha : Own s a) (hs : step s a = some s') : GridInv s' := by
  cases a with
  | attachLock i cols rows connection => exact h.attachLock hs
  | attachInstall => exact h.attachInstall hs
  | resizeLock i cols rows => exact h.resizeLock ha hs
  | resizeIoctl i => exact h.resizeIoctl ha hs
  | _ => exact h.of_step_quiet hs rfl

omit [Ghostty T] in
theorem start (p : PtySession T) (winsize : UInt16 × UInt16) (next holding : Nat) :
    GridInv (State.start p winsize next holding) := ⟨nofun, nofun, nofun⟩

end GridInv

/-- In a run whose Resize frames are all handled for the client in the slot, what is left of a
frame when its client has left the slot is not seen by anyone else, and whenever the terminal
lock is free the grid is that of the client in the slot. -/
theorem evicted_resize (p : PtySession T) (winsize : UInt16 × UInt16) (next holding : Nat) (tr : List Label)
    (hm : Meets step Own (State.start p winsize next holding) tr)
    (h : exec step (State.start p winsize next holding) tr = some s) :
    (∀ pre a post s₁ s₂ id, tr = pre ++ a :: post →
        exec step (State.start p winsize next holding) pre = some s₁ → step s₁ a = some s₂ →
        a.resizer = some id → s₁.slot ≠ some id → Unseen s₁ s₂ id) ∧
      (s.attaching = none → ∀ id c, s.slot = some id → s.clients id = some c → GridOf s c) := by
  have hrun {tr' : List Label} {t : State T} (hm : Meets step Own (State.start p winsize next holding) tr')
      (h : exec step (State.start p winsize next holding) tr' = some t) : GridInv t ∧ Aimed t :=
    exec_inv_of_meets (I := fun t => GridInv t ∧ Aimed t)
      (fun _ _ _ ha hs hi => ⟨hi.1.step ha hs, aimed_step hi.2 ha hs⟩) hm h ⟨GridInv.start p winsize next holding, nofun⟩
  constructor
  · rintro pre a post s₁ s₂ id rfl h₁ hs hr hslot
    obtain ⟨hpre, hpost⟩ := meets_append.mp hm
    exact unseen_of_step (hrun hpre h₁).2 hs hr (hpost s₁ h₁).1 hslot
  · exact (hrun hm h).1.slot

end

/-- Client 2 takes the slot from client 1, which still has its last dump to send, and resizes;
client 1 is torn down. -/
def handoverRun : List Label :=
  [.drawId, .attachLock 1 80 24 none, .attachInstall, .openTerm, .drawId, .resizeLock 1 90 20, .resizeIoctl 1,
    .resizeResolve 1, .attachLock 2 100 30 none, .attachInstall, .resizeSend 1, .resizeLock 2 120 0, .resizeIoctl 2, .resizeResolve 2, .resizeSend 2, .hangup 1, .teardown 1]

theorem evicted_resize_handover : ∃ s c, Meets step Own (State.start shell (80, 24) 1 1) handoverRun ∧
    exec step (State.start shell (80, 24) 1 1) handoverRun = some s ∧ s.slot = some 2 ∧ s.clients 2 = some c ∧
    s.session.terminal.size = (120, 1) ∧ GridOf s c := by
  have hm : Meets step Own (State.start shell (80, 24) 1 1) handoverRun := by decide
  exact ⟨_, _, hm, rfl, rfl, rfl, rfl, (evicted_resize shell (80, 24) 1 1 handoverRun hm rfl).2 rfl 2 _ rfl rfl⟩

/-- Client 1 has lost the slot to client 2 and handles one more Resize. -/
def staleRun : List Label :=
  [.drawId, .attachLock 1 80 24 none, .attachInstall, .openTerm, .drawId, .attachLock 2 100 30 none, .attachInstall,
    .resizeLock 1 50 10, .resizeIoctl 1, .resizeResolve 1, .resizeSend 1]

theorem evicted_resize_reaches : ∃ s c, exec step (State.start shell (80, 24) 1 1) staleRun = some s ∧
    s.attaching = none ∧ s.slot = some 2 ∧ s.clients 2 = some c ∧ c.requested = (100, 30) ∧
    s.session.terminal.size = (50, 10) ∧ s.winsize = (50, 10) ∧ ¬ GridOf s c ∧
    c.chan.queue = [.output clearScreen (.replay 0)] := by
  refine ⟨_, _, rfl, rfl, rfl, rfl, rfl, rfl, rfl, fun h => ?_, rfl⟩
  exact absurd h.1 (by decide)

end Mux.Session
