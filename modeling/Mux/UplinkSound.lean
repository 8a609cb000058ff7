import Mux.Uplink

/-!
# The window size reaches the daemon

The poller sends a size when it differs from the one it remembers, so the daemon's size follows
the terminal's for as long as the remembered size is the one the daemon was told. Each time the
relay sets the uplink that has to hold anew: a handshake, a re-exec and a send into an empty uplink
all change one of the two alone.
-/

namespace Mux.Uplink

open Lib

def Msg.apply (received : Option Size) : Msg → Option Size
  | .resize size => some size
  | .input _ => received

/-- The size the daemon has once it has received everything. -/
def State.told (s : State) : Option Size := s.inFlight.foldl Msg.apply s.received

/-- The poller remembers what the daemon was told, or is about to tell it. -/
def State.InStep (s : State) : Prop := ∃ p, s.poller = some p ∧ (s.told = some p.last ∨ p.next = .send p.last)

instance (s : State) : Decidable s.InStep :=
  match h : s.poller with
  | none => isFalse fun ⟨p, hp, _⟩ => by rw [h] at hp; cases hp
  | some p => decidable_of_iff (s.told = some p.last ∨ p.next = .send p.last)
      ⟨fun hin => ⟨p, h, hin⟩, fun ⟨_, hq, hin⟩ => Option.some.inj (h.symm.trans hq) ▸ hin⟩

def SetInStep (s : State) (a : Label) : Prop := a = .setUplink → s.connected = true → s.InStep

instance (s : State) (a : Label) : Decidable (SetInStep s a) := inferInstanceAs (Decidable (_ → _ → _))

/-- Attached, nothing in flight, and a whole poll since the last resize. -/
structure State.Quiet (s : State) : Prop where
  attached : s.main = .pumping
  connected : s.connected = true
  delivered : s.inFlight = []
  polled : s.polled = true
  asleep : ∃ last, s.poller = some ⟨last, .sleep⟩

def Poller.Current (p : Poller) (size : Size) : Prop :=
  match p.next with
  | .sleep => p.last = size
  | .compare now => now = size
  | .send now => now = size

def Main.early : Main → Bool
  | .start _ | .opening _ | .spawning .. => true
  | _ => false

structure Inv (s : State) : Prop where
  early : s.main.early = true → s.poller = none
  attached : s.main = .pumping → s.connected = true → s.uplink = true ∧ s.InStep
  sending : ∀ last now, s.poller = some ⟨last, .send now⟩ → now = last
  current : s.polled = true → ∀ p, s.poller = some p → p.Current s.size
  opening : s.polled = true → ∀ size, s.main = .opening size → size = s.size
  spawning : s.polled = true → ∀ size attached, s.main = .spawning size attached → size = s.size

theorem inv_init (size : Size) : Inv (init size) := by
  constructor <;> simp [init]

theorem told_receive {s : State} {m : Msg} {rest : List Msg} (h : s.inFlight = m :: rest) :
    s.told = rest.foldl Msg.apply (m.apply s.received) := by
  rw [State.told, h, List.foldl_cons]

/-! ## Steps -/

theorem send_cases {s t : State} {m : Msg} {ok : Bool} (h : s.send m ok = some t) :
    (s.uplink = true ∧ ok = true ∧ t = { s with inFlight := if s.connected then s.inFlight ++ [m] else s.inFlight }) ∨
    (s.uplink = true ∧ ok = false ∧ s.connected = false ∧ t = { s with uplink := false }) ∨
    (s.uplink = false ∧ t = s) := by
  unfold State.send at h
  split at h
  · rename_i hu
    split at h
    · rename_i hok
      exact .inl ⟨hu, hok, (Option.some.inj h).symm⟩
    · rename_i hok
      split at h
      · cases h
      · rename_i hc
        exact .inr (.inl ⟨hu, by simpa using hok, by simpa using hc, (Option.some.inj h).symm⟩)
  · rename_i hu
    exact .inr (.inr ⟨by simpa using hu, (Option.some.inj h).symm⟩)

theorem inv_receive {s t : State} (h : step s .receive = some t) (hi : Inv s) : Inv t := by
  simp only [step] at h
  split at h
  · rename_i size rest hf
    cases h
    refine ⟨hi.early, fun hm hc => ?_, hi.sending, hi.current, hi.opening, hi.spawning⟩
    obtain ⟨hu, p, hp, hstep⟩ := hi.attached hm hc
    rw [told_receive hf] at hstep
    exact ⟨hu, p, hp, hstep⟩
  · rename_i bytes rest hf
    cases h
    refine ⟨hi.early, fun hm hc => ?_, hi.sending, hi.current, hi.opening, hi.spawning⟩
    obtain ⟨hu, p, hp, hstep⟩ := hi.attached hm hc
    rw [told_receive hf] at hstep
    exact ⟨hu, p, hp, hstep⟩
  · cases h

/-- Off the pump, the first clause has nothing to say. -/
theorem inv_main {s t : State} (hi : Inv s) (hm : t.main ≠ .pumping) (he : t.main.early = true → s.main.early = true)
    (hp : t.poller = s.poller) (hs : t.size = s.size)
    (hpo : t.polled = s.polled) (h1 : ∀ size, t.main = .opening size → size = s.size)
    (h2 : ∀ size attached, t.main = .spawning size attached → s.polled = true → size = s.size) : Inv t := by
  refine ⟨fun h => hp ▸ hi.early (he h), fun h => absurd h hm, ?_, ?_, ?_, ?_⟩
  · rw [hp]; exact hi.sending
  · rw [hp, hs, hpo]; exact hi.current
  · rw [hs]; exact fun _ => h1
  · rw [hs, hpo]; exact fun h size attached hsp => h2 size attached hsp h

theorem inv_winsize {s t : State} (h : step s .winsize = some t) (hi : Inv s) : Inv t := by
  simp only [step, State.winsize] at h
  split at h
  · rename_i hm
    cases h
    refine inv_main hi (by simp) (fun _ => by rw [hm]; rfl) rfl rfl rfl (by simp) ?_
    intro size attached hsp _
    simp only [Main.spawning.injEq] at hsp
    exact hsp.1.symm
  · rename_i hm
    cases h
    refine inv_main hi (by simp) (fun _ => by rw [hm]; rfl) rfl rfl rfl ?_ (by simp)
    intro size hop
    simp only [Main.opening.injEq] at hop
    exact hop.symm
  · cases h
    refine inv_main hi ?_ ?_ rfl rfl rfl ?_ ?_ <;> (dsimp only; split <;> simp [Main.early])
  · cases h

theorem inv_opened {s t : State} (h : step s .opened = some t) (hi : Inv s) : Inv t := by
  simp only [step, State.opened] at h
  split at h
  · rename_i size hm
    cases h
    refine inv_main hi (by simp) (fun _ => by rw [hm]; rfl) rfl rfl rfl (by simp) ?_
    intro size' attached hsp hpo
    simp only [Main.spawning.injEq] at hsp
    rw [← hsp.1]
    exact hi.opening hpo size hm
  · cases h
    exact inv_main hi (by simp) (by simp [Main.early]) rfl rfl rfl (by simp) (by simp)
  · cases h

theorem inv_failed {s t : State} {e r : Bool} (h : step s (.failed e r) = some t) (hi : Inv s) : Inv t := by
  simp only [step, State.failed] at h
  split at h
  · rename_i size hm
    cases h
    refine inv_main hi ?_ (fun _ => by rw [hm]; rfl) rfl rfl rfl ?_ ?_
    · cases e <;> simp
    · cases e <;> simp
    · intro size' attached hsp hpo
      cases e with
      | false => simp at hsp
      | true =>
        simp only [if_true, Main.spawning.injEq] at hsp
        rw [← hsp.1]
        exact hi.opening hpo size hm
  · cases h
    exact inv_main hi (by simp) (by simp [Main.early]) rfl rfl rfl (by simp) (by simp)
  · cases h

theorem inv_spawn {s t : State} (h : step s .spawnInputThreads = some t) (hi : Inv s) : Inv t := by
  simp only [step, State.spawnInputThreads] at h
  split at h
  · rename_i initial attached hm
    cases h
    refine ⟨?_, ?_, by simp, ?_, ?_, ?_⟩
    · cases attached <;> simp [Main.early]
    · cases attached <;> simp
    · rintro hpo p ⟨⟩
      exact hi.spawning hpo initial attached hm
    · cases attached <;> simp
    · cases attached <;> simp
  · cases h

theorem inv_setUplink {s t : State} (h : step s .setUplink = some t) (hg : SetInStep s .setUplink) (hi : Inv s) :
    Inv t := by
  simp only [step, State.setUplink] at h
  split at h
  · cases h
    exact ⟨by simp [Main.early], fun _ hc => ⟨rfl, hg rfl hc⟩, hi.sending, hi.current, by simp, by simp⟩
  · cases h

theorem inv_pump {s t : State} {r : Relay} (h : step s (.pump r) = some t) (hi : Inv s) : Inv t := by
  simp only [step, State.pump] at h
  split at h
  · cases h
    exact inv_main hi (by simp) (by simp [Main.early]) rfl rfl rfl (by simp) (by simp)
  · cases h

theorem inv_clearUplink {s t : State} (h : step s .clearUplink = some t) (hi : Inv s) : Inv t := by
  simp only [step, State.clearUplink] at h
  split at h
  · cases h
    exact inv_main hi (by simp) (by simp [Main.early]) rfl rfl rfl (by simp) (by simp)
  · cases h
    refine inv_main hi ?_ ?_ rfl rfl rfl ?_ ?_ <;> (dsimp only; split <;> simp [Main.early])
  · cases h
    exact inv_main hi (by simp) (by simp [Main.early]) rfl rfl rfl (by simp) (by simp)
  · cases h

theorem inv_execve {s t : State} {ok : Bool} (h : step s (.execve ok) = some t) (hi : Inv s) : Inv t := by
  simp only [step, State.execve] at h
  split at h
  · cases ok with
    | true =>
      cases h
      constructor <;> simp
    | false =>
      cases h
      exact inv_main hi (by simp) (by simp [Main.early]) rfl rfl rfl (by simp) (by simp)
  · cases h

/-! ### The poller -/

theorem Inv.late {s : State} (hi : Inv s) {p : Poller} (hp : s.poller = some p) : s.main.early = false := by
  by_contra h
  rw [hi.early (by simpa using h)] at hp
  cases hp

/-- A step of the poller alone: what it remembers and is about to send stays in step. -/
theorem inv_poller {s t : State} (hi : Inv s) {p q : Poller} (hp : s.poller = some p) (hq : t.poller = some q)
    (hm : t.main = s.main) (hs : t.size = s.size)
    (ha : s.main = .pumping → t.connected = true → s.connected = true ∧
      (s.uplink = true → s.told = some p.last ∨ p.next = .send p.last → t.uplink = true ∧ (t.told = some q.last ∨ q.next = .send q.last)))
    (hsend : ∀ now, q.next = .send now → now = q.last) (hcur : t.polled = true → q.Current s.size) : Inv t := by
  have hlate := hi.late hp
  refine ⟨?_, ?_, ?_, ?_, ?_, ?_⟩
  · rw [hm, hlate]
    exact fun h => by cases h
  · intro hmain hc
    rw [hm] at hmain
    obtain ⟨hc', hstep⟩ := ha hmain hc
    obtain ⟨hu, p', hp', hin⟩ := hi.attached hmain hc'
    cases hp.symm.trans hp'
    obtain ⟨hu', hin'⟩ := hstep hu hin
    exact ⟨hu', q, hq, hin'⟩
  · intro last now h
    cases hq.symm.trans h
    exact hsend now rfl
  · intro hpo q' hq'
    cases hq.symm.trans hq'
    rw [hs]
    exact hcur hpo
  · intro _ size h
    rw [← hm, h] at hlate
    cases hlate
  · intro _ size attached h
    rw [← hm, h] at hlate
    cases hlate

theorem inv_poll {s t : State} (h : step s .poll = some t) (hi : Inv s) : Inv t := by
  simp only [step, State.poll] at h
  split at h
  · rename_i last hp
    cases h
    refine inv_poller hi hp rfl rfl rfl ?_ (by simp) (fun _ => rfl)
    intro _ hc
    refine ⟨hc, fun hu hin => ⟨hu, ?_⟩⟩
    rcases hin with h | h
    · exact .inl h
    · cases h
  · cases h

theorem inv_compare {s t : State} (h : step s .compare = some t) (hi : Inv s) : Inv t := by
  simp only [step, State.compare] at h
  split at h
  · rename_i last now hp
    cases h
    refine inv_poller hi hp rfl rfl rfl ?_ ?_ ?_
    · intro _ hc
      refine ⟨hc, fun hu hin => ⟨hu, ?_⟩⟩
      by_cases hn : now = last
      · rw [if_pos hn]
        rcases hin with h | h
        · exact .inl h
        · cases h
      · rw [if_neg hn]
        exact .inr rfl
    · intro now' hnext
      by_cases hn : now = last
      · rw [if_pos hn] at hnext
        cases hnext
      · rw [if_neg hn] at hnext ⊢
        cases hnext
        rfl
    · intro hpo
      have hcur : now = s.size := hi.current hpo _ hp
      by_cases hn : now = last
      · rw [if_pos hn]
        exact hn.symm.trans hcur
      · rw [if_neg hn]
        exact hcur
  · cases h

theorem inv_sendResize {s t : State} {ok : Bool} (h : step s (.sendResize ok) = some t) (hi : Inv s) : Inv t := by
  simp only [step, State.sendResize] at h
  split at h
  · rename_i last now hp
    obtain ⟨u, hu, rfl⟩ := Option.map_eq_some_iff.mp h
    have hnow := hi.sending last now hp
    have hcur : s.polled = true → last = s.size := fun hpo => hnow.symm.trans (hi.current hpo _ hp)
    obtain ⟨h1, -, rfl⟩ | ⟨h1, -, h2, rfl⟩ | ⟨h1, rfl⟩ := send_cases hu
    · refine inv_poller hi hp rfl rfl rfl ?_ (by simp) hcur
      intro _ hc
      refine ⟨hc, fun hu _ => ⟨hu, .inl ?_⟩⟩
      have hc : s.connected = true := hc
      simp [State.told, hc, List.foldl_append, Msg.apply, hnow]
    · refine inv_poller hi hp rfl rfl rfl ?_ (by simp) hcur
      intro _ hc
      exact absurd hc (by simp [h2])
    · refine inv_poller hi hp rfl rfl rfl ?_ (by simp) hcur
      intro _ hc
      exact ⟨hc, fun hu => absurd hu (by simp [h1])⟩
  · cases h

/-! ### The rest -/

theorem inv_other {s t : State} (hi : Inv s) (hm : t.main = s.main) (hp : t.poller = s.poller) (hs : t.size = s.size)
    (hpo : t.polled = s.polled)
    (ha : t.connected = true → s.connected = true ∧ (s.uplink = true → t.uplink = true) ∧ t.told = s.told) :
    Inv t := by
  refine ⟨?_, ?_, ?_, ?_, ?_, ?_⟩
  · rw [hm, hp]; exact hi.early
  · intro hmain hc
    obtain ⟨hc', hu, ht⟩ := ha hc
    obtain ⟨hu', p, hp', hin⟩ := hi.attached (hm ▸ hmain) hc'
    exact ⟨hu hu', p, hp.trans hp', by rw [ht]; exact hin⟩
  · rw [hp]; exact hi.sending
  · rw [hp, hs, hpo]; exact hi.current
  · rw [hm, hs, hpo]; exact hi.opening
  · rw [hm, hs, hpo]; exact hi.spawning

theorem inv_resize {s t : State} {size : Size} (h : step s (.resize size) = some t) (hi : Inv s) : Inv t := by
  cases h
  by_cases hs : s.size = size
  · subst hs
    exact inv_other hi rfl rfl rfl (by simp) fun hc => ⟨hc, id, rfl⟩
  · have hpo : (s.polled && s.size == size) = false := by simp [hs]
    refine ⟨hi.early, hi.attached, hi.sending, ?_, ?_, ?_⟩
    all_goals
      intro h
      rw [hpo] at h
      cases h

theorem inv_fill {s t : State} {bytes : Lib.Bytes} (h : step s (.fill bytes) = some t) (hi : Inv s) : Inv t := by
  simp only [step, State.fill] at h
  split at h
  · split at h
    · cases h
      exact inv_other hi rfl rfl rfl rfl fun hc => ⟨hc, id, rfl⟩
    · cases h
  · cases h

theorem inv_read {s t : State} (h : step s .read = some t) (hi : Inv s) : Inv t := by
  simp only [step, State.read] at h
  split at h
  · cases h
    exact inv_other hi rfl rfl rfl rfl fun hc => ⟨hc, id, rfl⟩
  · cases h

theorem inv_sendInput {s t : State} {ok : Bool} (h : step s (.sendInput ok) = some t) (hi : Inv s) : Inv t := by
  simp only [step, State.sendInput] at h
  split at h
  · rename_i buffered b bs hin
    obtain ⟨u, hu, rfl⟩ := Option.map_eq_some_iff.mp h
    obtain ⟨h1, -, rfl⟩ | ⟨h1, -, h2, rfl⟩ | ⟨h1, rfl⟩ := send_cases hu
    · refine inv_other hi rfl rfl rfl rfl fun hc => ⟨hc, id, ?_⟩
      have hc : s.connected = true := hc
      simp [State.told, hc, List.foldl_append, Msg.apply]
    · exact inv_other hi rfl rfl rfl rfl fun hc => absurd hc (by simp [h2])
    · exact inv_other hi rfl rfl rfl rfl fun hc => ⟨hc, id, rfl⟩
  · cases h

theorem inv_stdinEof {s t : State} (h : step s .stdinEof = some t) (hi : Inv s) : Inv t := by
  simp only [step, State.stdinEof] at h
  split at h
  · cases h
    refine inv_other hi rfl rfl rfl rfl fun hc => ⟨?_, id, rfl⟩
    simp only [Bool.and_eq_true] at hc
    exact hc.1
  · cases h

theorem inv_step {s t : State} {a : Label} (hg : SetInStep s a) (h : step s a = some t) (hi : Inv s) : Inv t := by
  cases a with
  | resize size => exact inv_resize h hi
  | receive => exact inv_receive h hi
  | vanish =>
    cases h
    exact inv_other hi rfl rfl rfl rfl (by simp)
  | winsize => exact inv_winsize h hi
  | opened => exact inv_opened h hi
  | failed e r => exact inv_failed h hi
  | spawnInputThreads => exact inv_spawn h hi
  | setUplink => exact inv_setUplink h hg hi
  | pump r => exact inv_pump h hi
  | clearUplink => exact inv_clearUplink h hi
  | execve ok => exact inv_execve h hi
  | poll => exact inv_poll h hi
  | compare => exact inv_compare h hi
  | sendResize ok => exact inv_sendResize h hi
  | fill bytes => exact inv_fill h hi
  | read => exact inv_read h hi
  | sendInput ok => exact inv_sendInput h hi
  | stdinEof => exact inv_stdinEof h hi

theorem Inv.quiet {s : State} (hi : Inv s) (hq : s.Quiet) : s.received = some s.size := by
  obtain ⟨last, hp⟩ := hq.asleep
  have hcur : last = s.size := hi.current hq.polled _ hp
  obtain ⟨-, p, hp', hin⟩ := hi.attached hq.attached hq.connected
  cases hp.symm.trans hp'
  rcases hin with h | h
  · rw [State.told, hq.delivered] at h
    rw [← hcur]
    exact h
  · cases h

/-- In a run that sets the uplink only while the poller is in step with the daemon, the daemon's
size is the terminal's whenever all is quiet. -/
theorem window_size_agrees (size : Size) (tr : List Label) (s : State) (h : exec step (init size) tr = some s)
    (hg : Meets step SetInStep (init size) tr) (hq : s.Quiet) : s.received = some s.size :=
  (exec_inv_of_meets (fun _ _ _ hg h => inv_step hg h) hg h (inv_init size)).quiet hq

/-- A relay that attaches, is resized, mirrors a program and outlives its daemon. -/
def steadyRun : List Label :=
  [.winsize, .opened, .spawnInputThreads, .setUplink, .resize ⟨100, 30⟩, .poll, .compare, .sendResize true, .receive,
    .pump .mirror, .clearUplink, .execve true, .winsize, .spawnInputThreads, .setUplink, .vanish, .pump .daemonGone,
    .clearUplink, .winsize, .opened, .setUplink, .resize ⟨90, 20⟩, .poll, .compare, .sendResize true, .receive]

theorem window_size_agrees_steady : ∃ s, exec step (init ⟨80, 24⟩) steadyRun = some s ∧ s.Quiet ∧
    s.size = ⟨90, 20⟩ ∧ s.received = some s.size := by
  refine ⟨_, rfl, ⟨rfl, rfl, rfl, rfl, _, rfl⟩, rfl, ?_⟩
  exact window_size_agrees ⟨80, 24⟩ steadyRun _ rfl (by decide) ⟨rfl, rfl, rfl, rfl, _, rfl⟩

/-- The terminal is resized while the relay mirrors a program: the new image takes the new size
for the one the daemon has. -/
theorem resize_lost_by_reexec : ∃ s, exec step (init ⟨80, 24⟩) [.winsize, .opened, .spawnInputThreads, .setUplink, .pump .mirror,
      .clearUplink, .resize ⟨100, 30⟩, .execve true, .winsize, .spawnInputThreads, .setUplink, .poll, .compare] = some s ∧ s.Quiet ∧
    s.size = ⟨100, 30⟩ ∧ s.received = some ⟨80, 24⟩ :=
  ⟨_, rfl, ⟨rfl, rfl, rfl, rfl, _, rfl⟩, rfl, rfl⟩

end Mux.Uplink
