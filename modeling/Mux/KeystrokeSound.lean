import Mux.UplinkSound

/-!
# What is typed reaches the socket

While the connection stands, what was read from the terminal is what was written to the socket
and what the stdin thread has in hand. Two steps break that: a send into an empty uplink, and an exec
that ends a stdin thread with bytes in hand.
-/

namespace Mux.Uplink

open Lib

def InputKept (s : State) : Label → Prop
  | .sendInput _ => s.connected = true → s.uplink = true
  | .execve true => s.connected = true → s.inHand = []
  | _ => True

instance (s : State) : (a : Label) → Decidable (InputKept s a)
  | .sendInput _ => inferInstanceAs (Decidable (s.connected = true → s.uplink = true))
  | .execve true => inferInstanceAs (Decidable (s.connected = true → s.inHand = []))
  | .execve false => isTrue trivial
  | .resize _ | .receive | .vanish | .winsize | .opened | .failed .. | .spawnInputThreads | .setUplink | .pump _ | .clearUplink
  | .poll | .compare | .sendResize _ | .fill _ | .read | .stdinEof => isTrue trivial

/-- What the terminal gave is on the socket, once and in order, or in the hands of the stdin thread. -/
def State.Accounted (s : State) : Prop := s.carried ++ s.typed = s.written ++ s.inHand

structure Kept (s : State) : Prop where
  early : s.main.early = true → s.stdin = none
  kept : s.connected = true → s.Accounted

theorem inHand_none {s : State} (h : s.stdin = none) : s.inHand = [] := by
  rw [State.inHand, h]
  rfl

theorem inHand_some {s : State} {i : Stdin} (h : s.stdin = some i) : s.inHand = i.held ++ i.buffered := by
  rw [State.inHand, h]
  rfl

theorem kept_of_eq {s t : State} (hk : Kept s) (hm : t.main.early = true → s.main.early = true)
    (hi : t.stdin = s.stdin)
    (hc : t.connected = true → s.connected = true) (h1 : t.carried = s.carried) (h2 : t.typed = s.typed)
    (h3 : t.written = s.written) : Kept t := by
  refine ⟨fun h => hi ▸ hk.early (hm h), fun h => ?_⟩
  have := hk.kept (hc h)
  unfold State.Accounted State.inHand at this ⊢
  rw [h1, h2, h3, hi]
  exact this

theorem kept_attach {s : State} (hk : Kept s) (size : Size) (m : Main) (hm : m.early = true → s.main.early = true) :
    Kept { s.attach size with main := m } :=
  ⟨fun h => hk.early (hm h), fun _ => by simp [State.Accounted, State.attach, State.inHand]⟩

def Label.ofMain : Label → Bool
  | .winsize | .opened | .failed .. | .setUplink | .pump _ | .clearUplink => true
  | _ => false

def Label.ofPoller : Label → Bool
  | .poll | .compare | .sendResize _ => true
  | _ => false

theorem kept_main {s t : State} {a : Label} (ha : a.ofMain = true) (h : step s a = some t) (hk : Kept s) :
    Kept t := by
  cases a with
  | winsize =>
    simp only [step, State.winsize] at h
    split at h
    · rename_i hm
      cases h
      exact kept_of_eq hk (fun _ => by rw [hm]; rfl) rfl id rfl rfl rfl
    · rename_i hm
      cases h
      exact kept_of_eq hk (fun _ => by rw [hm]; rfl) rfl id rfl rfl rfl
    · cases h
      refine kept_of_eq hk ?_ rfl id rfl rfl rfl
      dsimp only
      split <;> simp [Main.early]
    · cases h
  | opened =>
    simp only [step, State.opened] at h
    split at h
    · rename_i size hm
      cases h
      exact kept_attach hk size _ fun _ => by rw [hm]; rfl
    · rename_i size hm
      cases h
      exact kept_attach hk size _ (by simp [Main.early])
    · cases h
  | failed e r =>
    simp only [step, State.failed] at h
    split at h
    · rename_i size hm
      cases h
      exact kept_of_eq hk (fun _ => by rw [hm]; rfl) rfl id rfl rfl rfl
    · cases h
      exact kept_of_eq hk (by simp [Main.early]) rfl id rfl rfl rfl
    · cases h
  | setUplink =>
    simp only [step, State.setUplink] at h
    split at h
    · cases h
      exact kept_of_eq hk (by simp [Main.early]) rfl id rfl rfl rfl
    · cases h
  | pump r =>
    simp only [step, State.pump] at h
    split at h
    · cases h
      exact kept_of_eq hk (by simp [Main.early]) rfl id rfl rfl rfl
    · cases h
  | clearUplink =>
    simp only [step, State.clearUplink] at h
    split at h
    · cases h
      exact kept_of_eq hk (by simp [Main.early]) rfl id rfl rfl rfl
    · cases h
      refine kept_of_eq hk ?_ rfl id rfl rfl rfl
      dsimp only
      split <;> simp [Main.early]
    · cases h
      exact kept_of_eq hk (by simp [Main.early]) rfl id rfl rfl rfl
    · cases h
  | _ => cases ha

theorem kept_spawn {s t : State} (h : step s .spawnInputThreads = some t) (hk : Kept s) : Kept t := by
  simp only [step, State.spawnInputThreads] at h
  split at h
  · rename_i initial attached hm
    cases h
    have hs := hk.early (by rw [hm]; rfl)
    refine ⟨?_, fun hc => ?_⟩
    · cases attached <;> simp [Main.early]
    · have := hk.kept hc
      unfold State.Accounted at this ⊢
      rw [inHand_none hs] at this
      exact this
  · cases h

theorem kept_execve {s t : State} {ok : Bool} (hg : InputKept s (.execve ok)) (h : step s (.execve ok) = some t)
    (hk : Kept s) :
    Kept t := by
  simp only [step, State.execve] at h
  split at h
  · cases ok with
    | true =>
      cases h
      refine ⟨fun _ => rfl, fun hc => ?_⟩
      have := hk.kept hc
      unfold State.Accounted at this ⊢
      rw [show s.inHand = [] from hg hc] at this
      exact this
    | false =>
      cases h
      exact kept_of_eq hk (by simp [Main.early]) rfl id rfl rfl rfl
  · cases h

theorem kept_poller {s t : State} {a : Label} (ha : a.ofPoller = true) (h : step s a = some t) (hk : Kept s) :
    Kept t := by
  cases a with
  | poll =>
    simp only [step, State.poll] at h
    split at h
    · cases h
      exact kept_of_eq hk id rfl id rfl rfl rfl
    · cases h
  | compare =>
    simp only [step, State.compare] at h
    split at h
    · cases h
      exact kept_of_eq hk id rfl id rfl rfl rfl
    · cases h
  | sendResize ok =>
    simp only [step, State.sendResize] at h
    split at h
    · obtain ⟨u, hu, rfl⟩ := Option.map_eq_some_iff.mp h
      obtain ⟨-, -, rfl⟩ | ⟨-, -, -, rfl⟩ | ⟨-, rfl⟩ := send_cases hu
      · exact kept_of_eq hk id rfl id rfl rfl rfl
      · exact kept_of_eq hk id rfl id rfl rfl rfl
      · exact kept_of_eq hk id rfl id rfl rfl rfl
    · cases h
  | _ => cases ha

/-! ## The stdin thread -/

theorem Kept.late {s : State} (hk : Kept s) {i : Stdin} (hi : s.stdin = some i) : ¬ s.main.early = true := by
  intro h
  rw [hk.early h] at hi
  cases hi

theorem kept_fill {s t : State} {bytes : Lib.Bytes} (h : step s (.fill bytes) = some t) (hk : Kept s) : Kept t := by
  simp only [step, State.fill] at h
  split at h
  · rename_i hin
    split at h
    · cases h
      refine ⟨fun he => absurd he (hk.late hin), fun hc => ?_⟩
      have := hk.kept hc
      rw [State.Accounted, inHand_some hin] at this
      simp only [List.append_nil] at this
      rw [State.Accounted, inHand_some rfl, List.nil_append, ← List.append_assoc, this]
    · cases h
  · cases h

theorem kept_read {s t : State} (h : step s .read = some t) (hk : Kept s) : Kept t := by
  simp only [step, State.read] at h
  split at h
  · rename_i b bs hin
    cases h
    refine ⟨fun he => absurd he (hk.late hin), fun hc => ?_⟩
    have := hk.kept hc
    rw [State.Accounted, inHand_some hin] at this
    rw [State.Accounted, inHand_some rfl, List.take_append_drop]
    exact this
  · cases h

theorem kept_sendInput {s t : State} {ok : Bool} (hg : InputKept s (.sendInput ok))
    (h : step s (.sendInput ok) = some t)
    (hk : Kept s) : Kept t := by
  simp only [step, State.sendInput] at h
  split at h
  · rename_i buffered b bs hin
    obtain ⟨u, hu, rfl⟩ := Option.map_eq_some_iff.mp h
    have hlate := hk.late hin
    obtain ⟨h1, rfl, rfl⟩ | ⟨-, -, h2, rfl⟩ | ⟨h1, rfl⟩ := send_cases hu
    · refine ⟨fun he => absurd he hlate, fun hc => ?_⟩
      have hc : s.connected = true := hc
      have := hk.kept hc
      rw [State.Accounted, inHand_some hin] at this
      rw [State.Accounted, inHand_some rfl]
      simp only [h1, hc, Bool.and_self, if_true, List.nil_append]
      rw [this, List.append_assoc]
    · exact ⟨fun he => absurd he hlate, fun hc => absurd hc (by simp [h2])⟩
    · refine ⟨fun he => absurd he hlate, fun hc => ?_⟩
      rw [hg hc] at h1
      cases h1
  · cases h

theorem kept_stdinEof {s t : State} (h : step s .stdinEof = some t) (hk : Kept s) : Kept t := by
  simp only [step, State.stdinEof] at h
  split at h
  · rename_i hin
    cases h
    refine ⟨fun _ => rfl, fun hc => ?_⟩
    simp only [Bool.and_eq_true] at hc
    have := hk.kept hc.1
    rw [State.Accounted, inHand_some hin] at this
    exact this
  · cases h

theorem kept_step {s t : State} {a : Label} (hg : InputKept s a) (h : step s a = some t) (hk : Kept s) : Kept t := by
  cases a with
  | resize size => cases h; exact kept_of_eq hk id rfl id rfl rfl rfl
  | receive =>
    simp only [step] at h
    split at h
    · cases h; exact kept_of_eq hk id rfl id rfl rfl rfl
    · cases h; exact kept_of_eq hk id rfl id rfl rfl rfl
    · cases h
  | vanish => cases h; exact kept_of_eq hk id rfl (by simp) rfl rfl rfl
  | winsize => exact kept_main rfl h hk
  | opened => exact kept_main rfl h hk
  | failed e r => exact kept_main rfl h hk
  | spawnInputThreads => exact kept_spawn h hk
  | setUplink => exact kept_main rfl h hk
  | pump r => exact kept_main rfl h hk
  | clearUplink => exact kept_main rfl h hk
  | execve ok => exact kept_execve hg h hk
  | poll => exact kept_poller rfl h hk
  | compare => exact kept_poller rfl h hk
  | sendResize ok => exact kept_poller rfl h hk
  | fill bytes => exact kept_fill h hk
  | read => exact kept_read h hk
  | sendInput ok => exact kept_sendInput hg h hk
  | stdinEof => exact kept_stdinEof h hk

/-- In a run in which no send meets an empty uplink and no exec a stdin thread with bytes in hand,
nothing that was typed on a connection is lost, doubled or moved. -/
theorem keystrokes_kept (size : Size) (tr : List Label) (s : State) (h : exec step (init size) tr = some s)
    (hg : Meets step InputKept (init size) tr) (hc : s.connected = true) :
    s.carried ++ s.typed = s.written ++ s.inHand :=
  (exec_inv_of_meets (fun _ _ _ hg h => kept_step hg h) hg h ⟨fun _ => rfl, fun h => by cases h⟩).kept hc

/-- Keys typed before and after a program is mirrored, with the stdin thread idle at the switch. -/
theorem keystrokes_kept_mirrored : ∃ s, exec step (init ⟨80, 24⟩) [.winsize, .opened, .spawnInputThreads, .setUplink, .fill [108, 115],
      .read, .sendInput true, .pump .mirror, .clearUplink, .execve true, .winsize, .spawnInputThreads, .setUplink, .fill [13], .read,
      .sendInput true] = some s ∧ s.carried ++ s.typed = s.written ++ s.inHand ∧ s.written = [108, 115, 13] :=
  ⟨_, rfl, keystrokes_kept ⟨80, 24⟩ [.winsize, .opened, .spawnInputThreads, .setUplink, .fill [108, 115],
      .read, .sendInput true, .pump .mirror, .clearUplink, .execve true, .winsize, .spawnInputThreads, .setUplink, .fill [13], .read,
      .sendInput true] _ rfl (by decide) rfl, rfl⟩

/-- A key read while the uplink is empty is dropped, and one in hand at the exec goes with its thread. -/
theorem keystrokes_lost :
    (∃ s, exec step (init ⟨80, 24⟩) [.winsize, .opened, .spawnInputThreads, .setUplink, .pump .mirror, .clearUplink, .fill [108], .read,
      .sendInput true, .execve false, .setUplink] = some s ∧ s.connected = true ∧ s.typed = [108] ∧ s.written = [] ∧ s.inHand = []) ∧
    ∃ s, exec step (init ⟨80, 24⟩) [.winsize, .opened, .spawnInputThreads, .setUplink, .fill [108], .pump .mirror, .clearUplink,
      .execve true, .winsize, .spawnInputThreads, .setUplink] = some s ∧
        s.connected = true ∧ s.typed = [108] ∧ s.written = [] ∧ s.inHand = [] :=
  ⟨⟨_, rfl, rfl, rfl, rfl, rfl⟩, _, rfl, rfl, rfl, rfl, rfl⟩

end Mux.Uplink
