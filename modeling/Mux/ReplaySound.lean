import Mux.StreamSound

/-!
# Replays and the chunks after them

A Resize before the first live output renders the screen again under the terminal lock
and enqueues it later, when the lock is free. The chunk that follows a replay is the next
one if, at that later moment, the read loop holds no chunk the replay already shows and
the channel has accepted none the replay lacks.
-/

namespace Mux.Session

open Lib

/-! ## What a client reads -/

/-- Everything written to the client's terminal, in order: the dump of its attach, then
what its channel accepted. -/
def accepted (c : Client) : List ClientMsg := .output c.dump (.replay c.renderedAt) :: c.chan.log

def Rendered {T : Type} [Ghostty T] (base : Terminal T) (ops : List VtOp) (bytes : Bytes) (k : Nat) : Prop :=
  ∃ pre, pre <+: ops ∧ (chunks pre).length = k ∧ bytes = (replay base pre).renderScreenBytes

/-- A replay in the stream is a rendering after `k` chunks, and the next live chunk
after it is chunk `k + 1`. -/
def ReplayLaw {T : Type} [Ghostty T] (base : Terminal T) (s : State T) (c : Client) : Prop :=
  ∀ pre bytes k post, accepted c = pre ++ .output bytes (.replay k) :: post →
    Rendered base s.vtLog bytes k ∧
      ∀ chunk n, (lives post).head? = some (chunk, n) → n = k + 1 ∧ s.fed[k]? = some chunk

/-! ## The moment of the enqueue -/

/-- The read loop has still to send `id` a chunk that a dump after `fed` chunks contains. -/
def ReadLoop.holdsStale (id : ClientId) (fed : Nat) : ReadLoop → Bool
  | .sending _ n i => decide (i = id) && decide (n ≤ fed)
  | _ => false

/-- A dump enters its target's channel only when every chunk it contains is past the read
loop and no chunk read after it was rendered is in that channel. -/
def InStep {T : Type} (s : State T) : Label → Prop
  | .resizeSend i =>
    match (s.clients i).map (·.resize) with
    | some (Resize.sending target d) =>
      s.readLoop.holdsStale target d.fed = false ∧ ∀ c ∈ s.clients target, c.upTo ≤ d.fed
    | _ => True
  | _ => True

def inStep {T : Type} (s : State T) : Label → Bool
  | .resizeSend i =>
    match (s.clients i).map (·.resize) with
    | some (Resize.sending target d) =>
      !s.readLoop.holdsStale target d.fed && (s.clients target).all fun c => decide (c.upTo ≤ d.fed)
    | _ => true
  | _ => true

theorem inStep_iff {T : Type} (s : State T) (a : Label) : inStep s a = true ↔ InStep s a := by
  unfold inStep InStep
  split
  · split
    · simp [Option.all_eq_true]
    · simp
  · simp

instance {T : Type} (s : State T) (a : Label) : Decidable (InStep s a) := decidable_of_iff _ (inStep_iff s a)

/-! ## The invariant -/

section
variable {T : Type} [Ghostty T] {base : Terminal T} {s s' : State T} {a : Label} {id : ClientId} {c c' : Client}

/-- No chunk will be sent to `id` any more. -/
def Finished (s : State T) (id : ClientId) : Prop :=
  (∀ chunk n, s.readLoop ≠ .sending chunk n id) ∧ (s.slot = some id → s.readLoop = .detaching id)

structure ReplayInv (base : Terminal T) (s : State T) : Prop where
  stream : StreamInv base s
  dumps : ∀ id c d, s.clients id = some c → c.resize.dump? = some d → Rendered base s.vtLog d.bytes d.fed
  replays : ∀ id c pre bytes k post, s.clients id = some c → accepted c = pre ++ .output bytes (.replay k) :: post →
    Rendered base s.vtLog bytes k ∧
      (k = c.renderedAt + (lives pre).length ∨ (lives post = [] ∧ Finished s id))

theorem Rendered.mono {ops ops' : List VtOp} {bytes : Bytes} {k : Nat} (h : Rendered base ops bytes k)
    (hp : ops <+: ops') : Rendered base ops' bytes k := by
  obtain ⟨pre, hpre, hk, hb⟩ := h
  exact ⟨pre, hpre.trans hp, hk, hb⟩

theorem Rendered.le {ops : List VtOp} {bytes : Bytes} {k : Nat} (h : Rendered base ops bytes k) :
    k ≤ (chunks ops).length := by
  obtain ⟨pre, hpre, rfl, _⟩ := h
  exact (hpre.filterMap _).length_le

theorem vtLog_prefix_of_step (hs : step s a = some s') : s.vtLog <+: s'.vtLog :=
  ⟨a.vtOps, (vtLog_of_step hs).symm⟩

theorem lives_accepted (c : Client) : lives (accepted c) = lives c.chan.log := rfl

theorem lives_append (xs ys : List ClientMsg) : lives (xs ++ ys) = lives xs ++ lives ys := List.filterMap_append

theorem finished_step (hi : StreamInv base s) (hc : s.clients id = some c) (hf : Finished s id)
    (hs : step s a = some s') : Finished s' id := by
  have hslot : s'.slot = some id → s.slot = some id := by
    intro h
    rcases slot_new_of_step hs h with h | ⟨att, _, hatt, rfl⟩
    · exact h
    · rw [(hi.ids.attaching_new att hatt).2.1] at hc; cases hc
  refine ⟨fun chunk n h => ?_, fun h => ?_⟩
  · rcases sending_of_step hs h with h | ⟨_, hr, h, _⟩
    · exact hf.1 chunk n h
    · rw [hf.2 h] at hr; cases hr
  · rcases detaching_of_step hs (hf.2 (hslot h)) with h' | h'
    · exact h'
    · exact absurd h h'

/-- A dump that enters the channel in step: the channel has accepted exactly what the dump
contains, or it will accept no further chunk. -/
theorem enqueue_in_step (hi : StreamInv base s) (hc : s.clients id = some c) {k : Nat}
    (hstale : s.readLoop.holdsStale id k = false) (hle : c.upTo ≤ k) (hk : k ≤ s.fed.length) :
    k = c.upTo ∨ Finished s id := by
  have hok := hi.clients id c hc
  by_cases he : k = c.upTo
  · exact Or.inl he
  have hlt : c.upTo < k := by omega
  refine Or.inr ⟨fun chunk n hl => ?_, fun hslot => ?_⟩
  · have hn := (hi.resolved chunk n id hl).1
    have howed := (hok.owed (by rw [hl]; rfl)).1
    simp only [ReadLoop.holdsStale, hl, decide_true, Bool.true_and, decide_eq_false_iff_not] at hstale
    omega
  · have howes : s.readLoop.owes id := by
      refine Classical.byContradiction fun hn => ?_
      have := hok.complete hslot hn
      have : s.fed.length = (chunks s.vtLog).length := rfl
      omega
    cases hl : s.readLoop with
    | sending chunk n i =>
      rw [hl] at howes hstale
      have hn := (hi.resolved chunk n i hl).1
      have howed := (hok.owed (by rw [hl]; exact howes)).1
      simp only [ReadLoop.holdsStale, show i = id from howes, decide_true, Bool.true_and,
        decide_eq_false_iff_not] at hstale
      omega
    | detaching i => rw [hl] at howes; rw [show i = id from howes]
    | _ => rw [hl] at howes; exact howes.elim

namespace ReplayInv

theorem replay_of_step (h : ReplayInv base s) (ha : InStep s a) (hs : step s a = some s')
    (hc : s.clients id = some c) (he : Evolves s a id c c') {pre post : List ClientMsg} {bytes : Bytes} {k : Nat}
    (hsplit : accepted c' = pre ++ .output bytes (.replay k) :: post) :
    Rendered base s.vtLog bytes k ∧
      (k = c.renderedAt + (lives pre).length ∨ (lives post = [] ∧ Finished s' id)) := by
  have hacc : accepted c' = accepted c ++ sentTo s a id := by
    simp only [accepted, he.log, he.dump, he.renderedAt, List.cons_append]
  rcases sentTo_cases s a id with hnil | ⟨m, hsend, hone⟩
  · rw [hacc, hnil, List.append_nil] at hsplit
    obtain ⟨hr, hk⟩ := h.replays id c pre bytes k post hc hsplit
    exact ⟨hr, hk.imp_right fun hk => ⟨hk.1, finished_step h.stream hc hk.2 hs⟩⟩
  · rw [hacc, hone] at hsplit
    rcases snoc_split hsplit with ⟨rfl, rfl, rfl⟩ | ⟨post', rfl, hpre⟩
    · obtain ⟨i, ci, d, rfl, hci, hr, rfl, rfl⟩ := sends_replay hsend
      have hrend := h.dumps i ci d hci (by rw [hr]; rfl)
      simp only [InStep, hci, Option.map_some, hr] at ha
      refine ⟨hrend, ?_⟩
      rcases enqueue_in_step h.stream hc ha.1 (ha.2 c hc) hrend.le with hk | hf
      · exact Or.inl hk
      · exact Or.inr ⟨rfl, finished_step h.stream hc hf hs⟩
    · obtain ⟨hr, hk⟩ := h.replays id c pre bytes k post' hc hpre
      refine ⟨hr, hk.imp_right fun ⟨hl, hf⟩ => ⟨?_, finished_step h.stream hc hf hs⟩⟩
      rw [lives_snoc, hl, List.nil_append]
      cases m with
      | output b o =>
        cases o with
        | live n => exact absurd (sends_live hsend) (hf.1 b n)
        | replay j => rfl
      | exit code => rfl
      | foreground name => rfl

theorem step (h : ReplayInv base s) (ha : InStep s a) (hs : step s a = some s') : ReplayInv base s' := by
  have hpre := vtLog_prefix_of_step hs
  have hstream := h.stream.step hs
  refine ⟨hstream, fun id c' d hc' hd => ?_, fun id c' pre bytes k post hc' hsplit => ?_⟩
  · rcases client_of_step hs hc' with ⟨c, hc, he⟩ | ⟨att, _, _, _, rfl⟩
    · rcases he.redump d hd with hd | ⟨cols, rows, rfl, rfl⟩
      · exact (h.dumps id c d hc hd).mono hpre
      · refine ⟨s'.vtLog, List.prefix_rfl, ?_, ?_⟩
        · rw [vtLog_of_step hs, Label.vtOps, chunks_resize]; rfl
        · rw [vtLog_of_step hs, Label.vtOps, replay_snoc, ← h.stream.terminal]; rfl
    · cases hd
  · rcases client_of_step hs hc' with ⟨c, hc, he⟩ | ⟨att, rfl, hatt, rfl, rfl⟩
    · rw [he.renderedAt]
      obtain ⟨hr, hk⟩ := h.replay_of_step ha hs hc he hsplit
      exact ⟨hr.mono hpre, hk⟩
    · cases pre with
      | nil =>
        injection hsplit with hm _
        injection hm with hb ho
        injection ho with hk
        subst hb hk
        exact ⟨(hstream.clients _ _ hc').rendered, Or.inl rfl⟩
      | cons m pre =>
        injection hsplit with _ hlog
        obtain ⟨name, hname⟩ := h.stream.ids.attaching_chan att hatt (.output bytes (.replay k)) (by
          show _ ∈ (State.attached att s.session.terminal s.fed.length).chan.log
          rw [hlog]; simp)
        cases hname

theorem start (p : PtySession T) (winsize : UInt16 × UInt16) (next holding : Nat) :
    ReplayInv p.terminal (State.start p winsize next holding) :=
  ⟨StreamInv.start p winsize next holding, nofun, nofun⟩

theorem law (h : ReplayInv base s) (hc : s.clients id = some c) : ReplayLaw base s c := by
  intro pre bytes k post hsplit
  obtain ⟨hr, hk⟩ := h.replays id c pre bytes k post hc hsplit
  refine ⟨hr, fun chunk n hn => ?_⟩
  rcases hk with rfl | ⟨hk, _⟩
  · have hlives : lives c.chan.log = lives pre ++ lives post := by
      rw [← lives_accepted, hsplit, lives_append]; rfl
    have hget : (lives c.chan.log)[(lives pre).length]? = some (chunk, n) := by
      rw [hlives, List.getElem?_append_right (Nat.le_refl _), Nat.sub_self, ← List.head?_eq_getElem?, hn]
    have hlt : (lives pre).length < (lives c.chan.log).length := (List.getElem?_eq_some_iff.mp hget).1
    rw [(h.stream.clients id c hc).lives_eq, List.getElem?_take_of_lt hlt, List.getElem?_drop, numbered,
      List.getElem?_zipIdx, Option.map_eq_some_iff] at hget
    obtain ⟨chunk', hchunk, heq⟩ := hget
    cases heq
    exact ⟨Nat.add_comm _ _, hchunk⟩
  · rw [hk] at hn; cases hn

end ReplayInv

/-- Along every run in which each dump is enqueued in step, the next chunk after a replay
is the first one the replay does not show. -/
theorem replay_next (p : PtySession T) (winsize : UInt16 × UInt16) (next holding : Nat) (tr : List Label)
    (hm : Meets step InStep (State.start p winsize next holding) tr)
    (h : exec step (State.start p winsize next holding) tr = some s) :
    ∀ id c, s.clients id = some c → ReplayLaw p.terminal s c := by
  have hi : ReplayInv p.terminal s :=
    exec_inv_of_meets (fun _ _ _ ha hs hi => hi.step ha hs) hm h (ReplayInv.start p winsize next holding)
  exact fun id c hc => hi.law hc

end

/-- A Resize before the first chunk, and the chunk after its dump. -/
def redumpRun : List Label :=
  [.drawId, .attachLock 1 80 24 none, .attachInstall, .resizeLock 1 100 30, .resizeIoctl 1, .resizeResolve 1,
    .resizeSend 1, .read [97], .sendOutput, .forward 1, .forward 1]

theorem replay_next_redump : ∃ s c, Meets step InStep (State.start shell (80, 24) 1 1) redumpRun ∧
    exec step (State.start shell (80, 24) 1 1) redumpRun = some s ∧ s.clients 1 = some c ∧
    c.chan.taken = [.output clearScreen (.replay 0), .output [97] (.live 1)] ∧ ReplayLaw shell.terminal s c := by
  have hm : Meets step InStep (State.start shell (80, 24) 1 1) redumpRun := by decide
  exact ⟨_, _, hm, rfl, rfl, rfl, replay_next shell (80, 24) 1 1 redumpRun hm rfl 1 _ rfl⟩

/-- The read loop has fed a chunk and not yet sent it when the Resize renders and enqueues
its dump: the client reads the chunk in the replay and once more after it. -/
def repeatRun : List Label :=
  [.drawId, .attachLock 1 80 24 none, .attachInstall, .read [97], .resizeLock 1 100 30, .resizeIoctl 1,
    .resizeResolve 1, .resizeSend 1, .sendOutput, .forward 1, .forward 1]

theorem replay_repeats : ∃ s c, exec step (State.start shell (80, 24) 1 1) repeatRun = some s ∧
    s.clients 1 = some c ∧
    c.chan.taken = [.output (clearScreen ++ [97]) (.replay 1), .output [97] (.live 1)] ∧
    ¬ ReplayLaw shell.terminal s c := by
  refine ⟨_, _, rfl, rfl, rfl, fun h => ?_⟩
  have hnext := (h [.output clearScreen (.replay 0)] (clearScreen ++ [97]) 1 [.output [97] (.live 1)] rfl).2
  exact absurd (hnext [97] 1 rfl).1 (by decide)

end Mux.Session
