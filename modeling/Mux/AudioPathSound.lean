import Mathlib.Data.List.Flatten
import Mux.AudioDevices
import Mux.MacAudioFlow

/-!
# From the applications to the Mac's devices

What the tasks and connections of the path hold is followed from its one end to the other: which devices run, from
the applications to the helper's queues, and the samples, from the playback device that owns the route to the Mac's
playback buffer and from the broadcast to every application that records.
-/

namespace Mux.AudioPath

open Lib
open Audio (State)

/-! ## One step of the media -/

def stateOf? : Audio.Frame → Option State
  | .events state => some state
  | .output .. => none

/-- Every State message so far, the oldest first: those the driver has been written, those `bridge` holds and those
under way. -/
def told (s : Audio.System) : List State :=
  s.bridge.out.filterMap stateOf? ++ s.bridge.queue.filterMap Audio.Waiter.state? ++ s.states

/-- What the sender says last is what it knows. -/
def Says (s s' : Audio.System) : Prop :=
  told s' = told s ∧ s'.serve.state = s.serve.state ∨ told s' = told s ++ [s'.serve.state]

/-- What a step does to `serve_route` that no event of a device makes it take. -/
structure Outside (s s' : Audio.System) : Prop where
  clients : s'.serve.clients = s.serve.clients
  running : s'.serve.running = true → s.serve.running = true
  sent : s'.serve.sent = s.serve.sent
  captured : s.serve.captured <+: s'.serve.captured
  out : s.bridge.out <+: s'.bridge.out
  last : Says s s'

theorem outside_serve {s : Audio.System} {r : Audio.Serve} (hc : r.clients = s.serve.clients)
    (hr : r.running = true → s.serve.running = true) (hs : r.sent = s.serve.sent)
    (hp : s.serve.captured <+: r.captured) (hst : r.state = s.serve.state) : Outside s { s with serve := r } :=
  ⟨hc, hr, hs, hp, List.prefix_refl _, .inl ⟨rfl, hst⟩⟩

theorem outside_bridge {s : Audio.System} {b : Audio.Bridge} {states : List State} (ho : s.bridge.out <+: b.out)
    (ht : told { s with bridge := b, states := states } = told s) : Outside s { s with bridge := b, states := states } :=
  ⟨rfl, id, rfl, List.prefix_refl _, ho, .inl ⟨ht, rfl⟩⟩

theorem onCapture_keeps {b b' : Audio.Bridge} {data : Lib.Bytes} (h : b.onCapture data = some b') :
    b'.out = b.out ∧ b'.queue = b.queue := by
  unfold Audio.Bridge.onCapture at h
  simp only at h
  split_ifs at h
  · cases h
    exact ⟨rfl, rfl⟩
  · split at h
    · cases h
    · split at h
      · cases h
      · cases h
        exact ⟨rfl, rfl⟩

theorem outside_of_step {s s' : Audio.System} {a : Audio.Label} (hs : Audio.step s a = some s')
    (ha : ∀ id capture active, a ≠ .running id capture active) (hp : ∀ pcm, a ≠ .playback pcm) : Outside s s' := by
  unfold Audio.step at hs
  cases a with
  | running id capture active => exact absurd rfl (ha id capture active)
  | playback pcm => exact absurd rfl (hp pcm)
  | heartbeat =>
    obtain ⟨-, rfl⟩ : s.serve.running = true ∧ { s with states := s.states ++ [s.serve.state] } = s' := by
      simpa [Audio.Label.atServe, Audio.System.stepServe] using hs
    exact ⟨rfl, id, rfl, List.prefix_refl _, List.prefix_refl _, .inr (by simp [told])⟩
  | serveDatagram data =>
    obtain ⟨-, rfl⟩ : s.serve.running = true ∧ { s with serve := s.serve.onDatagram data } = s' := by
      simpa [Audio.Label.atServe, Audio.System.stepServe] using hs
    rcases s.serve.onDatagram_cases data with heq | ⟨p, -, -, -, -, heq⟩
    · rw [heq]
      exact outside_serve rfl id rfl (List.prefix_refl _) rfl
    · rw [heq]
      exact outside_serve rfl id rfl (List.prefix_append _ _) rfl
  | serveEnds =>
    obtain ⟨-, rfl⟩ : s.serve.running = true ∧ { s with serve := { s.serve with running := false } } = s' := by
      simpa [Audio.Label.atServe, Audio.System.stepServe] using hs
    exact outside_serve rfl (fun h => by cases h) rfl (List.prefix_refl _) rfl
  | control =>
    obtain ⟨-, hc⟩ : s.bridge.running = true ∧ s.stepBridge .control = some s' := by
      simpa [Audio.Label.atServe] using hs
    unfold Audio.System.stepBridge at hc
    cases hst : s.states with
    | nil => simp [hst] at hc
    | cons state rest =>
      obtain ⟨b, hb, rfl⟩ : ∃ b, s.bridge.onState state = some b ∧ { s with bridge := b, states := rest } = s' := by
        simpa [hst] using hc
      obtain rfl := Audio.Bridge.onState_some hb
      refine outside_bridge ?_ ?_
      · exact List.prefix_refl _
      · simp [told, hst, Audio.Waiter.state?]
  | capture data =>
    obtain ⟨-, hc⟩ : s.bridge.running = true ∧ s.stepBridge (.capture data) = some s' := by
      simpa [Audio.Label.atServe] using hs
    simp only [Audio.System.stepBridge] at hc
    cases hb : s.bridge.onCapture data with
    | none =>
      simp only [hb, Option.some.injEq] at hc
      subst hc
      exact outside_bridge (List.prefix_refl _) rfl
    | some b =>
      simp only [hb, Option.some.injEq] at hc
      subst hc
      obtain ⟨ho, hq⟩ := onCapture_keeps hb
      exact outside_bridge (ho ▸ List.prefix_refl _) (by simp [told, ho, hq])
  | bridgeDatagram data =>
    obtain ⟨-, b, hb, rfl⟩ : s.bridge.running = true ∧
        ∃ b, s.bridge.onDatagram data = some b ∧ { s with bridge := b } = s' := by
      simpa [Audio.Label.atServe, Audio.System.stepBridge] using hs
    rcases Audio.Bridge.onDatagram_cases hb with rfl | ⟨p, -, -, -, rfl⟩
    · exact outside_bridge (List.prefix_refl _) rfl
    · refine outside_bridge ?_ ?_
      · exact List.prefix_refl _
      · simp [told, Audio.Waiter.state?]
  | advance =>
    obtain ⟨-, b, hb, rfl⟩ : s.bridge.running = true ∧ ∃ b, s.bridge.advance = some b ∧ { s with bridge := b } = s' := by
      simpa [Audio.Label.atServe, Audio.System.stepBridge] using hs
    rcases Audio.Bridge.advance_cases hb with ⟨p, rest, hq, rfl⟩ | ⟨state, rest, hq, -, rfl⟩ | ⟨state, rest, hq, -, rfl⟩
    · refine outside_bridge ?_ ?_
      · exact List.prefix_append _ _
      · simp [told, hq, List.filterMap_cons, Audio.Waiter.state?, stateOf?]
    · refine outside_bridge ?_ ?_
      · exact List.prefix_append _ _
      · simp [told, hq, Audio.Waiter.state?, stateOf?]
    · refine outside_bridge ?_ ?_
      · exact List.prefix_refl _
      · simp [told]
  | bridgeEnds =>
    obtain ⟨-, rfl⟩ : s.bridge.running = true ∧ { s with bridge := { s.bridge with running := false } } = s' := by
      simpa [Audio.Label.atServe, Audio.System.stepBridge] using hs
    exact outside_bridge (List.prefix_refl _) rfl

theorem mem_clientsAfter {r : Audio.Serve} {id : Nat} {capture active : Bool} {x : Nat × Bool} :
    x ∈ r.clientsAfter id capture active ↔ if (id, capture) = x then active = true else x ∈ r.clients := by
  unfold Audio.Serve.clientsAfter
  by_cases hx : (id, capture) = x
  · subst hx
    cases active with
    | true => simp only [if_true, List.mem_insert_self]
    | false => simp
  · have hne : x ≠ (id, capture) := Ne.symm hx
    cases active with
    | true => simp [hne, hx]
    | false => simp [hne, hx]

/-- `serve_route` reads that a device runs or does not. -/
theorem running_step {s s' : Audio.System} {id : Nat} {capture active : Bool}
    (hs : Audio.step s (.running id capture active) = some s') :
    s.serve.running = true ∧ s'.bridge = s.bridge ∧ s'.serve.sent = s.serve.sent ∧
      s'.serve.captured = s.serve.captured ∧ Says s s' ∧
      (s'.serve.clients = s.serve.clients ∧ s'.serve.running = false ∨
        s'.serve.clients = s.serve.clientsAfter id capture active) := by
  obtain ⟨hr, hstep⟩ : s.serve.running = true ∧ s.stepServe (.running id capture active) = some s' := by
    simpa [Audio.step, Audio.Label.atServe] using hs
  refine ⟨hr, ?_⟩
  simp only [Audio.System.stepServe] at hstep
  cases hon : s.serve.onRunning id capture active with
  | none =>
    simp only [hon, Option.some.injEq] at hstep
    subst hstep
    exact ⟨rfl, rfl, rfl, .inl ⟨rfl, rfl⟩, .inl ⟨rfl, rfl⟩⟩
  | some q =>
    obtain ⟨r, wrote⟩ := q
    obtain ⟨_, _, -, -, heq, hwrote⟩ := Audio.onRunning_some hon
    have hsent : r.sent = s.serve.sent := by rw [heq]
    have hcaptured : r.captured = s.serve.captured := by rw [heq]
    have hclients : r.clients = s.serve.clientsAfter id capture active := by rw [heq]
    cases wrote with
    | true =>
      simp only [hon, Option.some.injEq] at hstep
      subst hstep
      exact ⟨rfl, hsent, hcaptured, .inr (by simp [told]), .inr hclients⟩
    | false =>
      simp only [hon, Option.some.injEq] at hstep
      subst hstep
      refine ⟨rfl, hsent, hcaptured, .inl ⟨rfl, ?_⟩, .inr hclients⟩
      simpa using hwrote.symm

/-- `serve_route` reads samples: they go out whole, or not at all. -/
theorem playback_step {token : Nat} {s s' : Audio.System} {pcm : Lib.Bytes} (ht : token < 2 ^ 64) (hi : Audio.Inv token s)
    (hs : Audio.step s (.playback pcm) = some s') :
    s'.bridge = s.bridge ∧ s'.states = s.states ∧ s'.serve.clients = s.serve.clients ∧
      s'.serve.captured = s.serve.captured ∧ s'.serve.state = s.serve.state ∧
      (s'.serve.running = true → s.serve.running = true) ∧
      (s'.serve.sent = s.serve.sent ∨
        (Audio.emitted token s'.serve.sent).map Audio.Packet.pcm =
          (Audio.emitted token s.serve.sent).map Audio.Packet.pcm ++ [pcm]) := by
  obtain ⟨hr, hstep⟩ : s.serve.running = true ∧ s.stepServe (.playback pcm) = some s' := by
    simpa [Audio.step, Audio.Label.atServe] using hs
  simp only [Audio.System.stepServe] at hstep
  cases hon : s.serve.onPlayback pcm with
  | none =>
    simp only [hon, Option.some.injEq] at hstep
    subst hstep
    exact ⟨rfl, rfl, rfl, rfl, rfl, fun _ => hr, .inl rfl⟩
  | some r =>
    simp only [hon, Option.some.injEq] at hstep
    subst hstep
    unfold Audio.Serve.onPlayback at hon
    cases hp : Audio.packet s.serve.token s.serve.state.playbackEpoch s.serve.playbackPosition pcm with
    | none =>
      simp only [hp, Option.some.injEq] at hon
      subst hon
      exact ⟨rfl, rfl, rfl, rfl, rfl, fun _ => hr, .inl rfl⟩
    | some data =>
      rw [hi.serve.token_eq] at hp
      have hu := Audio.unpack_packet hp ht hi.serve.playbackEpoch_lt hi.serve.position_lt
      rw [← hi.serve.token_eq] at hp
      simp only [hp] at hon
      cases ha : Audio.checkedAdd s.serve.playbackPosition (pcm.length / 2) with
      | none => simp [ha] at hon
      | some position =>
        simp only [ha, Option.some.injEq] at hon
        subst hon
        refine ⟨rfl, rfl, rfl, rfl, rfl, fun _ => hr, .inr ?_⟩
        simp only
        rw [Audio.emitted_snoc hu, List.map_append, List.map_singleton]

/-! ## The end where the applications are -/

structure Front (token : Nat) (r : Route) (s : Audio.System) : Prop where
  media : Audio.Inv token s
  owned : Owned r
  tracked : s.serve.running = true → Tracked r s.serve.clients
  heard : Heard r s.serve.captured
  honest : Honest r
  clients : ∀ id, (id, true) ∈ s.serve.clients → Asked r
  states : ∀ st ∈ told s, st.capture = true → Asked r
  last : (told s).getLastD .default = s.serve.state
  sent : ((Audio.emitted token s.serve.sent).map Audio.Packet.pcm ++ r.events.filterMap Event.pcm?).Sublist
    (r.played.map Prod.snd)

theorem front_init (token now : Nat) : Front token (init token now).route (init token now).audio where
  media := .init token
  owned := owned_open
  tracked _ := tracked_open
  heard k d hk := by simp [init, Route.open] at hk
  honest := ⟨fun k d hk => by simp [init, Route.open] at hk, fun id hm => by simp [init, Route.open] at hm⟩
  clients id hm := by simp [init, Audio.init, Audio.Serve.open] at hm
  states st hm := by simp [init, Audio.init, told, Audio.Bridge.open] at hm
  last := rfl
  sent := List.Sublist.refl _

theorem asked_of_clients {clients : List (Nat × Bool)} {asked : Prop} (h : ∀ id, (id, true) ∈ clients → asked)
    (hc : Audio.anyRunning clients true = true) : asked := by
  rw [Audio.anyRunning, List.any_eq_true] at hc
  obtain ⟨⟨id, capture⟩, hm, hcapture⟩ := hc
  obtain rfl : capture = true := by simpa using hcapture
  exact h id hm

theorem Front.state {token : Nat} {r : Route} {s : Audio.System} (h : Front token r s) (hc : s.serve.state.capture = true) :
    Asked r := by
  rw [h.media.serve.captures] at hc
  exact asked_of_clients h.clients hc

theorem Front.route {token : Nat} {r r' : Route} {s : Audio.System} (h : Front token r s) {l : RouteLabel}
    (hs : r.step s.serve.running s.serve.captured l = some r')
    (hfresh : l.Fresh r) : Front token r' s := by
  have he := effect_of_step hs hfresh
  have hmono : Asked r → Asked r' := fun ha => ha.effect he
  refine ⟨h.media, h.owned.effect he, fun hr => (h.tracked hr).effect h.owned he hr, h.heard.effect he,
    h.honest.effect he, fun id hm => hmono (h.clients id hm), fun st hm hc => hmono (h.states st hm hc), h.last, ?_⟩
  rcases played_effect h.owned he with ⟨hp, hq⟩ | ⟨id, pcm, -, hp, hq⟩
  · rw [hp, hq]
    exact h.sent
  · rw [hp, hq, ← List.append_assoc, List.map_append]
    exact h.sent.append (List.Sublist.refl _)

/-- What the media do meanwhile. -/
theorem Front.outside {token : Nat} {r : Route} {s s' : Audio.System} (h : Front token r s) (ho : Outside s s')
    (hi : Audio.Inv token s') : Front token r s' where
  media := hi
  owned := h.owned
  tracked := by
    intro hr
    rw [ho.clients]
    exact h.tracked (ho.running hr)
  heard := h.heard.mono ho.captured
  honest := h.honest
  clients := by
    rw [ho.clients]
    exact h.clients
  states := by
    intro st hm hc
    rcases ho.last with ⟨ht, -⟩ | ht
    · rw [ht] at hm
      exact h.states st hm hc
    · rw [ht] at hm
      rcases List.mem_append.mp hm with hm | hm
      · exact h.states st hm hc
      · rw [List.mem_singleton.mp hm, hi.serve.captures, ho.clients, ← h.media.serve.captures] at hc
        exact h.state hc
  last := by
    rcases ho.last with ⟨ht, hst⟩ | ht
    · rw [ht, hst]
      exact h.last
    · rw [ht, List.getLastD_concat]
  sent := by
    rw [ho.sent]
    exact h.sent

/-- A word of the sender that names no capture nobody asked for. -/
theorem says_states {s s' : Audio.System} {asked : Prop} (hs : Says s s') (h : ∀ st ∈ told s, st.capture = true → asked)
    (hnew : s'.serve.state.capture = true → asked) : ∀ st ∈ told s', st.capture = true → asked := by
  intro st hm hc
  rcases hs with ⟨ht, -⟩ | ht
  · rw [ht] at hm
    exact h st hm hc
  · rw [ht] at hm
    rcases List.mem_append.mp hm with hm | hm
    · exact h st hm hc
    · rw [List.mem_singleton.mp hm] at hc
      exact hnew hc

theorem says_last {s s' : Audio.System} (hs : Says s s') (h : (told s).getLastD .default = s.serve.state) :
    (told s').getLastD .default = s'.serve.state := by
  rcases hs with ⟨ht, hst⟩ | ht
  · rw [ht, hst]
    exact h
  · rw [ht, List.getLastD_concat]

/-- The next event of the channel. -/
theorem Front.event {token : Nat} {r : Route} {s s' : Audio.System} {e : Event} {rest : List Event} (ht : token < 2 ^ 64)
    (h : Front token r s) (he : r.events = e :: rest) (hs : Audio.step s e.label = some s') :
    Front token { r with events := rest } s' := by
  have hi' := (Audio.step_inv ht h.media hs).1
  have hhonest : Honest { r with events := rest } :=
    ⟨h.honest.active, fun id hm => h.honest.events id (by rw [he]; exact List.mem_cons_of_mem _ hm)⟩
  cases e with
  | running id capture active =>
    obtain ⟨hr, hb, hsent, hcaptured, hsays, hclients⟩ := running_step hs
    have hmem : ∀ i, (i, true) ∈ s'.serve.clients → Asked r := by
      intro i hm
      rcases hclients with ⟨hc, -⟩ | hc
      · rw [hc] at hm
        exact h.clients i hm
      · rw [hc, mem_clientsAfter] at hm
        split_ifs at hm with hx
        · cases hx
          subst hm
          exact h.honest.events _ (by rw [he]; exact List.mem_cons_self)
        · exact h.clients i hm
    have hstate : s'.serve.state.capture = true → Asked r := by
      rw [hi'.serve.captures]
      exact asked_of_clients hmem
    refine ⟨hi', ⟨h.owned.unique, h.owned.plays, h.owned.owner⟩, ?_, hcaptured ▸ h.heard, hhonest, hmem,
      says_states hsays h.states hstate, says_last hsays h.last, ?_⟩
    · intro hr'
      rcases hclients with ⟨-, hfalse⟩ | hc
      · rw [hfalse] at hr'
        cases hr'
      · exact (h.tracked hr).read_running he fun x => by rw [hc, mem_clientsAfter]
    · rw [hsent]
      have hq := h.sent
      rw [he] at hq
      exact hq
  | playback pcm =>
    obtain ⟨hb, hstates, hclients, hcaptured, hstate, hr, hsent⟩ := playback_step ht h.media hs
    have htold : told s' = told s := by simp [told, hb, hstates]
    have hq := h.sent
    rw [he] at hq
    refine ⟨hi', ⟨h.owned.unique, h.owned.plays, h.owned.owner⟩, ?_, hcaptured ▸ h.heard, hhonest, hclients ▸ h.clients,
      htold ▸ h.states, ?_, ?_⟩
    · intro hr'
      rw [hclients]
      exact (h.tracked (hr hr')).read_playback he
    · rw [htold, hstate]
      exact h.last
    · rcases hsent with hsent | hsent
      · rw [hsent]
        exact ((List.Sublist.refl _).append (List.sublist_cons_self pcm _)).trans hq
      · rw [hsent, List.append_assoc]
        exact hq

/-! ## The end where the Mac's devices are -/

/-- The samples of the frames. -/
def samplesOf (frames : List Audio.Frame) : List MacAudio.Sample :=
  (frames.filterMap Audio.Frame.output?).flatMap fun f => MacAudio.samplesIn f.1 f.2

/-- The helper goes to the State it has read last, listens only if somebody asked for the microphone, and has put
into its buffer samples of the frames it has read, in their order and none twice. -/
structure Back (asked : Prop) (frames : List Audio.Frame) (h : MacAudio.Helper) : Prop where
  inv : h.Inv
  target : h.phase ≠ .ended → h.target = (frames.filterMap stateOf?).getLastD .default
  listening : h.Listening → asked
  buffered : h.buffered.Sublist (samplesOf frames)

theorem back_open (asked : Prop) (now : Nat) : Back asked [] (.open now) where
  inv := MacAudio.Helper.inv_open now
  target _ := rfl
  listening := by
    intro hl
    rcases hl with hl | hl | hl | hl | hl
    · cases hl
    · cases hl
    · cases hl
    · exact absurd rfl hl
    · exact absurd rfl hl
  buffered := List.Sublist.refl _

theorem Back.mono {asked asked' : Prop} {frames : List Audio.Frame} {h : MacAudio.Helper} (hb : Back asked frames h)
    (ha : asked → asked') : Back asked' frames h :=
  ⟨hb.inv, hb.target, fun hl => ha (hb.listening hl), hb.buffered⟩

section
variable {F : Rounding} {asked : Prop} {frames : List Audio.Frame} {h h' : MacAudio.Helper}

theorem Back.own (hb : Back asked frames h) {l : MacAudio.Label} (hl : ∀ f now ok, l ≠ .message f now ok)
    (hs : MacAudio.step F h l = some h') : Back asked frames h' := by
  have hflow := MacAudio.flow_step F hb.inv hl hs
  refine ⟨MacAudio.Helper.inv_step F hs hb.inv, ?_, ?_, ?_⟩
  · intro hne
    obtain ⟨hne', ht⟩ := hflow.target hne
    exact ht.trans (hb.target hne')
  · intro hlisten
    rcases hflow.listening hlisten with hlisten | ⟨st, hst, -⟩
    · exact hb.listening hlisten
    · cases hst
  · have hsub := hflow.buffered
    rw [List.append_nil] at hsub
    exact hsub.trans hb.buffered

/-- The next frame. -/
theorem Back.message (hb : Back asked frames h) {f : Audio.Frame} {now : Nat} {ok : Bool}
    (hs : MacAudio.step F h (.message f now ok) = some h') (hf : ∀ st, f = .events st → st.capture = true → asked) :
    Back asked (frames ++ [f]) h' := by
  have hinv := MacAudio.Helper.inv_step F hs hb.inv
  cases f with
  | events next =>
    obtain ⟨hp, rfl⟩ : h.phase = .waiting ∧ h.onEvents F next now ok = h' := by simpa [MacAudio.step] using hs
    have hflow := MacAudio.flow_onEvents F hb.inv hp next now ok
    refine ⟨hinv, ?_, ?_, ?_⟩
    · intro hne
      rw [(hflow.target hne).2, List.filterMap_append]
      simp [stateOf?]
    · intro hlisten
      rcases hflow.listening hlisten with hlisten | ⟨st, hst, hc⟩
      · exact hb.listening hlisten
      · cases hst
        exact hf next rfl hc
    · have hsub := hflow.buffered
      rw [List.append_nil] at hsub
      have hsame : samplesOf (frames ++ [.events next]) = samplesOf frames := by
        simp [samplesOf, Audio.Frame.output?]
      rw [hsame]
      exact hsub.trans hb.buffered
  | output epoch pcm =>
    obtain ⟨hp, rfl⟩ : h.phase = .waiting ∧ h.onOutput epoch pcm = h' := by simpa [MacAudio.step] using hs
    have hflow := MacAudio.flow_onOutput hp epoch pcm
    refine ⟨hinv, ?_, ?_, ?_⟩
    · intro hne
      obtain ⟨hne', ht⟩ := hflow.target hne
      have hsame : (frames ++ [Audio.Frame.output epoch pcm]).filterMap stateOf? = frames.filterMap stateOf? := by
        simp [stateOf?]
      rw [ht, hsame]
      exact hb.target hne'
    · intro hlisten
      rcases hflow.listening hlisten with hlisten | ⟨st, hst, -⟩
      · exact hb.listening hlisten
      · cases hst
    · have hmore : samplesOf (frames ++ [.output epoch pcm]) = samplesOf frames ++ MacAudio.samplesIn epoch pcm := by
        simp [samplesOf, Audio.Frame.output?]
      rw [hmore]
      exact hflow.buffered.trans (hb.buffered.append (List.Sublist.refl _))

end

/-! ## The whole path -/

structure Inv (token : Nat) (p : Path) : Prop where
  front : Front token p.route p.audio
  back : Back (Asked p.route) (p.audio.bridge.out.take p.read) p.helper
  read : p.read ≤ p.audio.bridge.out.length

theorem inv_init (token now : Nat) : Inv token (init token now) where
  front := front_init token now
  back := back_open _ now
  read := Nat.zero_le _

/-- Names of devices are random, and taken to be different. -/
def Fresh (p : Path) : Label → Prop
  | .route l => l.Fresh p.route
  | _ => True

/-- What `bridge` has written stays written. -/
theorem take_written {α : Type*} {l l' : List α} {n : Nat} (h : l <+: l') (hn : n ≤ l.length) : l'.take n = l.take n := by
  obtain ⟨new, rfl⟩ := h
  exact List.take_append_of_le_length hn

theorem Inv.audio {token : Nat} {p : Path} (h : Inv token p) {s : Audio.System} {r : Route} {uploaded : Nat}
    (hf : Front token r s) (ha : Asked p.route → Asked r) (ho : p.audio.bridge.out <+: s.bridge.out) :
    Inv token { p with audio := s, route := r, uploaded := uploaded } where
  front := hf
  back := by
    simp only [take_written ho h.read]
    exact h.back.mono ha
  read := h.read.trans ho.length_le

theorem inv_step {F : Rounding} {token : Nat} {p p' : Path} {l : Label} (ht : token < 2 ^ 64) (hfresh : Fresh p l)
    (hs : step F p l = some p') (h : Inv token p) : Inv token p' := by
  cases l with
  | route l =>
    obtain ⟨r, hr, rfl⟩ := Option.map_eq_some_iff.mp hs
    have hfront := h.front.route hr hfresh
    exact ⟨hfront, h.back.mono fun ha => ha.effect (effect_of_step hr hfresh), h.read⟩
  | event =>
    simp only [step] at hs
    cases he : p.route.events with
    | nil => simp [he] at hs
    | cons e rest =>
      simp only [he] at hs
      obtain ⟨s, hstep, rfl⟩ := Option.map_eq_some_iff.mp hs
      refine h.audio (h.front.event ht he hstep) (fun ha => ha) ?_
      cases e with
      | running id capture active =>
        obtain ⟨-, hb, -⟩ := running_step hstep
        exact hb ▸ List.prefix_refl _
      | playback pcm =>
        obtain ⟨hb, -⟩ := playback_step ht h.front.media hstep
        exact hb ▸ List.prefix_refl _
  | audio a =>
    simp only [step] at hs
    split_ifs at hs with ha
    obtain ⟨s, hstep, rfl⟩ := Option.map_eq_some_iff.mp hs
    have ho : Outside p.audio s := by
      refine outside_of_step hstep ?_ ?_
      · rintro id capture active rfl
        cases ha
      · rintro pcm rfl
        cases ha
    exact h.audio (h.front.outside ho (Audio.step_inv ht h.front.media hstep).1) (fun ha => ha) ho.out
  | frame now ok =>
    simp only [step] at hs
    cases hf : p.audio.bridge.out[p.read]? with
    | none => simp [hf] at hs
    | some f =>
      simp only [hf] at hs
      obtain ⟨q, hq, rfl⟩ := Option.map_eq_some_iff.mp hs
      have htake : p.audio.bridge.out.take (p.read + 1) = p.audio.bridge.out.take p.read ++ [f] := by
        rw [List.take_add_one, hf]
        rfl
      refine ⟨h.front, ?_, lt_of_getElem?_some hf⟩
      simp only [htake]
      refine h.back.message hq ?_
      rintro st rfl hc
      have hmem : st ∈ told p.audio := by
        have hst : st ∈ p.audio.bridge.out.filterMap stateOf? :=
          List.mem_filterMap.mpr ⟨_, List.mem_of_getElem? hf, rfl⟩
        exact List.mem_append_left _ (List.mem_append_left _ hst)
      exact h.front.states st hmem hc
  | helper l =>
    cases l with
    | message f now ok => cases hs
    | _ =>
      obtain ⟨q, hq, rfl⟩ := Option.map_eq_some_iff.mp hs
      exact ⟨h.front, h.back.own (fun _ _ _ heq => by cases heq) hq, h.read⟩
  | upload =>
    simp only [step] at hs
    cases hd : p.helper.captured.taken[p.uploaded]? with
    | none => simp [hd] at hs
    | some data =>
      simp only [hd] at hs
      obtain ⟨s, hstep, rfl⟩ := Option.map_eq_some_iff.mp hs
      have ho : Outside p.audio s := outside_of_step hstep (fun _ _ _ heq => by cases heq) (fun _ heq => by cases heq)
      exact h.audio (h.front.outside ho (Audio.step_inv ht h.front.media hstep).1) (fun ha => ha) ho.out

theorem inv_of_run {F : Rounding} {token : Nat} (ht : token < 2 ^ 64) {now : Nat} {ls : List Label} {p : Path}
    (hfresh : Meets (step F) Fresh (init token now) ls) (hrun : exec (step F) (init token now) ls = some p) : Inv token p :=
  exec_inv_of_meets (fun _ _ _ hf hs hi => inv_step ht hf hs hi) hfresh hrun (inv_init token now)

/-! ## Playing -/

instance decidableFreshRoute (r : Route) (l : RouteLabel) : Decidable (l.Fresh r) := by
  unfold RouteLabel.Fresh
  split <;> infer_instance

instance decidableFresh (p : Path) (l : Label) : Decidable (Fresh p l) := by
  unfold Fresh
  split <;> infer_instance

/-- One application records and another plays; a third is refused. Two samples go all the way, and the first
application goes. -/
def oneTune : List Label :=
  [.route (.join 1 true), .route (.message 0 [1]), .route (.send 0), .event,
    .audio .control, .audio .advance, .audio .advance, .frame 0 true, .helper (.go 0 true), .helper (.go 0 true),
    .route (.join 2 false), .route (.message 1 [1]), .route (.send 1), .event,
    .audio .control, .audio .advance, .audio .advance,
    .frame 0 true, .helper (.go 0 true), .helper (.go 0 true), .helper (.go 0 true),
    .route (.join 3 false), .route (.message 2 [1]), .route (.stop (3, false)), .event,
    .route (.message 1 [2, 100, 0, 44, 1]), .event,
    .audio (.bridgeDatagram (leBytes 8 7 ++ leBytes 8 1 ++ leBytes 8 0 ++ [100, 0, 44, 1])), .audio .advance, .frame 0 true,
    .route (.leave 0), .route (.stop (1, true)), .event, .audio .control, .audio .advance, .audio .advance,
    .frame 0 true, .helper (.go 0 true), .helper (.go 0 true)]

theorem played_step {F : Rounding} {p p' : Path} {l : Label} (h : Owned p.route) (hs : step F p l = some p') :
    p'.route.played = p.route.played ∨
      ∃ id pcm, p.route.owner = some id ∧ p'.route.played = p.route.played ++ [(id, pcm)] := by
  cases l with
  | route l =>
    obtain ⟨r, hr, rfl⟩ := Option.map_eq_some_iff.mp hs
    cases l with
    | join id capture =>
      cases hr
      exact .inl rfl
    | _ =>
      rcases played_effect h (effect_of_step hr trivial) with ⟨hp, -⟩ | ⟨id, pcm, ho, hp, -⟩
      · exact .inl hp
      · exact .inr ⟨id, pcm, ho, hp⟩
  | event =>
    simp only [step] at hs
    cases he : p.route.events with
    | nil => simp [he] at hs
    | cons e rest =>
      simp only [he] at hs
      obtain ⟨s, -, rfl⟩ := Option.map_eq_some_iff.mp hs
      exact .inl rfl
  | audio a =>
    simp only [step] at hs
    split_ifs at hs
    obtain ⟨s, -, rfl⟩ := Option.map_eq_some_iff.mp hs
    exact .inl rfl
  | frame now ok =>
    simp only [step] at hs
    cases hf : p.audio.bridge.out[p.read]? with
    | none => simp [hf] at hs
    | some f =>
      simp only [hf] at hs
      obtain ⟨q, -, rfl⟩ := Option.map_eq_some_iff.mp hs
      exact .inl rfl
  | helper l =>
    cases l with
    | message f now ok => cases hs
    | _ =>
      obtain ⟨q, -, rfl⟩ := Option.map_eq_some_iff.mp hs
      exact .inl rfl
  | upload =>
    simp only [step] at hs
    cases hd : p.helper.captured.taken[p.uploaded]? with
    | none => simp [hd] at hs
    | some data =>
      simp only [hd] at hs
      obtain ⟨s, -, rfl⟩ := Option.map_eq_some_iff.mp hs
      exact .inl rfl

/-- The applications take turns: of the live devices that play, none is active but the owner, and what the route
queues is the owner's. What goes out are queued samples in their order, none twice, and what an application hears are
packets of the broadcast, whose spans of the clock do not overlap and only go forward. -/
theorem one_application_plays {F : Rounding} (token : UInt64) {now : Nat} {ls : List Label} {p : Path}
    (hfresh : Meets (step F) Fresh (init token.toNat now) ls) (hrun : exec (step F) (init token.toNat now) ls = some p) :
    (∀ d ∈ p.route.devices, d.Live → d.capture = false → (d.active = true ↔ p.route.owner = some d.id)) ∧
    (∀ (j k : Nat) (d e : Device), p.route.devices[j]? = some d → p.route.devices[k]? = some e → d.Live → e.Live →
      d.capture = false → e.capture = false → d.active = true → e.active = true → j = k) ∧
    (∀ l p', step F p l = some p' → p'.route.played = p.route.played ∨
      ∃ id pcm, p.route.owner = some id ∧ p'.route.played = p.route.played ++ [(id, pcm)]) ∧
    ((Audio.emitted token.toNat p.audio.serve.sent).map Audio.Packet.pcm).Sublist (p.route.played.map Prod.snd) ∧
    ∀ d ∈ p.route.devices, d.heard.Sublist p.audio.serve.captured ∧ InOrder (d.heard.map Audio.Packet.span) := by
  have hi := inv_of_run token.toNat_lt hfresh hrun
  have howned := hi.front.owned
  refine ⟨?_, ?_, ?_, ?_, ?_⟩
  · intro d hd hlive hc
    obtain ⟨k, hk⟩ := List.getElem?_of_mem hd
    exact howned.plays k d hk hlive hc
  · intro j k d e hj hk hd he hdc hec hda hea
    have h1 := (howned.plays j d hj hd hdc).mp hda
    have h2 := (howned.plays k e hk he hec).mp hea
    exact howned.unique j k d e hj hk (Option.some.inj (h1.symm.trans h2))
  · intro l p' hs
    exact played_step howned hs
  · exact (List.sublist_append_left _ _).trans hi.front.sent
  · intro d hd
    obtain ⟨k, hk⟩ := List.getElem?_of_mem hd
    have hsub := (hi.front.heard k d hk).2.trans (List.take_sublist _ _)
    exact ⟨hsub, InOrder.sublist hi.front.media.serve.tracks.1 (hsub.map _)⟩

theorem one_application_plays_tune : ∃ p, exec (step .exact) (init (7 : UInt64).toNat 0) oneTune = some p ∧
    p.route.owner = some 2 ∧ p.route.played = [(2, [100, 0, 44, 1])] ∧ p.audio.serve.sent.length = 1 ∧
    ∀ d ∈ p.route.devices, d.Live → d.capture = false → (d.active = true ↔ p.route.owner = some d.id) := by
  have hrun : exec (step .exact) (init (7 : UInt64).toNat 0) oneTune =
      some ((exec (step .exact) (init (7 : UInt64).toNat 0) oneTune).get (by decide +kernel)) := (Option.some_get _).symm
  have hfacts := one_application_plays 7 (by decide +kernel) hrun
  exact ⟨_, hrun, by decide +kernel, by decide +kernel, by decide +kernel, hfacts.1⟩

/-! ## Settling -/

/-- Nothing is under way any more, and all of the path still runs. -/
structure Settled (p : Path) : Prop where
  serve : p.audio.serve.running = true
  events : p.route.events = []
  stopping : p.route.stopping = []
  devices : ∀ d ∈ p.route.devices, d.phase ≠ .sending
  states : p.audio.states = []
  queue : p.audio.bridge.queue = []
  read : p.read = p.audio.bridge.out.length
  helper : p.helper.phase = .waiting

theorem Settled.helper_state {token : Nat} {p : Path} (h : Settled p) (hi : Inv token p) :
    p.helper.state = p.audio.serve.state := by
  have htarget := hi.back.target (by simp [h.helper])
  have hlast := hi.front.last
  have htold : told p.audio = p.audio.bridge.out.filterMap stateOf? := by
    simp [told, h.queue, h.states]
  rw [h.read, List.take_length, ← htold, hlast] at htarget
  simpa [MacAudio.Helper.target, h.helper] using htarget

/-- `serve_route` knows the devices that run. -/
theorem Settled.running {token : Nat} {p : Path} (h : Settled p) (hi : Inv token p) (capture : Bool) :
    Audio.anyRunning p.audio.serve.clients capture = true ↔
      ∃ d ∈ p.route.devices, d.Live ∧ d.capture = capture ∧ d.active = true := by
  have hknown := (hi.front.tracked h.serve).settled h.events h.stopping
    fun k d hk => h.devices d (List.mem_of_getElem? hk)
  rw [Audio.anyRunning, List.any_eq_true]
  constructor
  · rintro ⟨x, hx, hxc⟩
    obtain ⟨k, d, hk, hlive, hactive, rfl⟩ := (hknown x).mp hx
    exact ⟨d, List.mem_of_getElem? hk, hlive, by simpa [Device.client] using hxc, hactive⟩
  · rintro ⟨d, hd, hlive, hc, hactive⟩
    obtain ⟨k, hk⟩ := List.getElem?_of_mem hd
    exact ⟨d.client, (hknown _).mpr ⟨k, d, hk, hlive, hactive, rfl⟩, by simpa [Device.client] using hc⟩

/-- Whatever happened on the way: once nothing is under way, the Mac records exactly while an application records,
and plays exactly while one plays or what it played drains. Before that the microphone is on, or samples of it are
on their way, only if an application has asked for it; and all that was ever put into the Mac's buffer are samples of
the packets that `bridge` admitted, in their order and none twice. -/
theorem mac_follows_applications {F : Rounding} (token : UInt64) {now : Nat} {ls : List Label} {p : Path}
    (hfresh : Meets (step F) Fresh (init token.toNat now) ls) (hrun : exec (step F) (init token.toNat now) ls = some p) :
    (Settled p →
      (p.helper.recording = true ↔ ∃ d ∈ p.route.devices, d.Live ∧ d.capture = true ∧ d.active = true) ∧
      (p.helper.playing = true ↔
        (∃ d ∈ p.route.devices, d.Live ∧ d.capture = false ∧ d.active = true) ∨ p.helper.drainUntil.isSome = true)) ∧
    (p.helper.Listening → Asked p.route) ∧
    p.helper.buffered.Sublist (p.audio.bridge.admitted.flatMap fun q => MacAudio.samplesIn q.epoch q.pcm) := by
  have hi := inv_of_run token.toNat_lt hfresh hrun
  refine ⟨?_, hi.back.listening, ?_⟩
  · intro hset
    have hflags := hi.back.inv.flags
    unfold MacAudio.Helper.Flags at hflags
    rw [hset.helper] at hflags
    obtain ⟨hrecording, hplaying⟩ := hflags
    rw [hset.helper_state hi] at hrecording hplaying
    rw [hrecording, hplaying, hi.front.media.serve.captures, hi.front.media.serve.plays, Bool.or_eq_true]
    exact ⟨hset.running hi true, or_congr_left (hset.running hi false)⟩
  · have hwritten := hi.front.media.bridge.written
    have htake : (samplesOf (p.audio.bridge.out.take p.read)).Sublist (samplesOf p.audio.bridge.out) :=
      ((List.take_sublist _ _).filterMap _).flatMap _
    have hsub : (samplesOf p.audio.bridge.out).Sublist
        ((p.audio.bridge.admitted.map fun q => (q.epoch, q.pcm)).flatMap fun f => MacAudio.samplesIn f.1 f.2) := by
      rw [← hwritten]
      exact (List.sublist_append_left _ _).flatMap _
    rw [List.flatMap_map] at hsub
    exact (hi.back.buffered.trans htake).trans hsub

theorem mac_follows_applications_tune : ∃ p, exec (step .exact) (init (7 : UInt64).toNat 0) oneTune = some p ∧ Settled p ∧
    p.helper.recording = false ∧ p.helper.playing = true ∧ p.helper.buffered = [⟨1, 100⟩, ⟨1, 300⟩] ∧
    (p.helper.recording = true ↔ ∃ d ∈ p.route.devices, d.Live ∧ d.capture = true ∧ d.active = true) := by
  have hrun : exec (step .exact) (init (7 : UInt64).toNat 0) oneTune =
      some ((exec (step .exact) (init (7 : UInt64).toNat 0) oneTune).get (by decide +kernel)) := (Option.some_get _).symm
  have hset : Settled ((exec (step .exact) (init (7 : UInt64).toNat 0) oneTune).get (by decide +kernel)) := by
    constructor <;> decide +kernel
  have hfacts := mac_follows_applications 7 (by decide +kernel) hrun
  exact ⟨_, hrun, hset, by decide +kernel, by decide +kernel, by decide +kernel, (hfacts.1 hset).1⟩

end Mux.AudioPath
