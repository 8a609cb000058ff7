import Mux.Audio

/-!
# The media law of an audio route

A packet is opened by its own token and no other, and packs again as it was. Whatever datagrams
arrive and however late the State messages are, each end passes on only packets of its own token
and of the epoch it is in, in order and without repeating a sample.
-/

namespace Mux.Audio

open Lib

/-! ## Packets -/

theorem packet_some {token epoch position : Nat} {pcm data : Lib.Bytes}
    (h : packet token epoch position pcm = some data) :
    data = leBytes 8 token ++ leBytes 8 epoch ++ leBytes 8 position ++ pcm ∧
      2 ≤ pcm.length ∧ pcm.length ≤ maxPcm ∧ pcm.length % 2 = 0 := by
  unfold packet at h
  by_cases hc : pcm.isEmpty || decide (maxPcm < pcm.length) || decide (pcm.length % 2 ≠ 0)
  · rw [if_pos hc] at h
    cases h
  · rw [if_neg hc] at h
    have hne : pcm.length ≠ 0 := by
      intro h0
      simp [List.length_eq_zero_iff.mp h0] at hc
    simp only [Bool.or_eq_true, decide_eq_true_eq, not_or, Nat.not_lt] at hc
    exact ⟨(Option.some.inj h).symm, by omega, by omega, by omega⟩

theorem unpack_packet {token epoch position : Nat} {pcm data : Lib.Bytes}
    (h : packet token epoch position pcm = some data) (ht : token < 2 ^ 64) (he : epoch < 2 ^ 64)
    (hp : position < 2 ^ 64) :
    unpack data token = some { epoch := epoch, position := position, pcm := pcm } := by
  obtain ⟨hd, h1, h2, h3⟩ := packet_some h
  have ht' : leValue (leBytes 8 token) = token := leValue_leBytes ht
  have he' : leValue (leBytes 8 epoch) = epoch := leValue_leBytes he
  have hp' : leValue (leBytes 8 position) = position := leValue_leBytes hp
  rw [List.append_assoc, List.append_assoc] at hd
  have d8 : data.drop 8 = leBytes 8 epoch ++ (leBytes 8 position ++ pcm) := by
    rw [hd, List.drop_left' (leBytes_length 8 token)]
  have d16 : data.drop 16 = leBytes 8 position ++ pcm := by
    rw [show 16 = 8 + 8 from rfl, ← List.drop_drop, d8, List.drop_left' (leBytes_length 8 epoch)]
  have d24 : data.drop header = pcm := by
    rw [show header = 16 + 8 from rfl, ← List.drop_drop, d16, List.drop_left' (leBytes_length 8 position)]
  have t8 : data.take 8 = leBytes 8 token := by rw [hd, List.take_left' (leBytes_length 8 token)]
  have hlen : data.length = 24 + pcm.length := by
    rw [hd]
    simp only [List.length_append, leBytes_length]
    omega
  have l1 : ¬ data.length < header + 2 := by
    simp only [header]
    omega
  have l2 : ¬ maxPacket < data.length := by
    simp only [header, maxPacket]
    omega
  have l3 : data.length % 2 = 0 := by omega
  have hc : ¬ ((decide (data.length < header + 2) || decide (maxPacket < data.length) ||
      decide (data.length % 2 ≠ 0)) = true) := by
    simp [l1, l2, l3]
  unfold unpack
  rw [if_neg hc]
  simp only [d8, d16, d24, t8, List.take_left' (leBytes_length 8 epoch), List.take_left' (leBytes_length 8 position),
    ht', he', hp', if_true]

/-- What a datagram that is unpacked looks like. -/
theorem unpack_cases {data : Lib.Bytes} {token : Nat} {p : Packet} (h : unpack data token = some p) :
    header + 2 ≤ data.length ∧ data.length ≤ maxPacket ∧ data.length % 2 = 0 ∧ leValue (data.take 8) = token ∧
      p = { epoch := leValue ((data.drop 8).take 8), position := leValue ((data.drop 16).take 8),
            pcm := data.drop header } := by
  unfold unpack at h
  by_cases hc : decide (data.length < header + 2) || decide (maxPacket < data.length) || decide (data.length % 2 ≠ 0)
  · rw [if_pos hc] at h
    cases h
  · rw [if_neg hc] at h
    simp only [Bool.or_eq_true, decide_eq_true_eq, not_or, Nat.not_lt, Decidable.not_not] at hc
    by_cases ht : leValue (data.take 8) = token
    · simp only [ht, if_true, Option.some.injEq] at h
      exact ⟨hc.1.1, hc.1.2, hc.2, ht, h.symm⟩
    · simp [ht] at h

theorem unpack_some {data : Lib.Bytes} {token : Nat} {p : Packet} (h : unpack data token = some p) :
    leValue (data.take 8) = token ∧ p.epoch < 2 ^ 64 ∧ p.position < 2 ^ 64 ∧ 1 ≤ p.samples := by
  obtain ⟨hlow, -, -, ht, rfl⟩ := unpack_cases h
  have hlt : ∀ bs : Lib.Bytes, bs.length ≤ 8 → leValue bs < 2 ^ 64 := by
    intro bs hb
    refine lt_of_lt_of_le (leValue_lt bs) ?_
    calc 256 ^ bs.length ≤ 256 ^ 8 := Nat.pow_le_pow_right (by decide) hb
      _ = 2 ^ 64 := rfl
  refine ⟨ht, hlt _ (List.length_take_le _ _), hlt _ (List.length_take_le _ _), ?_⟩
  simp only [Packet.samples, List.length_drop]
  omega

theorem packet_isSome_iff {token epoch position : Nat} {pcm : Lib.Bytes} :
    (packet token epoch position pcm).isSome = true ↔ pcm ≠ [] ∧ pcm.length % 2 = 0 ∧ pcm.length ≤ maxPcm := by
  unfold packet
  by_cases hc : pcm.isEmpty || decide (maxPcm < pcm.length) || decide (pcm.length % 2 ≠ 0)
  · rw [if_pos hc]
    simp only [Bool.or_eq_true, decide_eq_true_eq, List.isEmpty_iff] at hc
    simp only [Option.isSome_none, Bool.false_eq_true, false_iff]
    rintro ⟨hne, heven, hmax⟩
    rcases hc with (hc | hc) | hc
    · exact hne hc
    · exact absurd hmax (Nat.not_le.mpr hc)
    · exact hc heven
  · rw [if_neg hc]
    simp only [Bool.or_eq_true, decide_eq_true_eq, List.isEmpty_iff, not_or, Nat.not_lt, Decidable.not_not] at hc
    exact ⟨fun _ => ⟨hc.1.1, hc.2, hc.1.2⟩, fun _ => rfl⟩

/-- A datagram is opened by no token but the one it begins with. -/
theorem unpack_other {data : Lib.Bytes} {token other : Nat} {p : Packet} (h : unpack data token = some p)
    (hne : other ≠ token) : unpack data other = none := by
  cases hu : unpack data other with
  | none => rfl
  | some q => exact absurd ((unpack_some hu).1.symm.trans (unpack_some h).1) hne

/-- What is unpacked is packed as it was. -/
theorem packet_of_unpack {data : Lib.Bytes} {token : Nat} {p : Packet} (h : unpack data token = some p) :
    packet token p.epoch p.position p.pcm = some data := by
  obtain ⟨hlow, hhigh, heven, htoken, rfl⟩ := unpack_cases h
  unfold maxPacket maxPcm samplesMax at hhigh
  unfold header at hlow hhigh
  have hpcm : (data.drop header).length = data.length - 24 := by
    rw [List.length_drop]
    rfl
  have hwhole : leBytes 8 token ++ leBytes 8 (leValue ((data.drop 8).take 8)) ++
      leBytes 8 (leValue ((data.drop 16).take 8)) ++ data.drop header = data := by
    have h8 : leBytes 8 (leValue (data.take 8)) ++ data.drop 8 = data := leBytes_take_append_drop (by omega)
    have h16 : leBytes 8 (leValue ((data.drop 8).take 8)) ++ (data.drop 8).drop 8 = data.drop 8 :=
      leBytes_take_append_drop (by rw [List.length_drop]; omega)
    have h24 : leBytes 8 (leValue ((data.drop 16).take 8)) ++ (data.drop 16).drop 8 = data.drop 16 :=
      leBytes_take_append_drop (by rw [List.length_drop]; omega)
    rw [List.drop_drop] at h16 h24
    rw [List.append_assoc, List.append_assoc, ← htoken]
    exact (congrArg _ ((congrArg _ h24).trans h16)).trans h8
  have hsome : (packet token (leValue ((data.drop 8).take 8)) (leValue ((data.drop 16).take 8))
      (data.drop header)).isSome = true := by
    refine packet_isSome_iff.mpr ⟨?_, ?_, ?_⟩
    · intro hnil
      rw [hnil] at hpcm
      exact absurd hpcm (by rw [List.length_nil]; omega)
    · omega
    · unfold maxPcm samplesMax
      omega
  obtain ⟨out, hout⟩ := Option.isSome_iff_exists.mp hsome
  rw [hout, (packet_some hout).1, hwhole]

theorem packet_unpack_bijection :
    (∀ (token epoch position : UInt64) (pcm : Lib.Bytes),
      ((packet token.toNat epoch.toNat position.toNat pcm).isSome = true ↔
        pcm ≠ [] ∧ pcm.length % 2 = 0 ∧ pcm.length ≤ maxPcm) ∧
      ∀ d, packet token.toNat epoch.toNat position.toNat pcm = some d →
        unpack d token.toNat = some { epoch := epoch.toNat, position := position.toNat, pcm := pcm } ∧
          ∀ other : UInt64, other ≠ token → unpack d other.toNat = none) ∧
    ∀ (d : Lib.Bytes) (token : UInt64) (p : Packet), unpack d token.toNat = some p →
      packet token.toNat p.epoch p.position p.pcm = some d := by
  refine ⟨?_, fun d token p h => packet_of_unpack h⟩
  intro token epoch position pcm
  refine ⟨packet_isSome_iff, ?_⟩
  intro d hd
  have hu := unpack_packet hd token.toNat_lt epoch.toNat_lt position.toNat_lt
  refine ⟨hu, ?_⟩
  intro other hne
  exact unpack_other hu fun heq => hne (UInt64.toNat_inj.mp heq)

/-- One packet, opened by its own token and by no other, and packed again. -/
theorem packet_unpack_bijection_one :
    ∃ d, packet 7 1 480 [1, 2, 3, 4] = some d ∧ unpack d 8 = none ∧
      unpack d 7 = some { epoch := 1, position := 480, pcm := [1, 2, 3, 4] } ∧ packet 7 1 480 [1, 2, 3, 4] = some d := by
  obtain ⟨hpack, hunpack⟩ := packet_unpack_bijection
  obtain ⟨-, h⟩ := hpack 7 1 480 [1, 2, 3, 4]
  obtain ⟨hsame, hother⟩ := h _ rfl
  exact ⟨_, rfl, hother 8 (by decide), hsame, hunpack _ 7 _ hsame⟩

/-! ## Sequences -/

theorem checkedAdd_some {a b c : Nat} : checkedAdd a b = some c ↔ a + b < 2 ^ 64 ∧ c = a + b := by
  unfold checkedAdd
  by_cases h : a + b < 2 ^ 64
  · rw [if_pos h]
    simp only [Option.some.injEq, h, true_and, eq_comm]
  · rw [if_neg h]
    simp only [h, false_and, reduceCtorEq]

/-- When a sequence takes a span. -/
def Sequence.Admits (q : Sequence) (epoch position samples : Nat) : Prop :=
  position + samples < 2 ^ 64 ∧ q.epoch ≤ epoch ∧ (q.epoch = epoch → q.stop.getD 0 ≤ position)

theorem accept_of_admits {q : Sequence} {epoch position samples : Nat} (h : q.Admits epoch position samples) :
    q.accept epoch position samples = ({ epoch := epoch, stop := some (position + samples) }, true) := by
  obtain ⟨h1, h2, h3⟩ := h
  unfold Sequence.accept
  rw [show checkedAdd position samples = some (position + samples) from checkedAdd_some.mpr ⟨h1, rfl⟩]
  simp only [Nat.not_lt.mpr h2, if_false]
  by_cases he : q.epoch < epoch
  · simp [he]
  · have heq : q.epoch = epoch := by omega
    have h3 := h3 heq
    cases hs : q.stop with
    | none => simp [hs, heq]
    | some previous =>
      rw [hs] at h3
      simp only [Option.getD_some] at h3
      simp [hs, heq, Nat.not_lt.mpr h3]

theorem accept_of_not_admits {q : Sequence} {epoch position samples : Nat} (h : ¬ q.Admits epoch position samples) :
    q.accept epoch position samples = (q, false) := by
  unfold Sequence.accept
  cases hc : checkedAdd position samples with
  | none => rfl
  | some stop =>
    have hlt := (checkedAdd_some.mp hc).1
    by_cases h1 : epoch < q.epoch
    · simp [h1]
    · have heq : ¬ q.epoch < epoch ∧ q.epoch = epoch ∧ position < q.stop.getD 0 := by
        unfold Sequence.Admits at h
        omega
      obtain ⟨h2, h3, h4⟩ := heq
      cases hs : q.stop with
      | none => simp [hs] at h4
      | some previous =>
        rw [hs] at h4
        simp only [Option.getD_some] at h4
        simp [h1, h2, hs, h4]

/-- The packets a sequence has taken, and where it stands. -/
def Tracks (l : List Packet) (q : Sequence) : Prop :=
  InOrder (l.map Packet.span) ∧ Below (l.map Packet.span) q.epoch (q.stop.getD 0)

theorem Tracks.accept {l : List Packet} {q : Sequence} {p : Packet} (h : Tracks l q) (hs : 1 ≤ p.samples)
    (ha : q.Admits p.epoch p.position p.samples) :
    Tracks (l ++ [p]) { epoch := p.epoch, stop := some (p.position + p.samples) } := by
  obtain ⟨_, h2, h3⟩ := ha
  unfold Tracks
  rw [List.map_append, List.map_singleton]
  refine ⟨h.1.snoc h.2 ?_ ?_, Below.snoc (h.2.mono ?_) (Or.inr ⟨rfl, le_refl _⟩)⟩
  · show q.epoch < p.epoch ∨ q.epoch = p.epoch ∧ q.stop.getD 0 ≤ p.position
    omega
  · show p.position < p.position + p.samples
    omega
  · simp only [Option.getD_some]
    omega

/-! ## Datagrams sent -/

def emitted (token : Nat) (sent : List Lib.Bytes) : List Packet := sent.filterMap fun d => unpack d token

/-- Packets that do not pass the end of an epoch's clock. -/
def Bounded (l : List Packet) : Prop := ∀ p ∈ l, p.epoch < 2 ^ 64 ∧ p.span.stop < 2 ^ 64

/-- Every datagram is a packet of the token, in order, up to a place on the sender's clock. -/
structure Outgoing (token : Nat) (sent : List Lib.Bytes) (epoch position : Nat) : Prop where
  whole : ∀ d ∈ sent, ∃ p, unpack d token = some p
  inOrder : InOrder ((emitted token sent).map Packet.span)
  below : Below ((emitted token sent).map Packet.span) epoch position
  bounded : Bounded (emitted token sent)

theorem Outgoing.nil (token epoch position : Nat) : Outgoing token [] epoch position where
  whole := by simp
  inOrder := InOrder.nil
  below := Below.nil _ _
  bounded := by simp [Bounded, emitted]

theorem Outgoing.mono {token e p e' p' : Nat} {sent : List Lib.Bytes} (h : Outgoing token sent e p)
    (hp : e < e' ∨ e = e' ∧ p ≤ p') : Outgoing token sent e' p' :=
  ⟨h.whole, h.inOrder, h.below.mono hp, h.bounded⟩

theorem emitted_snoc {token : Nat} {sent : List Lib.Bytes} {d : Lib.Bytes} {p : Packet}
    (h : unpack d token = some p) :
    emitted token (sent ++ [d]) = emitted token sent ++ [p] := by
  simp [emitted, List.filterMap_append, h]

theorem Bounded.snoc {l : List Packet} {p : Packet} (h : Bounded l) (he : p.epoch < 2 ^ 64)
    (hs : p.position + p.samples < 2 ^ 64) : Bounded (l ++ [p]) := by
  intro a ha
  rcases List.mem_append.mp ha with ha | ha
  · exact h a ha
  · simp only [List.mem_singleton] at ha
    exact ha ▸ ⟨he, hs⟩

theorem Outgoing.send {token e p p' : Nat} {sent : List Lib.Bytes} {pcm d : Lib.Bytes} (h : Outgoing token sent e p)
    (ht : token < 2 ^ 64) (he : e < 2 ^ 64) (hp : p < 2 ^ 64) (hd : packet token e p pcm = some d)
    (hadd : checkedAdd p (pcm.length / 2) = some p') :
    unpack d token = some { epoch := e, position := p, pcm := pcm } ∧ Outgoing token (sent ++ [d]) e p' := by
  have hu := unpack_packet hd ht he hp
  obtain ⟨hlt, rfl⟩ := checkedAdd_some.mp hadd
  have hpos : 1 ≤ pcm.length / 2 := by
    have := (packet_some hd).2.1
    omega
  refine ⟨hu, ?_, ?_, ?_, ?_⟩
  · intro x hx
    rcases List.mem_append.mp hx with hx | hx
    · exact h.whole x hx
    · simp only [List.mem_singleton] at hx
      exact ⟨_, hx ▸ hu⟩
  · rw [emitted_snoc hu, List.map_append, List.map_singleton]
    refine h.inOrder.snoc h.below (Or.inr ⟨rfl, le_refl _⟩) ?_
    show p < p + pcm.length / 2
    omega
  · rw [emitted_snoc hu, List.map_append, List.map_singleton]
    exact (h.below.mono (Or.inr ⟨rfl, by omega⟩)).snoc (Or.inr ⟨rfl, le_refl _⟩)
  · rw [emitted_snoc hu]
    exact h.bounded.snoc he hlt

/-! ## serve_route -/

structure Serve.Inv (token : Nat) (r : Serve) : Prop where
  token_eq : r.token = token
  captureEpoch_lt : r.state.captureEpoch < 2 ^ 64
  playbackEpoch_lt : r.state.playbackEpoch < 2 ^ 64
  position_lt : r.playbackPosition < 2 ^ 64
  captures : r.state.capture = anyRunning r.clients true
  plays : r.state.playback = anyRunning r.clients false
  tracks : Tracks r.captured r.sequence
  bounded : Bounded r.captured
  outgoing : Outgoing token r.sent r.state.playbackEpoch r.playbackPosition

theorem Serve.Inv.open (token : Nat) : (Serve.open token).Inv token where
  token_eq := rfl
  captureEpoch_lt := (by decide : 0 < 2 ^ 64)
  playbackEpoch_lt := (by decide : 0 < 2 ^ 64)
  position_lt := (by decide : 0 < 2 ^ 64)
  captures := rfl
  plays := rfl
  tracks := ⟨InOrder.nil, Below.nil _ _⟩
  bounded := by simp [Bounded, Serve.open]
  outgoing := Outgoing.nil _ _ _

/-- One more when the direction starts, and nothing otherwise. -/
def started (was is : Bool) : Nat := if is && !was then 1 else 0

theorem epochAfter_some {e e' : Nat} {was is : Bool} (h : epochAfter e was is = some e') (he : e < 2 ^ 64) :
    e' = e + started was is ∧ e' < 2 ^ 64 := by
  unfold epochAfter at h
  unfold started
  by_cases hc : (is && !was) = true
  · rw [if_pos hc] at h ⊢
    obtain ⟨hlt, rfl⟩ := checkedAdd_some.mp h
    exact ⟨rfl, hlt⟩
  · rw [if_neg hc] at h ⊢
    cases h
    exact ⟨rfl, he⟩

theorem onRunning_some {r r' : Serve} {id : Nat} {capture running wrote : Bool}
    (h : r.onRunning id capture running = some (r', wrote)) :
    ∃ ce pe, epochAfter r.state.captureEpoch r.state.capture (anyRunning (r.clientsAfter id capture running) true) = some ce ∧
      epochAfter r.state.playbackEpoch r.state.playback (anyRunning (r.clientsAfter id capture running) false) = some pe ∧
      r' = { r with
        clients := r.clientsAfter id capture running
        state :=
          { capture := anyRunning (r.clientsAfter id capture running) true
            playback := anyRunning (r.clientsAfter id capture running) false
            captureEpoch := ce
            playbackEpoch := pe }
        playbackPosition :=
          if anyRunning (r.clientsAfter id capture running) false && !r.state.playback then 0 else r.playbackPosition } ∧
      wrote = (r'.state != r.state) := by
  simp only [Serve.onRunning] at h
  split at h
  · rename_i ce pe hc hp
    simp only [Option.some.injEq, Prod.mk.injEq] at h
    obtain ⟨rfl, rfl⟩ := h
    exact ⟨ce, pe, hc, hp, rfl, rfl⟩
  · cases h

/-- What an event of a device client does to the epochs. -/
def Serve.EpochLaw (r r' : Serve) : Prop :=
  r'.state.captureEpoch = r.state.captureEpoch + started (anyRunning r.clients true) (anyRunning r'.clients true) ∧
    r'.state.playbackEpoch = r.state.playbackEpoch + started (anyRunning r.clients false) (anyRunning r'.clients false)

theorem EpochLaw.same {r r' : Serve} (hc : r'.clients = r.clients) (hs : r'.state = r.state) : r.EpochLaw r' := by
  have h0 : ∀ b, started b b = 0 := by decide
  unfold Serve.EpochLaw
  rw [hc, hs, h0, h0]
  exact ⟨rfl, rfl⟩

theorem Serve.Inv.onRunning {token : Nat} {r r' : Serve} {id : Nat} {capture running wrote : Bool}
    (hi : r.Inv token) (h : r.onRunning id capture running = some (r', wrote)) : r'.Inv token ∧ r.EpochLaw r' := by
  obtain ⟨ce, pe, hc, hp, hr, _⟩ := onRunning_some h
  obtain ⟨hce, hce'⟩ := epochAfter_some hc hi.captureEpoch_lt
  obtain ⟨hpe, hpe'⟩ := epochAfter_some hp hi.playbackEpoch_lt
  rw [hi.captures] at hce
  rw [hi.plays] at hpe
  subst hr
  refine ⟨⟨hi.token_eq, hce', hpe', ?_, rfl, rfl, hi.tracks, hi.bounded, ?_⟩, hce, hpe⟩
  · show (if _ then 0 else r.playbackPosition) < 2 ^ 64
    by_cases hb : (anyRunning (r.clientsAfter id capture running) false && !r.state.playback) = true
    · rw [if_pos hb]
      decide
    · rw [if_neg hb]
      exact hi.position_lt
  · -- a new epoch restarts the clock, and an old one goes on where it was
    show Outgoing token r.sent pe (if _ then 0 else r.playbackPosition)
    refine hi.outgoing.mono ?_
    by_cases hb : (anyRunning (r.clientsAfter id capture running) false && !r.state.playback) = true
    · rw [if_pos hb]
      rw [← hi.plays] at hpe
      simp only [started, hb, if_true] at hpe
      exact Or.inl (by omega)
    · rw [if_neg hb]
      rw [← hi.plays] at hpe
      simp only [started, hb] at hpe
      exact Or.inr ⟨by simpa using hpe.symm, le_refl _⟩

theorem Serve.Inv.onPlayback {token : Nat} {r r' : Serve} {pcm : Lib.Bytes} (ht : token < 2 ^ 64) (hi : r.Inv token)
    (h : r.onPlayback pcm = some r') :
    r'.Inv token ∧ (r' = r ∨ ∃ d p, r' = { r with playbackPosition := r'.playbackPosition, sent := r.sent ++ [d] } ∧
      unpack d token = some p ∧ p.epoch = r.state.playbackEpoch) := by
  unfold Serve.onPlayback at h
  cases hd : packet r.token r.state.playbackEpoch r.playbackPosition pcm with
  | none =>
    simp only [hd, Option.some.injEq] at h
    exact h ▸ ⟨hi, Or.inl rfl⟩
  | some d =>
    simp only [hd] at h
    cases ha : checkedAdd r.playbackPosition (pcm.length / 2) with
    | none => simp [ha] at h
    | some position =>
      simp only [ha, Option.some.injEq] at h
      subst h
      rw [hi.token_eq] at hd
      obtain ⟨hu, ho⟩ := hi.outgoing.send ht hi.playbackEpoch_lt hi.position_lt hd ha
      obtain ⟨hlt, rfl⟩ := checkedAdd_some.mp ha
      exact ⟨⟨hi.token_eq, hi.captureEpoch_lt, hi.playbackEpoch_lt, hlt, hi.captures, hi.plays, hi.tracks, hi.bounded, ho⟩,
        Or.inr ⟨d, _, rfl, hu, rfl⟩⟩

/-- A datagram changes nothing, or it is a packet of the token and the epoch that the sequence takes. -/
theorem Serve.onDatagram_cases (r : Serve) (data : Lib.Bytes) :
    r.onDatagram data = r ∨ ∃ p, unpack data r.token = some p ∧ r.state.capture = true ∧ p.epoch = r.state.captureEpoch ∧
      r.sequence.Admits p.epoch p.position p.samples ∧
      r.onDatagram data = { r with
        sequence := { epoch := p.epoch, stop := some (p.position + p.samples) }
        captured := r.captured ++ [p] } := by
  unfold Serve.onDatagram
  cases hu : unpack data r.token with
  | none => exact Or.inl rfl
  | some p =>
    by_cases hc : (r.state.capture && decide (p.epoch = r.state.captureEpoch)) = true
    · simp only [hc, if_true]
      by_cases ha : r.sequence.Admits p.epoch p.position p.samples
      · rw [accept_of_admits ha]
        simp only [Bool.and_eq_true, decide_eq_true_eq] at hc
        exact Or.inr ⟨p, rfl, hc.1, hc.2, ha, rfl⟩
      · rw [accept_of_not_admits ha]
        exact Or.inl rfl
    · simp only [hc]
      exact Or.inl rfl

theorem Serve.Inv.onDatagram {token : Nat} {r : Serve} (hi : r.Inv token) (data : Lib.Bytes) :
    (r.onDatagram data).Inv token := by
  rcases r.onDatagram_cases data with h | ⟨p, hu, _, _, ha, h⟩
  · rw [h]
    exact hi
  · obtain ⟨_, he, _, hs⟩ := unpack_some hu
    rw [h]
    exact ⟨hi.token_eq, hi.captureEpoch_lt, hi.playbackEpoch_lt, hi.position_lt, hi.captures, hi.plays,
      hi.tracks.accept hs ha, hi.bounded.snoc he ha.1, hi.outgoing⟩

/-! ## bridge -/

def Waiter.state? : Waiter → Option State
  | .controls state => some state
  | .playback _ => none

def Waiter.packet? : Waiter → Option Packet
  | .controls _ => none
  | .playback p => some p

def Frame.output? : Frame → Option (Nat × Lib.Bytes)
  | .events _ => none
  | .output epoch pcm => some (epoch, pcm)

structure Bridge.Inv (token : Nat) (b : Bridge) : Prop where
  token_eq : b.token = token
  position_lt : b.position < 2 ^ 64
  captureEpoch_lt : b.latest.captureEpoch < 2 ^ 64
  tracks : Tracks b.admitted b.sequence
  bounded : Bounded b.admitted
  admitted_le : ∀ p ∈ b.admitted, p.epoch ≤ b.latest.playbackEpoch
  outgoing : Outgoing token b.sent b.latest.captureEpoch b.position
  written : b.out.filterMap Frame.output? ++ (b.queue.filterMap Waiter.packet?).map (fun p => (p.epoch, p.pcm)) =
    b.admitted.map fun p => (p.epoch, p.pcm)

theorem Bridge.Inv.open (token : Nat) : (Bridge.open token).Inv token where
  token_eq := rfl
  position_lt := (by decide : 0 < 2 ^ 64)
  captureEpoch_lt := (by decide : 0 < 2 ^ 64)
  tracks := ⟨InOrder.nil, Below.nil _ _⟩
  bounded := by simp [Bounded, Bridge.open]
  admitted_le := by simp [Bridge.open]
  outgoing := Outgoing.nil _ _ _
  written := rfl

theorem Bridge.Inv.onCapture {token : Nat} {b b' : Bridge} {data : Lib.Bytes} (ht : token < 2 ^ 64) (hi : b.Inv token)
    (h : b.onCapture data = some b') :
    b'.Inv token ∧ (b' = b ∨ ∃ d p, b' = { b with position := b'.position, sent := b.sent ++ [d] } ∧
      unpack d token = some p ∧ b.latest.capture = true ∧ p.epoch = b.latest.captureEpoch) := by
  unfold Bridge.onCapture at h
  by_cases hl : data.length < 10
  · rw [if_pos hl] at h
    cases h
  · rw [if_neg hl] at h
    by_cases hc : (!b.latest.capture || decide (leValue (data.take 8) ≠ b.latest.captureEpoch)) = true
    · simp only [hc, if_true, Option.some.injEq] at h
      exact h ▸ ⟨hi, Or.inl rfl⟩
    · simp only [hc] at h
      obtain ⟨hcap, hep⟩ : b.latest.capture = true ∧ leValue (data.take 8) = b.latest.captureEpoch := by
        simpa using hc
      rw [hep] at h
      cases hd : packet b.token b.latest.captureEpoch b.position (data.drop 8) with
      | none => simp [hd] at h
      | some d =>
        simp only [hd] at h
        cases ha : checkedAdd b.position ((data.drop 8).length / 2) with
        | none =>
          simp only [ha] at h
          cases h
        | some position =>
          simp only [ha] at h
          cases h
          rw [hi.token_eq] at hd
          obtain ⟨hu, ho⟩ := hi.outgoing.send ht hi.captureEpoch_lt hi.position_lt hd ha
          obtain ⟨hlt, rfl⟩ := checkedAdd_some.mp ha
          exact ⟨⟨hi.token_eq, hlt, hi.captureEpoch_lt, hi.tracks, hi.bounded, hi.admitted_le, ho, hi.written⟩,
            Or.inr ⟨d, _, rfl, hu, hcap, rfl⟩⟩

theorem Bridge.onDatagram_cases {b b' : Bridge} {data : Lib.Bytes} (h : b.onDatagram data = some b') :
    b' = b ∨ ∃ p, unpack data b.token = some p ∧ p.epoch = b.latest.playbackEpoch ∧
      b.sequence.Admits p.epoch p.position p.samples ∧
      b' = { b with
        sequence := { epoch := p.epoch, stop := some (p.position + p.samples) }
        admitted := b.admitted ++ [p]
        queue := b.queue ++ [.playback p] } := by
  unfold Bridge.onDatagram at h
  by_cases hq : (b.queue.any fun w => !w.isControls) = true
  · rw [if_pos hq] at h
    cases h
  · rw [if_neg hq] at h
    cases hu : unpack data b.token with
    | none =>
      simp only [hu, Option.some.injEq] at h
      exact Or.inl h.symm
    | some p =>
      simp only [hu] at h
      by_cases he : p.epoch = b.latest.playbackEpoch
      · rw [if_pos he] at h
        by_cases ha : b.sequence.Admits p.epoch p.position p.samples
        · rw [accept_of_admits ha] at h
          exact Or.inr ⟨p, rfl, he, ha, (Option.some.inj h).symm⟩
        · rw [accept_of_not_admits ha] at h
          exact Or.inl (Option.some.inj h).symm
      · rw [if_neg he] at h
        exact Or.inl (Option.some.inj h).symm

theorem Bridge.Inv.onDatagram {token : Nat} {b b' : Bridge} {data : Lib.Bytes} (hi : b.Inv token)
    (h : b.onDatagram data = some b') : b'.Inv token := by
  rcases Bridge.onDatagram_cases h with rfl | ⟨p, hu, hep, ha, rfl⟩
  · exact hi
  · obtain ⟨_, he, _, hs⟩ := unpack_some hu
    refine ⟨hi.token_eq, hi.position_lt, hi.captureEpoch_lt, hi.tracks.accept hs ha, hi.bounded.snoc he ha.1, ?_,
      hi.outgoing, ?_⟩
    · intro q hq
      rcases List.mem_append.mp hq with hq | hq
      · exact hi.admitted_le q hq
      · simp only [List.mem_singleton] at hq
        exact hq ▸ hep.le
    · simp only [List.filterMap_append, List.map_append, ← List.append_assoc, hi.written]
      rfl

theorem Bridge.onState_some {b b' : Bridge} {state : State} (h : b.onState state = some b') :
    b' = { b with queue := b.queue ++ [.controls state] } := by
  unfold Bridge.onState at h
  by_cases hq : b.queue.any Waiter.isControls = true
  · rw [if_pos hq] at h
    cases h
  · rw [if_neg hq] at h
    exact (Option.some.inj h).symm

theorem Bridge.Inv.onState {token : Nat} {b b' : Bridge} {state : State} (hi : b.Inv token)
    (h : b.onState state = some b') : b'.Inv token := by
  obtain rfl := Bridge.onState_some h
  refine ⟨hi.token_eq, hi.position_lt, hi.captureEpoch_lt, hi.tracks, hi.bounded, hi.admitted_le, hi.outgoing, ?_⟩
  rw [← hi.written]
  simp [List.filterMap_append, Waiter.packet?]

/-- The holder of the writer writes, or it is `controls` and stores its state first. -/
theorem Bridge.advance_cases {b b' : Bridge} (h : b.advance = some b') :
    (∃ p rest, b.queue = .playback p :: rest ∧ b' = { b with queue := rest, out := b.out ++ [.output p.epoch p.pcm] }) ∨
    (∃ state rest, b.queue = .controls state :: rest ∧ b.entered = true ∧
      b' = { b with queue := rest, entered := false, out := b.out ++ [.events state] }) ∨
    ∃ state rest, b.queue = .controls state :: rest ∧ b.entered = false ∧
      b' = { b with latest := state, entered := true } := by
  unfold Bridge.advance at h
  split at h
  · cases h
  · rename_i p rest hq
    exact Or.inl ⟨p, rest, hq, (Option.some.inj h).symm⟩
  · rename_i state rest hq
    cases he : b.entered with
    | true =>
      rw [he] at h
      exact Or.inr (Or.inl ⟨state, rest, hq, rfl, (Option.some.inj h).symm⟩)
    | false =>
      rw [he] at h
      exact Or.inr (Or.inr ⟨state, rest, hq, rfl, (Option.some.inj h).symm⟩)

theorem Bridge.Inv.advance {token : Nat} {b b' : Bridge} (hi : b.Inv token) (h : b.advance = some b')
    (hmono : ∀ st ∈ b.queue.filterMap Waiter.state?, b.latest.captureEpoch ≤ st.captureEpoch ∧
      b.latest.playbackEpoch ≤ st.playbackEpoch ∧ st.captureEpoch < 2 ^ 64) : b'.Inv token := by
  rcases Bridge.advance_cases h with ⟨p, rest, hq, rfl⟩ | ⟨state, rest, hq, _, rfl⟩ | ⟨state, rest, hq, _, rfl⟩
  · refine ⟨hi.token_eq, hi.position_lt, hi.captureEpoch_lt, hi.tracks, hi.bounded, hi.admitted_le, hi.outgoing, ?_⟩
    rw [← hi.written, hq]
    simp [List.filterMap_append, Frame.output?, Waiter.packet?]
  · refine ⟨hi.token_eq, hi.position_lt, hi.captureEpoch_lt, hi.tracks, hi.bounded, hi.admitted_le, hi.outgoing, ?_⟩
    rw [← hi.written, hq]
    simp [List.filterMap_append, List.filterMap_cons, Frame.output?, Waiter.packet?]
  · obtain ⟨hce, hpe, hlt⟩ := hmono state (by simp [hq, Waiter.state?])
    refine ⟨hi.token_eq, hi.position_lt, hlt, hi.tracks, hi.bounded, ?_, ?_, hi.written⟩
    · exact fun p hp => (hi.admitted_le p hp).trans hpe
    · refine hi.outgoing.mono ?_
      simp only
      omega

/-! ## Both ends -/

/-- The states between the sender and the bridge's own, oldest first. -/
def System.pipeline (s : System) : List State :=
  s.bridge.latest :: (s.bridge.queue.filterMap Waiter.state? ++ s.states ++ [s.serve.state])

def State.NotAfter (a b : State) : Prop := a.captureEpoch ≤ b.captureEpoch ∧ a.playbackEpoch ≤ b.playbackEpoch

theorem State.NotAfter.refl (a : State) : a.NotAfter a := ⟨le_refl _, le_refl _⟩

theorem State.NotAfter.trans {a b c : State} (h : a.NotAfter b) (h' : b.NotAfter c) : a.NotAfter c :=
  ⟨h.1.trans h'.1, h.2.trans h'.2⟩

structure Inv (token : Nat) (s : System) : Prop where
  serve : s.serve.Inv token
  bridge : s.bridge.Inv token
  pipeline : s.pipeline.Pairwise State.NotAfter

theorem Inv.init (token : Nat) : Inv token (init token) where
  serve := .open token
  bridge := .open token
  pipeline := by
    refine List.pairwise_cons.mpr ⟨?_, List.pairwise_singleton _ _⟩
    intro a ha
    simp only [Audio.init, Bridge.open, Serve.open, List.filterMap_nil, List.nil_append, List.mem_singleton] at ha
    exact ha ▸ State.NotAfter.refl _

theorem Inv.latest_le {token : Nat} {s : System} (h : Inv token s) {st : State}
    (hst : st ∈ s.bridge.queue.filterMap Waiter.state? ++ s.states ++ [s.serve.state]) :
    s.bridge.latest.NotAfter st :=
  (List.pairwise_cons.mp h.pipeline).1 st hst

theorem pairwise_snoc {l : List State} {a : State} (h : l.Pairwise State.NotAfter) (ha : ∀ b ∈ l, b.NotAfter a) :
    (l ++ [a]).Pairwise State.NotAfter := by
  refine List.pairwise_append.mpr ⟨h, List.pairwise_singleton _ _, ?_⟩
  intro b hb c hc
  simp only [List.mem_singleton] at hc
  exact hc ▸ ha b hb

/-- The sender's state moves on: its old one leaves the end of the pipeline, the new one may be sent too. -/
theorem pipeline_moves {l : List State} {a a' : State} (h : (l ++ [a]).Pairwise State.NotAfter) (ha : a.NotAfter a') :
    (l ++ [a']).Pairwise State.NotAfter ∧ (l ++ [a'] ++ [a']).Pairwise State.NotAfter := by
  obtain ⟨hl, _, hla⟩ := List.pairwise_append.mp h
  have hle : ∀ b ∈ l, b.NotAfter a' := fun b hb => (hla b hb a (List.mem_singleton_self a)).trans ha
  refine ⟨pairwise_snoc hl hle, pairwise_snoc (pairwise_snoc hl hle) ?_⟩
  intro b hb
  rcases List.mem_append.mp hb with hb | hb
  · exact hle b hb
  · simp only [List.mem_singleton] at hb
    exact hb ▸ State.NotAfter.refl _

theorem Serve.EpochLaw.notAfter {r r' : Serve} (h : r.EpochLaw r') : r.state.NotAfter r'.state := by
  obtain ⟨h1, h2⟩ := h
  unfold State.NotAfter
  omega

/-! ## Steps -/

/-- The packet of a datagram that ran into the end of the clock. -/
def Overflows (token : Nat) (data : Lib.Bytes) : Prop :=
  ∃ p, unpack data token = some p ∧ 2 ^ 64 ≤ p.position + p.samples

/-- What one step may do to the media. -/
structure StepLaw (token : Nat) (s : System) (a : Label) (s' : System) : Prop where
  captured : s'.serve.captured = s.serve.captured ∨ ∃ data p, a = .serveDatagram data ∧ unpack data token = some p ∧
    s.serve.state.capture = true ∧ p.epoch = s.serve.state.captureEpoch ∧ s'.serve.captured = s.serve.captured ++ [p]
  played : s'.serve.sent = s.serve.sent ∨ ∃ data p, unpack data token = some p ∧
    p.epoch = s.serve.state.playbackEpoch ∧ s'.serve.sent = s.serve.sent ++ [data]
  admitted : s'.bridge.admitted = s.bridge.admitted ∨ ∃ data p, a = .bridgeDatagram data ∧ unpack data token = some p ∧
    p.epoch = s.bridge.latest.playbackEpoch ∧ s'.bridge.admitted = s.bridge.admitted ++ [p]
  recorded : s'.bridge.sent = s.bridge.sent ∨ ∃ data p, unpack data token = some p ∧
    s.bridge.latest.capture = true ∧ p.epoch = s.bridge.latest.captureEpoch ∧ s'.bridge.sent = s.bridge.sent ++ [data]
  epochs : s.serve.EpochLaw s'.serve
  overflowServe : ∀ data, a = .serveDatagram data → Overflows token data → s'.serve.sequence = s.serve.sequence
  overflowBridge : ∀ data, a = .bridgeDatagram data → Overflows token data → s'.bridge.sequence = s.bridge.sequence

/-- A step that leaves the media alone. -/
theorem StepLaw.quiet {token : Nat} {s s' : System} {a : Label} (hc : s'.serve.captured = s.serve.captured)
    (hs : s'.serve.sent = s.serve.sent) (hb : s'.bridge.admitted = s.bridge.admitted)
    (hr : s'.bridge.sent = s.bridge.sent)
    (he : s.serve.EpochLaw s'.serve) (hq : s'.serve.sequence = s.serve.sequence)
    (hq' : s'.bridge.sequence = s.bridge.sequence) : StepLaw token s a s' :=
  ⟨Or.inl hc, Or.inl hs, Or.inl hb, Or.inl hr, he, fun _ _ _ => hq, fun _ _ _ => hq'⟩

theorem step_running {token : Nat} {s s' : System} {id : Nat} {capture running : Bool} (hi : Inv token s)
    (h : s.stepServe (.running id capture running) = some s') :
    Inv token s' ∧ StepLaw token s (.running id capture running) s' := by
  simp only [System.stepServe] at h
  split at h
  · cases h
    exact ⟨⟨{ hi.serve with }, hi.bridge, hi.pipeline⟩, .quiet rfl rfl rfl rfl (EpochLaw.same rfl rfl) rfl rfl⟩
  · rename_i r hr
    cases h
    obtain ⟨hr', he⟩ := hi.serve.onRunning hr
    obtain ⟨_, _, _, _, heq, _⟩ := onRunning_some hr
    have hp := (pipeline_moves (l := s.bridge.latest :: (s.bridge.queue.filterMap Waiter.state? ++ s.states)) hi.pipeline
      he.notAfter).2
    refine ⟨⟨hr', hi.bridge, ?_⟩, .quiet ?_ ?_ rfl rfl he ?_ rfl⟩
    · simpa [System.pipeline] using hp
    all_goals simp only [heq]
  · rename_i r hr
    cases h
    obtain ⟨hr', he⟩ := hi.serve.onRunning hr
    obtain ⟨_, _, _, _, heq, _⟩ := onRunning_some hr
    have hp := (pipeline_moves (l := s.bridge.latest :: (s.bridge.queue.filterMap Waiter.state? ++ s.states)) hi.pipeline
      he.notAfter).1
    refine ⟨⟨hr', hi.bridge, hp⟩, .quiet ?_ ?_ rfl rfl he ?_ rfl⟩
    all_goals simp only [heq]

theorem step_playback {token : Nat} {s s' : System} {pcm : Lib.Bytes} (ht : token < 2 ^ 64) (hi : Inv token s)
    (h : s.stepServe (.playback pcm) = some s') : Inv token s' ∧ StepLaw token s (.playback pcm) s' := by
  simp only [System.stepServe] at h
  split at h
  · cases h
    exact ⟨⟨{ hi.serve with }, hi.bridge, hi.pipeline⟩, .quiet rfl rfl rfl rfl (EpochLaw.same rfl rfl) rfl rfl⟩
  · rename_i r hr
    cases h
    obtain ⟨hr', hcases⟩ := hi.serve.onPlayback ht hr
    rcases hcases with rfl | ⟨d, p, heq, hu, hp⟩
    · exact ⟨⟨hr', hi.bridge, hi.pipeline⟩, .quiet rfl rfl rfl rfl (EpochLaw.same rfl rfl) rfl rfl⟩
    · have hst : r.state = s.serve.state := by rw [heq]
      refine ⟨⟨hr', hi.bridge, ?_⟩, ⟨?_, ?_, Or.inl rfl, Or.inl rfl, ?_, ?_, ?_⟩⟩
      · simpa [System.pipeline, hst] using hi.pipeline
      · exact Or.inl (by rw [heq])
      · exact Or.inr ⟨d, p, hu, hp, by rw [heq]⟩
      · exact EpochLaw.same (by rw [heq]) hst
      · intro _ ha
        cases ha
      · intro _ ha
        cases ha

theorem step_serveDatagram {token : Nat} {s : System} {data : Lib.Bytes} (hi : Inv token s) :
    Inv token { s with serve := s.serve.onDatagram data } ∧
      StepLaw token s (.serveDatagram data) { s with serve := s.serve.onDatagram data } := by
  rcases s.serve.onDatagram_cases data with hr | ⟨p, hu, hc, hp, ha, hr⟩
  · rw [hr]
    exact ⟨hi, .quiet rfl rfl rfl rfl (EpochLaw.same rfl rfl) rfl rfl⟩
  · have hr' := hi.serve.onDatagram data
    rw [hi.serve.token_eq] at hu
    refine ⟨⟨hr', hi.bridge, ?_⟩, ⟨?_, Or.inl ?_, Or.inl rfl, Or.inl rfl, ?_, ?_, ?_⟩⟩
    · simpa [System.pipeline, hr] using hi.pipeline
    · exact Or.inr ⟨data, p, rfl, hu, hc, hp, by simp only [hr]⟩
    · simp only [hr]
    · exact EpochLaw.same (by simp only [hr]) (by simp only [hr])
    · intro d hd ⟨q, hq, hover⟩
      cases hd
      rw [hu] at hq
      cases hq
      exact absurd ha.1 (by omega)
    · intro _ hd
      cases hd

theorem step_control {token : Nat} {s s' : System} (hi : Inv token s) (h : s.stepBridge .control = some s') :
    Inv token s' ∧ StepLaw token s .control s' := by
  simp only [System.stepBridge] at h
  split at h
  · cases h
  · rename_i state rest hs
    obtain ⟨b, hb, rfl⟩ := Option.map_eq_some_iff.mp h
    have hb' := hi.bridge.onState hb
    obtain rfl := Bridge.onState_some hb
    refine ⟨⟨hi.serve, hb', ?_⟩, .quiet rfl rfl rfl rfl (EpochLaw.same rfl rfl) rfl rfl⟩
    have hp := hi.pipeline
    unfold System.pipeline at hp ⊢
    rw [hs] at hp
    simpa [List.filterMap_append, Waiter.state?] using hp

theorem step_capture {token : Nat} {s s' : System} {data : Lib.Bytes} (ht : token < 2 ^ 64) (hi : Inv token s)
    (h : s.stepBridge (.capture data) = some s') : Inv token s' ∧ StepLaw token s (.capture data) s' := by
  simp only [System.stepBridge] at h
  split at h
  · cases h
    exact ⟨⟨hi.serve, { hi.bridge with }, hi.pipeline⟩, .quiet rfl rfl rfl rfl (EpochLaw.same rfl rfl) rfl rfl⟩
  · rename_i b hb
    cases h
    obtain ⟨hb', hcases⟩ := hi.bridge.onCapture ht hb
    rcases hcases with rfl | ⟨d, p, heq, hu, hc, hp⟩
    · exact ⟨⟨hi.serve, hb', hi.pipeline⟩, .quiet rfl rfl rfl rfl (EpochLaw.same rfl rfl) rfl rfl⟩
    · refine ⟨⟨hi.serve, hb', ?_⟩, ⟨Or.inl rfl, Or.inl rfl, ?_, ?_, EpochLaw.same rfl rfl, ?_, ?_⟩⟩
      · have hl : b.latest = s.bridge.latest := by rw [heq]
        have hq : b.queue = s.bridge.queue := by rw [heq]
        simpa [System.pipeline, hl, hq] using hi.pipeline
      · exact Or.inl (by rw [heq])
      · exact Or.inr ⟨d, p, hu, hc, hp, by rw [heq]⟩
      · intro _ ha
        cases ha
      · intro _ ha
        cases ha

theorem step_bridgeDatagram {token : Nat} {s s' : System} {data : Lib.Bytes} (hi : Inv token s)
    (h : s.stepBridge (.bridgeDatagram data) = some s') :
    Inv token s' ∧ StepLaw token s (.bridgeDatagram data) s' := by
  obtain ⟨b, hb, rfl⟩ := Option.map_eq_some_iff.mp h
  have hb' := hi.bridge.onDatagram hb
  rcases Bridge.onDatagram_cases hb with rfl | ⟨p, hu, hp, ha, rfl⟩
  · exact ⟨⟨hi.serve, hb', hi.pipeline⟩, .quiet rfl rfl rfl rfl (EpochLaw.same rfl rfl) rfl rfl⟩
  · rw [hi.bridge.token_eq] at hu
    refine ⟨⟨hi.serve, hb', ?_⟩, ⟨Or.inl rfl, Or.inl rfl, ?_, Or.inl rfl, EpochLaw.same rfl rfl, ?_, ?_⟩⟩
    · have hq : (s.bridge.queue ++ [Waiter.playback p]).filterMap Waiter.state? = s.bridge.queue.filterMap Waiter.state? := by
        simp [List.filterMap_append, List.filterMap_cons, Waiter.state?]
      simpa only [System.pipeline, hq] using hi.pipeline
    · exact Or.inr ⟨data, p, rfl, hu, hp, rfl⟩
    · intro _ hd
      cases hd
    · intro d hd ⟨q, hq, hover⟩
      cases hd
      rw [hu] at hq
      cases hq
      exact absurd ha.1 (by omega)

/-- No state in the pipeline is ahead of the sender's. -/
theorem Inv.pipeline_le {token : Nat} {s : System} (h : Inv token s) {st : State} (hst : st ∈ s.pipeline) :
    st.NotAfter s.serve.state := by
  have hp := h.pipeline
  unfold System.pipeline at hp hst
  rw [← List.cons_append] at hp hst
  rcases List.mem_append.mp hst with hst | hst
  · exact (List.pairwise_append.mp hp).2.2 st hst _ (List.mem_singleton_self _)
  · simp only [List.mem_singleton] at hst
    exact hst ▸ State.NotAfter.refl _

theorem step_advance {token : Nat} {s s' : System} (hi : Inv token s) (h : s.stepBridge .advance = some s') :
    Inv token s' ∧ StepLaw token s .advance s' := by
  obtain ⟨b, hb, rfl⟩ := Option.map_eq_some_iff.mp h
  have hb' : b.Inv token := by
    refine hi.bridge.advance hb ?_
    intro st hst
    have hm : st ∈ s.bridge.queue.filterMap Waiter.state? ++ s.states ++ [s.serve.state] := by
      simp only [List.mem_append]
      exact Or.inl (Or.inl hst)
    have hle := hi.pipeline_le (List.mem_cons_of_mem _ hm)
    exact ⟨(hi.latest_le hm).1, (hi.latest_le hm).2, lt_of_le_of_lt hle.1 hi.serve.captureEpoch_lt⟩
  have hp := hi.pipeline
  unfold System.pipeline at hp
  rcases Bridge.advance_cases hb with ⟨p, rest, hq, rfl⟩ | ⟨state, rest, hq, _, rfl⟩ | ⟨state, rest, hq, _, rfl⟩
  · refine ⟨⟨hi.serve, hb', ?_⟩, .quiet rfl rfl rfl rfl (EpochLaw.same rfl rfl) rfl rfl⟩
    rw [hq] at hp
    simpa [System.pipeline, List.filterMap_cons, Waiter.state?] using hp
  · refine ⟨⟨hi.serve, hb', ?_⟩, .quiet rfl rfl rfl rfl (EpochLaw.same rfl rfl) rfl rfl⟩
    rw [hq] at hp
    refine hp.sublist ?_
    simp [System.pipeline, Waiter.state?]
  · refine ⟨⟨hi.serve, hb', ?_⟩, .quiet rfl rfl rfl rfl (EpochLaw.same rfl rfl) rfl rfl⟩
    rw [hq] at hp
    simp only [List.filterMap_cons, Waiter.state?, List.cons_append] at hp
    simp only [System.pipeline, hq, List.filterMap_cons, Waiter.state?, List.cons_append]
    obtain ⟨_, hp⟩ := List.pairwise_cons.mp hp
    refine List.pairwise_cons.mpr ⟨?_, hp⟩
    intro a ha
    rcases List.mem_cons.mp ha with rfl | ha
    · exact State.NotAfter.refl _
    · exact (List.pairwise_cons.mp hp).1 a ha

theorem step_heartbeat {token : Nat} {s : System} (hi : Inv token s) :
    Inv token { s with states := s.states ++ [s.serve.state] } ∧
      StepLaw token s .heartbeat { s with states := s.states ++ [s.serve.state] } := by
  have hp := (pipeline_moves (l := s.bridge.latest :: (s.bridge.queue.filterMap Waiter.state? ++ s.states)) hi.pipeline
    (State.NotAfter.refl _)).2
  refine ⟨⟨hi.serve, hi.bridge, ?_⟩, .quiet rfl rfl rfl rfl (EpochLaw.same rfl rfl) rfl rfl⟩
  simpa [System.pipeline] using hp

theorem step_inv {token : Nat} {s s' : System} {a : Label} (ht : token < 2 ^ 64) (hi : Inv token s)
    (h : step s a = some s') : Inv token s' ∧ StepLaw token s a s' := by
  have hend : Inv token { s with serve := { s.serve with running := false } } :=
    ⟨{ hi.serve with }, hi.bridge, hi.pipeline⟩
  have hend' : Inv token { s with bridge := { s.bridge with running := false } } :=
    ⟨hi.serve, { hi.bridge with }, hi.pipeline⟩
  unfold step at h
  by_cases hat : a.atServe = true
  · rw [if_pos hat] at h
    by_cases hr : s.serve.running = true
    · rw [if_pos hr] at h
      cases a with
      | running id capture running => exact step_running hi h
      | playback pcm => exact step_playback ht hi h
      | heartbeat =>
        cases h
        exact step_heartbeat hi
      | serveDatagram data =>
        cases h
        exact step_serveDatagram hi
      | serveEnds =>
        cases h
        exact ⟨hend, .quiet rfl rfl rfl rfl (EpochLaw.same rfl rfl) rfl rfl⟩
      | _ => cases hat
    · rw [if_neg hr] at h
      cases h
  · rw [if_neg hat] at h
    by_cases hr : s.bridge.running = true
    · rw [if_pos hr] at h
      cases a with
      | control => exact step_control hi h
      | capture data => exact step_capture ht hi h
      | bridgeDatagram data => exact step_bridgeDatagram hi h
      | advance => exact step_advance hi h
      | bridgeEnds =>
        cases h
        exact ⟨hend', .quiet rfl rfl rfl rfl (EpochLaw.same rfl rfl) rfl rfl⟩
      | _ => exact absurd rfl hat
    · rw [if_neg hr] at h
      cases h

/-! ## The law -/

/-- What holds of the media in a state: everything passed on is in order and inside the clock, and the driver
has been written the admitted packets, in order, up to the one that waits for the writer. -/
structure Law (token : Nat) (s : System) : Prop where
  captured : InOrder (s.serve.captured.map Packet.span) ∧ Bounded s.serve.captured
  played : InOrder ((emitted token s.serve.sent).map Packet.span) ∧ Bounded (emitted token s.serve.sent)
  admitted : InOrder (s.bridge.admitted.map Packet.span) ∧ Bounded s.bridge.admitted
  recorded : InOrder ((emitted token s.bridge.sent).map Packet.span) ∧ Bounded (emitted token s.bridge.sent)
  written : s.bridge.out.filterMap Frame.output? ++
    (s.bridge.queue.filterMap Waiter.packet?).map (fun p => (p.epoch, p.pcm)) =
      s.bridge.admitted.map fun p => (p.epoch, p.pcm)
  notAhead : ∀ p ∈ s.bridge.admitted, p.epoch ≤ s.bridge.latest.playbackEpoch
  clocks : s.serve.playbackPosition < 2 ^ 64 ∧ s.bridge.position < 2 ^ 64
  epochs : ∀ st ∈ s.pipeline, st.captureEpoch < 2 ^ 64 ∧ st.playbackEpoch < 2 ^ 64

theorem Inv.law {token : Nat} {s : System} (h : Inv token s) : Law token s where
  captured := ⟨h.serve.tracks.1, h.serve.bounded⟩
  played := ⟨h.serve.outgoing.inOrder, h.serve.outgoing.bounded⟩
  admitted := ⟨h.bridge.tracks.1, h.bridge.bounded⟩
  recorded := ⟨h.bridge.outgoing.inOrder, h.bridge.outgoing.bounded⟩
  written := h.bridge.written
  notAhead := h.bridge.admitted_le
  clocks := ⟨h.serve.position_lt, h.bridge.position_lt⟩
  epochs := by
    intro st hst
    have hle := h.pipeline_le hst
    exact ⟨lt_of_le_of_lt hle.1 h.serve.captureEpoch_lt, lt_of_le_of_lt hle.2 h.serve.playbackEpoch_lt⟩

theorem inv_of_run {token : Nat} (ht : token < 2 ^ 64) {as : List Label} {s : System}
    (h : exec step (init token) as = some s) : Inv token s :=
  exec_inv (fun _ _ _ hs hi => (step_inv ht hi hs).1) h (Inv.init token)

theorem route_keeps_media_law (token : UInt64) {as : List Label} {s : System}
    (h : exec step (init token.toNat) as = some s) :
    Law token.toNat s ∧ ∀ a s', step s a = some s' → StepLaw token.toNat s a s' := by
  have hi := inv_of_run token.toNat_lt h
  exact ⟨hi.law, fun a s' ha => (step_inv token.toNat_lt hi ha).2⟩

/-- The playback device stops and starts again. A packet of its first run is admitted while the new State
message waits for the writer behind another packet. -/
def staleRun : List Label :=
  [.running 1 false true, .control, .advance, .advance,
    .running 1 false false, .control, .advance, .advance, .running 1 false true,
    .bridgeDatagram (leBytes 8 7 ++ leBytes 8 1 ++ leBytes 8 0 ++ [1, 2]), .control, .advance,
    .bridgeDatagram (leBytes 8 7 ++ leBytes 8 1 ++ leBytes 8 1 ++ [3, 4]), .advance, .advance]

theorem route_keeps_media_law_stale :
    ∃ s, exec step (init (7 : UInt64).toNat) staleRun = some s ∧ s.bridge.admitted.length = 2 ∧ Law (7 : UInt64).toNat s := by
  have hs : exec step (init (7 : UInt64).toNat) staleRun =
      some ((exec step (init (7 : UInt64).toNat) staleRun).get (by decide)) :=
    (Option.some_get _).symm
  exact ⟨_, hs, by decide, (route_keeps_media_law 7 hs).1⟩

/-- A packet may be written to the driver after the State message of a newer epoch. -/
theorem output_not_current :
    ¬ ∀ (token : UInt64) (as : List Label) (s s' : System) (epoch : Nat) (pcm : Lib.Bytes),
      exec step (init token.toNat) as = some s → step s .advance = some s' →
      s'.bridge.out = s.bridge.out ++ [.output epoch pcm] → epoch = s.bridge.latest.playbackEpoch := by
  intro h
  have hs : exec step (init (7 : UInt64).toNat) staleRun =
      some ((exec step (init (7 : UInt64).toNat) staleRun).get (by decide)) :=
    (Option.some_get _).symm
  have := h 7 staleRun _
    ((step ((exec step (init (7 : UInt64).toNat) staleRun).get (by decide)) .advance).get (by decide)) 1 [3, 4]
    hs (Option.some_get _).symm (by decide)
  exact absurd this (by decide)

end Mux.Audio
