import Mux.Frame

/-!
# What is written is what is read

`encode` and `parse_header` agree at both limits: a length is written exactly when the reader
takes it. Reading a frame is then undoing its encoding, over any source, whatever follows.
-/

namespace Mux.Frame

open Lib

theorem maxFrameSize_lt : maxFrameSize < 2 ^ 32 := by decide

theorem maxRequestBytes_lt : maxRequestBytes < 2 ^ 32 := by decide

theorem leValue_u32 {n : Nat} (h : n < 2 ^ 32) : leValue (leBytes 4 n) = n := leValue_leBytes (n := 4) h

theorem eq_leBytes {l : Bytes} (h : l.length = 4) : l = leBytes 4 (leValue l) := by
  rw [← h, leBytes_leValue]

/-! ## Lengths -/

theorem encode_ok {lane : UInt8} {payload : Bytes} (h : 1 + payload.length ≤ maxFrameSize) :
    encode lane payload = .ok (leBytes 4 (1 + payload.length) ++ lane :: payload) := by
  have hm := maxFrameSize_lt
  unfold encode u32TryFrom
  rw [if_pos (by omega), Option.bind_some, u32CheckedAdd, if_pos (by omega), Option.filter_some, if_pos (by simp; omega)]
  simp only [Nat.add_comm]

theorem encode_error (lane : UInt8) {payload : Bytes} (h : maxFrameSize < 1 + payload.length) :
    ∃ e, encode lane payload = .error e := by
  unfold encode
  split
  · rename_i len heq
    obtain ⟨h1, h2⟩ := Option.filter_eq_some_iff.mp heq
    obtain ⟨n, h3, h4⟩ := Option.bind_eq_some_iff.mp h1
    unfold u32TryFrom at h3
    unfold u32CheckedAdd at h4
    split at h3 <;> cases h3
    split at h4 <;> cases h4
    simp at h2
    omega
  · exact ⟨_, rfl⟩

theorem encode_eq_ok {lane : UInt8} {payload wire : Bytes} (h : encode lane payload = .ok wire) :
    1 + payload.length ≤ maxFrameSize ∧ wire = leBytes 4 (1 + payload.length) ++ lane :: payload := by
  by_cases hl : 1 + payload.length ≤ maxFrameSize
  · rw [encode_ok hl] at h
    exact ⟨hl, (Except.ok.inj h).symm⟩
  · obtain ⟨e, he⟩ := encode_error lane (Nat.lt_of_not_le hl)
    rw [he] at h
    cases h

theorem encodeMessage_ok {bytes : Bytes} (h1 : 1 ≤ bytes.length) (h2 : bytes.length ≤ maxRequestBytes) :
    encodeMessage bytes = .ok (leBytes 4 bytes.length ++ bytes) := by
  have hm := maxRequestBytes_lt
  unfold encodeMessage u32TryFrom
  rw [if_pos (by omega), Option.filter_some, if_pos (by simp; omega)]

theorem encodeMessage_error {bytes : Bytes} (h : bytes.length = 0 ∨ maxRequestBytes < bytes.length) :
    ∃ e, encodeMessage bytes = .error e := by
  unfold encodeMessage
  split
  · rename_i len heq
    obtain ⟨h1, h2⟩ := Option.filter_eq_some_iff.mp heq
    unfold u32TryFrom at h1
    split at h1 <;> cases h1
    simp at h2
    omega
  · exact ⟨_, rfl⟩

theorem parseHeader_ok {lane : UInt8} {len : Nat} (h : 1 + len ≤ maxFrameSize)
    (hl : (leBytes 4 (1 + len) ++ [lane]).length = headerLen) :
    parseHeader ⟨leBytes 4 (1 + len) ++ [lane], hl⟩ = .ok (lane, len) := by
  have hm := maxFrameSize_lt
  have ht : leValue ((leBytes 4 (1 + len) ++ [lane]).take 4) = 1 + len := by
    rw [List.take_left' (leBytes_length ..), leValue_u32 (by omega)]
  unfold parseHeader
  simp only [ht]
  rw [if_neg (by omega), if_neg (by omega)]
  simp

theorem parseHeader_eq_ok {bytes : Block headerLen} {lane : UInt8} {len : Nat}
    (h : parseHeader bytes = .ok (lane, len)) :
    1 + len ≤ maxFrameSize ∧ bytes.1 = leBytes 4 (1 + len) ++ [lane] := by
  unfold parseHeader at h
  dsimp only at h
  split at h
  · cases h
  · split at h
    · cases h
    · rename_i h0 hm
      obtain ⟨hlane, hlen⟩ := Prod.mk.inj (Except.ok.inj h)
      have hv : leValue (bytes.1.take 4) = 1 + len := by omega
      have h4 : (bytes.1.take 4).length = 4 := by rw [List.length_take, bytes.2]; rfl
      refine ⟨by omega, ?_⟩
      have h5 : bytes.1.take (4 + 1) = bytes.1 := List.take_of_length_le (by rw [bytes.2]; decide)
      rw [← hv, ← eq_leBytes h4, ← hlane]
      conv => lhs; rw [← h5]
      exact (List.take_append_getElem _).symm

theorem parseMessageLen_ok {len : Nat} (h1 : 1 ≤ len) (h2 : len ≤ maxRequestBytes) :
    parseMessageLen ⟨leBytes 4 len, leBytes_length ..⟩ = .ok len := by
  have hm := maxRequestBytes_lt
  unfold parseMessageLen
  simp only [leValue_u32 (show len < 2 ^ 32 by omega)]
  rw [if_neg (by omega)]

theorem parseMessageLen_eq_ok {bytes : Block 4} {len : Nat} (h : parseMessageLen bytes = .ok len) :
    1 ≤ len ∧ len ≤ maxRequestBytes ∧ bytes.1 = leBytes 4 len := by
  unfold parseMessageLen at h
  dsimp only at h
  split at h
  · cases h
  · have hv := Except.ok.inj h
    refine ⟨by omega, by omega, ?_⟩
    rw [← hv]
    exact eq_leBytes bytes.2

/-! ## Reading -/

section
variable {σ : Type} {R : Reader σ}

theorem readLane_frame {src : σ} {lane : UInt8} {payload rest : Bytes} (hp : 1 + payload.length ≤ maxFrameSize)
    (h : R.Delivers src (leBytes 4 (1 + payload.length) ++ lane :: payload ++ rest)) :
    ∃ src', readLaneOf R src = (.ok (some (lane, payload)), src') ∧ R.Delivers src' rest := by
  have hw : leBytes 4 (1 + payload.length) ++ lane :: payload ++ rest =
      (leBytes 4 (1 + payload.length) ++ [lane]) ++ (payload ++ rest) := by
    simp
  rw [hw] at h
  have hl : (leBytes 4 (1 + payload.length) ++ [lane]).length = headerLen := by simp [headerLen]
  obtain ⟨src1, h1, hd1⟩ := h.enough hl
  obtain ⟨src2, h2, hd2⟩ := hd1.enough rfl
  refine ⟨src2, ?_, hd2⟩
  unfold readLaneOf
  simp only [h1, parseHeader_ok hp hl, h2]

theorem readMessage_message {src : σ} {bytes rest : Bytes} (h1 : 1 ≤ bytes.length)
    (h2 : bytes.length ≤ maxRequestBytes)
    (h : R.Delivers src (leBytes 4 bytes.length ++ bytes ++ rest)) :
    ∃ src', readMessageOf R src = (.ok bytes, src') ∧ R.Delivers src' rest := by
  rw [List.append_assoc] at h
  obtain ⟨src1, hr1, hd1⟩ := h.enough (leBytes_length ..)
  obtain ⟨src2, hr2, hd2⟩ := hd1.enough rfl
  refine ⟨src2, ?_, hd2⟩
  unfold readMessageOf
  simp only [hr1, parseMessageLen_ok h1 h2, hr2]

theorem readLane_some {src src' : σ} {lane : UInt8} {payload : Bytes}
    (h : readLaneOf R src = (.ok (some (lane, payload)), src')) :
    ∃ wire, encode lane payload = .ok wire ∧ R.bytes src = wire ++ R.bytes src' := by
  unfold readLaneOf at h
  split at h
  · cases h
  · cases h
  · rename_i header src1 h1
    split at h
    · cases h
    · rename_i lane' len hp
      split at h
      · cases h
      · rename_i body src2 h2
        cases h
        obtain ⟨hm, hb⟩ := parseHeader_eq_ok hp
        have hlen := body.2
        refine ⟨_, encode_ok (by rw [hlen]; exact hm), ?_⟩
        rw [R.readExact_ok h1, R.readExact_ok h2, hb, hlen]
        simp

theorem readMessage_ok {src src' : σ} {bytes : Bytes} (h : readMessageOf R src = (.ok bytes, src')) :
    ∃ wire, encodeMessage bytes = .ok wire ∧ R.bytes src = wire ++ R.bytes src' := by
  unfold readMessageOf at h
  split at h
  · cases h
  · rename_i pre src1 h1
    split at h
    · cases h
    · rename_i len hp
      split at h
      · cases h
      · rename_i body src2 h2
        cases h
        obtain ⟨h3, h4, hb⟩ := parseMessageLen_eq_ok hp
        have hlen := body.2
        refine ⟨_, encodeMessage_ok (by rw [hlen]; exact h3) (by rw [hlen]; exact h4), ?_⟩
        rw [R.readExact_ok h1, R.readExact_ok h2, hb, hlen, List.append_assoc]

theorem readLane_slice {src : σ} {l : Bytes} (h : R.Delivers src l) :
    (readLaneOf R src).1 = (readLaneOf Reader.slice l).1 ∧ R.Delivers (readLaneOf R src).2
    (readLaneOf Reader.slice l).2 := by
  unfold readLaneOf
  obtain ⟨r, src1, l1, h1, h2, hd⟩ := h.slice headerLen
  rw [h1, h2]
  cases r with
  | error e => cases e <;> exact ⟨rfl, hd⟩
  | ok header =>
    dsimp only
    cases parseHeader header with
    | error e => exact ⟨rfl, hd⟩
    | ok p =>
      obtain ⟨lane, len⟩ := p
      obtain ⟨r, src2, l2, h3, h4, hd2⟩ := hd.slice len
      dsimp only
      rw [h3, h4]
      cases r with
      | error e => exact ⟨rfl, hd2⟩
      | ok payload => exact ⟨rfl, hd2⟩

theorem readMessage_slice {src : σ} {l : Bytes} (h : R.Delivers src l) :
    (readMessageOf R src).1 = (readMessageOf Reader.slice l).1 ∧
      R.Delivers (readMessageOf R src).2 (readMessageOf Reader.slice l).2 := by
  unfold readMessageOf
  obtain ⟨r, src1, l1, h1, h2, hd⟩ := h.slice 4
  rw [h1, h2]
  cases r with
  | error e => exact ⟨rfl, hd⟩
  | ok pre =>
    dsimp only
    cases parseMessageLen pre with
    | error e => exact ⟨rfl, hd⟩
    | ok len =>
      obtain ⟨r, src2, l2, h3, h4, hd2⟩ := hd.slice len
      dsimp only
      rw [h3, h4]
      cases r with
      | error e => exact ⟨rfl, hd2⟩
      | ok body => exact ⟨rfl, hd2⟩

/-! ## Conversations -/

theorem item_encode {i : Item} (h : i.Fits) : ∃ wire, i.encode = .ok wire := by
  cases i with
  | lane n payload => exact ⟨_, encode_ok h⟩
  | message bytes => exact ⟨_, encodeMessage_ok h.1 h.2⟩

theorem item_write {i : Item} {w wire : Bytes} (h : i.encode = .ok wire) : i.write w = .ok (w ++ wire) := by
  cases i with
  | lane n payload =>
    have h : encode n payload = .ok wire := h
    simp only [Item.write, writeLane, h, Except.map]
  | message bytes =>
    have h : encodeMessage bytes = .ok wire := h
    simp only [Item.write, writeMessage, h, Except.map]

theorem readItem_item {i : Item} {wire rest : Bytes} {src : σ} (hi : i.Fits) (he : i.encode = .ok wire)
    (h : R.Delivers src (wire ++ rest)) :
    ∃ src', readItem R src i.kind = (.ok (some i), src') ∧ R.Delivers src' rest := by
  cases i with
  | lane n payload =>
    cases (encode_ok hi).symm.trans he
    obtain ⟨src', hr, hd⟩ := readLane_frame hi h
    exact ⟨src', by simp only [Item.kind, readItem, hr]; rfl, hd⟩
  | message bytes =>
    cases (encodeMessage_ok hi.1 hi.2).symm.trans he
    obtain ⟨src', hr, hd⟩ := readMessage_message hi.1 hi.2 h
    exact ⟨src', by simp only [Item.kind, readItem, hr]; rfl, hd⟩

theorem readItems_items (items : List Item) (hi : ∀ i ∈ items, i.Fits) (w : Bytes) :
    ∃ wire, items.foldlM Item.write w = .ok (w ++ wire) ∧ ∀ (rest : Bytes) (src : σ), R.Delivers src (wire ++ rest) →
      ∃ src', readItems R src (items.map Item.kind) = (items.map fun i => .ok (some i), src') ∧ R.Delivers src' rest := by
  induction items generalizing w with
  | nil => exact ⟨[], by simp; rfl, fun rest src h => ⟨src, rfl, h⟩⟩
  | cons i items ih =>
    obtain ⟨piece, hp⟩ := item_encode (hi i (by simp))
    obtain ⟨wire, hw, hread⟩ := ih (fun j hj => hi j (List.mem_cons_of_mem _ hj)) (w ++ piece)
    refine ⟨piece ++ wire, ?_, ?_⟩
    · rw [List.foldlM_cons, item_write hp, ← List.append_assoc]
      exact hw
    · intro rest src h
      rw [List.append_assoc] at h
      obtain ⟨src1, h1, hd1⟩ := readItem_item (hi i (by simp)) hp h
      obtain ⟨src2, h2, hd2⟩ := hread rest src1 hd1
      exact ⟨src2, by simp only [List.map_cons, readItems, h1, h2], hd2⟩

theorem readItem_some {src src' : σ} {k : Kind} {i : Item} (h : readItem R src k = (.ok (some i), src')) :
    i.kind = k ∧ ∃ wire, i.encode = .ok wire ∧ R.bytes src = wire ++ R.bytes src' := by
  cases k with
  | lane =>
    simp only [readItem] at h
    generalize hx : readLaneOf R src = x at h
    obtain ⟨r, src1⟩ := x
    cases r with
    | error e => cases h
    | ok o =>
      cases o with
      | none => cases h
      | some f => cases h; exact ⟨rfl, readLane_some hx⟩
  | message =>
    simp only [readItem] at h
    generalize hx : readMessageOf R src = x at h
    obtain ⟨r, src1⟩ := x
    cases r with
    | error e => cases h
    | ok m => cases h; exact ⟨rfl, readMessage_ok hx⟩

/-- Whatever is written is read back in order, and what follows it is left. -/
def ReadsBack (R : Reader σ) : Prop :=
  ∀ items : List Item, (∀ i ∈ items, i.Fits) → ∃ wire, writeItems items = .ok wire ∧
    ∀ (rest : Bytes) (src : σ), R.Delivers src (wire ++ rest) →
      ∃ src', readItems R src (items.map Item.kind) = (items.map fun i => .ok (some i), src') ∧ R.Delivers src' rest

/-- A reader returns only what it consumed the encoding of. -/
def ReadsEncodings (R : Reader σ) : Prop :=
  ∀ (src src' : σ) (k : Kind) (i : Item), readItem R src k = (.ok (some i), src') →
    i.kind = k ∧ ∃ wire, i.encode = .ok wire ∧ R.bytes src = wire ++ R.bytes src'

theorem reads_back (R : Reader σ) : ReadsBack R := fun items hi => by
  obtain ⟨wire, hw, hread⟩ := readItems_items (R := R) items hi []
  exact ⟨wire, hw, hread⟩

theorem encode_error_iff (lane : UInt8) (payload : Bytes) : (∃ e, encode lane payload = .error e) ↔
    ∀ h : Block headerLen, leValue (h.1.take 4) = 1 + payload.length → ∃ e, parseHeader h = .error e := by
  constructor
  · rintro ⟨e, he⟩ h hv
    cases hp : parseHeader h with
    | error e => exact ⟨e, rfl⟩
    | ok r =>
      obtain ⟨hm, hb⟩ := parseHeader_eq_ok hp
      have := maxFrameSize_lt
      rw [hb, List.take_left' (leBytes_length ..), leValue_u32 (by omega)] at hv
      rw [encode_ok (by omega)] at he
      cases he
  · intro h
    by_cases hl : 1 + payload.length ≤ maxFrameSize
    · have hlen : (leBytes 4 (1 + payload.length) ++ [lane]).length = headerLen := by simp [headerLen]
      have := maxFrameSize_lt
      obtain ⟨e, he⟩ := h ⟨_, hlen⟩ (by
        rw [List.take_left' (leBytes_length ..), leValue_u32 (by omega)])
      rw [parseHeader_ok hl] at he
      cases he
    · exact encode_error lane (Nat.lt_of_not_le hl)

theorem encodeMessage_error_iff (bytes : Bytes) : (∃ e, encodeMessage bytes = .error e) ↔
    ∀ h : Block 4, leValue h.1 = bytes.length → ∃ e, parseMessageLen h = .error e := by
  constructor
  · rintro ⟨e, he⟩ h hv
    cases hp : parseMessageLen h with
    | error e => exact ⟨e, rfl⟩
    | ok len =>
      obtain ⟨h1, h2, hb⟩ := parseMessageLen_eq_ok hp
      have := maxRequestBytes_lt
      rw [hb, leValue_u32 (by omega)] at hv
      rw [encodeMessage_ok (by omega) (by omega)] at he
      cases he
  · intro h
    by_cases hl : 1 ≤ bytes.length ∧ bytes.length ≤ maxRequestBytes
    · have := maxRequestBytes_lt
      obtain ⟨e, he⟩ := h ⟨_, leBytes_length ..⟩ (leValue_u32 (by omega))
      rw [parseMessageLen_ok hl.1 hl.2] at he
      cases he
    · exact encodeMessage_error (by omega)

end

/-- Both envelopes round trip in any mixture, over every way the bytes are cut, and the two
families of readers agree. -/
theorem frame_codec :
    (ReadsBack Reader.std ∧ ReadsBack Reader.tokio) ∧
    (ReadsEncodings Reader.std ∧ ReadsEncodings Reader.tokio) ∧
    (∀ (lane : UInt8) (payload : Bytes), (∃ e, encode lane payload = .error e) ↔
      ∀ h : Block headerLen, leValue (h.1.take 4) = 1 + payload.length → ∃ e, parseHeader h = .error e) ∧
    (∀ bytes : Bytes, (∃ e, encodeMessage bytes = .error e) ↔
      ∀ h : Block 4, leValue h.1 = bytes.length → ∃ e, parseMessageLen h = .error e) ∧
    ∀ (l : Bytes) (src : List Event) (src' : List (Option Event)),
      Reader.std.Delivers src l → Reader.tokio.Delivers src' l →
        ((readLane src).1 = (Aio.readLane src').1 ∧
          Reader.std.bytes (readLane src).2 = Reader.tokio.bytes (Aio.readLane src').2) ∧
        ((readMessage src).1 = (Aio.readMessage src').1 ∧
          Reader.std.bytes (readMessage src).2 = Reader.tokio.bytes (Aio.readMessage src').2) := by
  refine ⟨⟨reads_back _, reads_back _⟩, ⟨fun _ _ _ _ => readItem_some, fun _ _ _ _ => readItem_some⟩, encode_error_iff,
    encodeMessage_error_iff, ?_⟩
  intro l src src' h h'
  obtain ⟨h1, hd1⟩ := readLane_slice h
  obtain ⟨h2, hd2⟩ := readLane_slice h'
  obtain ⟨h3, hd3⟩ := readMessage_slice h
  obtain ⟨h4, hd4⟩ := readMessage_slice h'
  exact ⟨⟨h1.trans h2.symm, hd1.2.trans hd2.2.symm⟩, h3.trans h4.symm, hd3.2.trans hd4.2.symm⟩

/-- Two frames and a message, cut into three pieces, with two bytes after them. -/
theorem frame_codec_hello : ∃ src',
    readItems Reader.std [.data 6 [0, 0, 0, 1, 104, 101], .fail .interrupted, .data 108 [108, 111, 1, 0, 0, 0, 0, 4],
      .data 0 [0, 0, 116, 97, 105, 108, 7, 7]] [.lane, .lane, .message] =
        ([.ok (some (.lane 1 [104, 101, 108, 108, 111])), .ok (some (.lane 0 [])), .ok (some (.message [116, 97, 105, 108]))], src') ∧
      Reader.std.Delivers src' [7, 7] := by
  obtain ⟨wire, hw, hread⟩ := frame_codec.1.1
    [.lane 1 [104, 101, 108, 108, 111], .lane 0 [], .message [116, 97, 105, 108]] (by simp [Item.Fits, maxFrameSize, maxRequestBytes])
  cases hw
  refine hread [7, 7] _ ⟨?_, rfl⟩
  intro e he
  simpa using he

/-! ## Torn frames

`read_exact` reports every end of the stream with one error, and `read_lane` takes that error
for a clean end wherever in the header it falls. -/

section
variable {σ : Type} {R : Reader σ}

theorem readLane_none_iff {src : σ} {l : Bytes} (h : R.Delivers src l) :
    (readLaneOf R src).1 = .ok none ↔ l.length < headerLen := by
  constructor
  · intro hn
    by_contra hl
    rw [← List.take_append_drop headerLen l] at h
    obtain ⟨src1, h1, hd⟩ := h.enough (List.length_take_of_le (Nat.le_of_not_lt hl))
    unfold readLaneOf at hn
    rw [h1] at hn
    dsimp only at hn
    split at hn
    · cases hn
    · split at hn <;> cases hn
  · intro hl
    obtain ⟨src', hr, -⟩ := h.short hl
    unfold readLaneOf
    rw [hr]

theorem readLane_torn {src : σ} {lane : UInt8} {payload wire : Bytes} {k : Nat} (he : encode lane payload = .ok wire)
    (hk : headerLen ≤ k) (hw : k < wire.length) (h : R.Delivers src (wire.take k)) :
    (readLaneOf R src).1 = .error .unexpectedEof := by
  obtain ⟨hm, rfl⟩ := encode_eq_ok he
  have hl : (leBytes 4 (1 + payload.length) ++ [lane]).length = headerLen := by simp [headerLen]
  have hsplit : (leBytes 4 (1 + payload.length) ++ lane :: payload).take k =
      (leBytes 4 (1 + payload.length) ++ [lane]) ++ payload.take (k - headerLen) := by
    rw [show leBytes 4 (1 + payload.length) ++ lane :: payload = (leBytes 4 (1 + payload.length) ++ [lane]) ++ payload by simp,
      List.take_append, hl, List.take_of_length_le (by rw [hl]; exact hk)]
  rw [hsplit] at h
  obtain ⟨src1, h1, hd⟩ := h.enough hl
  have hshort : (payload.take (k - headerLen)).length < payload.length := by
    simp only [List.length_append, leBytes_length, List.length_cons] at hw
    simp only [List.length_take, headerLen] at hk ⊢
    omega
  obtain ⟨src2, h2, -⟩ := hd.short hshort
  unfold readLaneOf
  simp only [h1, parseHeader_ok hm hl, h2]

theorem torn_iff {src : σ} {lane : UInt8} {payload wire : Bytes} {k : Nat} (he : encode lane payload = .ok wire)
    (hw : k < wire.length) (h : R.Delivers src (wire.take k)) :
    (∃ e, (readLaneOf R src).1 = .error e) ↔ headerLen ≤ k := by
  constructor
  · rintro ⟨e, herr⟩
    by_contra hk
    have hl : (wire.take k).length < headerLen := by
      rw [List.length_take]
      omega
    rw [(readLane_none_iff h).mpr hl] at herr
    cases herr
  · intro hk
    exact ⟨_, readLane_torn he hk hw h⟩

theorem none_iff_nil_iff {src : σ} {l : Bytes} (h : R.Delivers src l) :
    ((readLaneOf R src).1 = .ok none ↔ l = []) ↔ (l = [] ∨ headerLen ≤ l.length) := by
  rw [readLane_none_iff h]
  cases l with
  | nil => simp [headerLen]
  | cons b l => simp

end

/-- A torn frame is an error exactly when its header is whole. -/
theorem torn_frame_iff (lane : UInt8) (payload wire : Bytes) (k : Nat) (l : Bytes) :
    (encode lane payload = .ok wire → 0 < k → k < wire.length →
      (∀ src, Reader.std.Delivers src (wire.take k) → ((∃ e, (readLane src).1 = .error e) ↔ headerLen ≤ k)) ∧
      ∀ src, Reader.tokio.Delivers src (wire.take k) → ((∃ e, (Aio.readLane src).1 = .error e) ↔ headerLen ≤ k)) ∧
    (∀ src, Reader.std.Delivers src l →
      (((readLane src).1 = .ok none ↔ l = []) ↔ (l = [] ∨ headerLen ≤ l.length))) ∧
    ∀ src, Reader.tokio.Delivers src l →
      (((Aio.readLane src).1 = .ok none ↔ l = []) ↔ (l = [] ∨ headerLen ≤ l.length)) :=
  ⟨fun he _ hw => ⟨fun _ => torn_iff he hw, fun _ => torn_iff he hw⟩, fun _ => none_iff_nil_iff, fun _ => none_iff_nil_iff⟩

theorem torn_frame_hello : ∃ e, (readLane [.data 6 [0, 0, 0, 2, 104]]).1 = .error e :=
  (((torn_frame_iff 2 [104, 101, 108, 108, 111] [6, 0, 0, 0, 2, 104, 101, 108, 108, 111] 6 []).1 rfl (by decide) (by decide)).1
    [.data 6 [0, 0, 0, 2, 104]] ⟨fun e he => by simp at he, rfl⟩).mpr (by decide)

/-- Three bytes of a frame on lane 2 that carries `hello`, and the end of the connection. -/
theorem header_cut_is_none :
    encode 2 [104, 101, 108, 108, 111] = .ok [6, 0, 0, 0, 2, 104, 101, 108, 108, 111] ∧
    Reader.std.Delivers [.data 6 [0, 0]] [6, 0, 0] ∧ (readLane [.data 6 [0, 0]]).1 = .ok none ∧
    Reader.tokio.Delivers [some (.data 6 [0, 0])] [6, 0, 0] ∧ (Aio.readLane [some (.data 6 [0, 0])]).1 = .ok none := by
  refine ⟨rfl, ⟨?_, rfl⟩, rfl, ⟨?_, rfl⟩, rfl⟩
  · intro e he
    simp at he
  · intro e he
    simp at he

end Mux.Frame
