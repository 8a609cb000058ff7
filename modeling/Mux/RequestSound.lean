import Mux.FrameSound
import Mux.Request

/-!
# The version gate

A daemon reads a request of a version it speaks exactly as it was written, and refuses every other with the
version it found. The refusal is one that clients of either reply format read.
-/

namespace Mux.Request

open Lib Lib.Postcard Peer

/-- Each mode needs the version it was added in. -/
def Accepted (r : OpenRequest) : Prop :=
  7 ≤ r.version ∧ r.version ≤ protocolVersion ∧ r.mode.minimum ≤ r.version

instance decidableAccepted (r : OpenRequest) : Decidable (Accepted r) :=
  inferInstanceAs (Decidable (_ ∧ _ ∧ _))

theorem spoken_iff {version : UInt32} : spoken version = true ↔ 7 ≤ version ∧ version ≤ protocolVersion := by
  simp [spoken]

/-! ## On the bytes of a message -/

/-- The version of a request that decodes is what its first field alone says. -/
theorem version_of_request {buf : Lib.Bytes} {r : OpenRequest} (h : fromBytes openRequest buf = .ok r) :
    fromBytes u32 buf = .ok r.version := by
  obtain ⟨x, rfl, hx⟩ := fromBytes_first h
  exact hx

theorem handshake_request {buf : Lib.Bytes} {r : OpenRequest} (h : fromBytes openRequest buf = .ok r) :
    handshake buf = .ok (if Accepted r then .ok r else .error r.version) := by
  simp only [handshake, version_of_request h, h]
  by_cases hs : spoken r.version = true
  · obtain ⟨h7, h13⟩ := spoken_iff.mp hs
    by_cases hm : r.version < r.mode.minimum
    · have hn : ¬ Accepted r := fun ha => absurd ha.2.2 (UInt32.not_le.mpr hm)
      simp [hs, hm, hn]
    · have ha : Accepted r := ⟨h7, h13, UInt32.not_lt.mp hm⟩
      simp [hs, hm, ha]
  · have hn : ¬ Accepted r := fun ha => hs (spoken_iff.mpr ⟨ha.1, ha.2.1⟩)
    simp [hs, hn]

theorem handshake_unspoken {version : UInt32} (h : spoken version = false) (tail : Lib.Bytes) :
    handshake (u32.encode version ++ tail) = .ok (.error version) := by
  simp [handshake, fromBytes_encode, h]

theorem handshake_ok {buf : Lib.Bytes} {r : OpenRequest} (h : handshake buf = .ok (.ok r)) :
    fromBytes openRequest buf = .ok r ∧ Accepted r := by
  cases hr : fromBytes openRequest buf with
  | error e =>
    simp only [handshake, hr] at h
    split at h
    · cases h
    · split at h <;> cases h
  | ok q =>
    rw [handshake_request hr] at h
    by_cases ha : Accepted q
    · rw [if_pos ha] at h
      cases h
      exact ⟨rfl, ha⟩
    · rw [if_neg ha] at h
      cases h

/-! ## On a connection -/

section
variable {σ : Type} {R : Reader σ}

/-- A message that was written is handed to the handshake whole, and nothing after it is touched. -/
theorem readRequest_message {src : σ} {buf wire rest : Lib.Bytes} {h : Handshake} (hw : Frame.encodeMessage buf = .ok wire)
    (hh : handshake buf = .ok h) (hd : R.Delivers src (wire ++ rest)) :
    ∃ src', readRequest R src = (.ok h, src') ∧ R.Delivers src' rest := by
  have hlen : 1 ≤ buf.length ∧ buf.length ≤ Frame.maxRequestBytes := by
    refine Classical.byContradiction fun hn => ?_
    have hbad : buf.length = 0 ∨ Frame.maxRequestBytes < buf.length := by omega
    obtain ⟨e, he⟩ := Frame.encodeMessage_error hbad
    rw [he] at hw
    cases hw
  rw [Frame.encodeMessage_ok hlen.1 hlen.2] at hw
  cases hw
  obtain ⟨src', hr, hd'⟩ := Frame.readMessage_message hlen.1 hlen.2 hd
  exact ⟨src', by simp only [readRequest, hr, hh], hd'⟩

theorem readRequest_ok {src src' : σ} {r : OpenRequest} (h : readRequest R src = (.ok (.ok r), src')) :
    ∃ buf, Frame.readMessageOf R src = (.ok buf, src') ∧ handshake buf = .ok (.ok r) := by
  unfold readRequest at h
  split at h
  · cases h
  · rename_i buf src1 hb
    split at h
    · cases h
    · rename_i hs hh
      cases h
      exact ⟨buf, hb, hh⟩

end

/-! ## The refusal -/

theorem mismatch_reply_length (version : UInt32) :
    (openReply.encode (.error (mismatchError version))).length ≤ 160 := by
  have hd := mismatch_size version
  have hl : lenSize (mismatch version).utf8ByteSize ≤ 10 := encodeVarint_le 10 _
  have hv : u32.size 1 ≤ 5 := encodeVarint_le 5 _
  have hk : u32.size (ErrorKind.versionMismatch).index ≤ 5 := encodeVarint_le 5 _
  rw [openReply.encode_length]
  show u32.size 1 + ((lenSize (mismatch version).utf8ByteSize + (mismatch version).utf8ByteSize) +
    u32.size (ErrorKind.versionMismatch).index) ≤ 160
  omega

theorem reply_mismatch (version : UInt32) : ∃ wire, reply (.error (mismatchError version)) = .ok wire := by
  refine ⟨_, Frame.encode_ok ?_⟩
  have := mismatch_reply_length version
  unfold Frame.maxFrameSize
  omega

theorem mismatch_prefix (version : UInt32) : v5VersionMismatch.toList <+: (mismatch version).toList := by
  rw [mismatch_eq, String.toList_append]
  exact List.prefix_append _ _

/-- What a client reads of a refusal, with the reply format of this version and with that of version 5. -/
structure Diagnosed {σ : Type} (R : Reader σ) (version : UInt32) (wire : Lib.Bytes) : Prop where
  read : ∀ (src : σ) (rest : Lib.Bytes), R.Delivers src (wire ++ rest) → ∃ payload src',
    Frame.readLaneOf R src = (.ok (some (outLaneOpened, payload)), src') ∧ R.Delivers src' rest ∧
      decodeOpenReply payload = .ok (.error (mismatchError version)) ∧
      fromBytes v5Reply payload = .ok (.error (mismatchError version).detail)
  named : v5VersionMismatch.toList <+: (mismatchError version).detail.1.toList

theorem diagnosed {σ : Type} (R : Reader σ) {version : UInt32} {wire : Lib.Bytes}
    (h : reply (.error (mismatchError version)) = .ok wire) : Diagnosed R version wire where
  read := by
    intro src rest hd
    have hl := mismatch_reply_length version
    have hp : 1 + (openReply.encode (.error (mismatchError version))).length ≤ Frame.maxFrameSize := by
      unfold Frame.maxFrameSize
      omega
    rw [reply, Frame.encode_ok hp] at h
    cases h
    obtain ⟨src', hr, hd'⟩ := Frame.readLane_frame hp hd
    exact ⟨_, src', hr, hd', decodeOpenReply_encode _, v5_reads_detail _⟩
  named := mismatch_prefix version

/-! ## The gate -/

/-- A request that was sent as a message `wire`, followed by whatever the client went on to write. -/
structure VersionGate {σ : Type} (R : Reader σ) : Prop where
  request : ∀ (r : OpenRequest) (wire : Lib.Bytes), Frame.encodeMessage (openRequest.encode r) = .ok wire →
    ∀ (src : σ) (rest : Lib.Bytes), R.Delivers src (wire ++ rest) →
      ∃ src', readRequest R src = (.ok (if Accepted r then .ok r else .error r.version), src') ∧ R.Delivers src' rest
  skewed : ∀ (version : UInt32), ¬ (7 ≤ version ∧ version ≤ protocolVersion) → ∀ tail wire : Lib.Bytes,
    Frame.encodeMessage (u32.encode version ++ tail) = .ok wire → ∀ (src : σ) (rest : Lib.Bytes),
      R.Delivers src (wire ++ rest) → ∃ src', readRequest R src = (.ok (.error version), src') ∧ R.Delivers src' rest
  sound : ∀ (src src' : σ) (r : OpenRequest), readRequest R src = (.ok (.ok r), src') → Accepted r
  refusal : ∀ version : UInt32, ∃ wire, reply (.error (mismatchError version)) = .ok wire ∧ Diagnosed R version wire

theorem version_gate {σ : Type} (R : Reader σ) : VersionGate R where
  request := by
    intro r wire hw src rest hd
    exact readRequest_message hw (handshake_request (fromBytes_self openRequest r)) hd
  skewed := by
    intro version hv tail wire hw src rest hd
    have hs : spoken version = false := by
      rw [Bool.eq_false_iff]
      exact fun h => hv (spoken_iff.mp h)
    exact readRequest_message hw (handshake_unspoken hs tail) hd
  sound := by
    intro src src' r h
    obtain ⟨buf, _, hh⟩ := readRequest_ok h
    exact (handshake_ok hh).2
  refusal := by
    intro version
    obtain ⟨wire, hw⟩ := reply_mismatch version
    exact ⟨wire, hw, diagnosed R hw⟩

/-- A listing by a client of version 7 that came in two pieces, with a keystroke behind it. -/
example : (readRequest Reader.std
    [.data 7 [0, 0, 0, 7], .data 80 [24, 0, 0, 0, 1, 2, 0, 0, 0, 0, 113]]).1 =
    .ok (.ok ⟨7, 80, 24, none, none, none, .list⟩) := by decide +kernel

end Mux.Request
