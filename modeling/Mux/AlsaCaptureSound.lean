import Mathlib.Tactic.Linarith
import Mux.AlsaCapture
import Mux.Lib.Run

/-!
# The capture ring holds the newest samples

Whatever the socket delivers and however often and at whatever pace the ring is drained, the head
stays in the ring, no more is buffered than fits, and the resampler's phase stays a fraction: a
pace is at most 1.001, so a frame consumes at most two samples, and it is only made while two are
there. What is buffered is the queue that the history determines, a run of the newest arrivals.
-/

namespace Mux.Alsa

open Lib

structure RingInv (p : CapturePcm) : Prop where
  head : p.head < ring
  count : p.count ≤ ring
  low : 0 ≤ p.phase
  high : p.phase < 1
  buffered : p.buffered = queueOf ring p.history
  covered : Covered ring 2 p.history

theorem ring_pos : 0 < ring := by decide

theorem ringInv_opened (boundary : Nat) : RingInv (CapturePcm.opened boundary) where
  head := ring_pos
  count := Nat.zero_le ring
  low := le_refl 0
  high := zero_lt_one
  buffered := rfl
  covered := covered_nil ring 2

/-- The other half of the record does not matter. -/
theorem RingInv.keep {p : CapturePcm} (h : RingInv p) (pcm : MuxPcm) : RingInv { p with toMuxPcm := pcm } :=
  ⟨h.head, h.count, h.low, h.high, h.buffered, h.covered⟩

theorem RingInv.count_eq {p : CapturePcm} (h : RingInv p) : (queueOf ring p.history).length = p.count := by
  rw [← h.buffered, CapturePcm.buffered, queued_length]

/-! ## Storing -/

theorem ringInv_store {p : CapturePcm} (h : RingInv p) (sample : Int16) : RingInv (p.store sample) := by
  have hcovered : Covered ring 2 (p.history ++ [.arrived sample]) := h.covered.snoc (fun k hk => by cases hk)
  have hlen := h.count_eq
  by_cases hfull : p.count = ring
  · have hstore : p.store sample =
        { p with
          head := (p.head + 1) % ring,
          capture := Function.update p.capture (((p.head + 1) % ring + (p.count - 1)) % ring) sample,
          count := p.count - 1 + 1, history := p.history ++ [.arrived sample] } := by
      unfold CapturePcm.store
      rw [if_pos hfull]
    have hpos := ring_pos
    rw [hstore]
    refine ⟨Nat.mod_lt _ ring_pos, by simp only; omega, h.low, h.high, ?_, hcovered⟩
    simp only [CapturePcm.buffered]
    rw [queued_push (by omega), queued_drop, queueOf_snoc, afterHappening,
      keepLast_snoc_of_full (hlen.trans hfull) sample ring_pos, ← h.buffered, CapturePcm.buffered]
  · have hstore : p.store sample =
        { p with
          capture := Function.update p.capture ((p.head + p.count) % ring) sample, count := p.count + 1,
          history := p.history ++ [.arrived sample] } := by
      unfold CapturePcm.store
      rw [if_neg hfull]
    have hroom : p.count < ring := Nat.lt_of_le_of_ne h.count hfull
    have hfits : (queueOf ring p.history ++ [sample]).length ≤ ring := by
      rw [List.length_append, List.length_singleton, hlen]
      exact hroom
    rw [hstore]
    refine ⟨h.head, hroom, h.low, h.high, ?_, hcovered⟩
    simp only [CapturePcm.buffered]
    rw [queued_push hroom, queueOf_snoc, afterHappening, keepLast_of_le hfits, ← h.buffered, CapturePcm.buffered]

theorem ringInv_foldl_store {samples : List Int16} {p : CapturePcm} (h : RingInv p) :
    RingInv (samples.foldl CapturePcm.store p) := by
  induction samples generalizing p with
  | nil => exact h
  | cons sample samples ih => exact ih (ringInv_store h sample)

theorem foldl_store_history (samples : List Int16) (p : CapturePcm) :
    (samples.foldl CapturePcm.store p).history = p.history ++ samples.map .arrived := by
  induction samples generalizing p with
  | nil => rw [List.foldl_nil, List.map_nil, List.append_nil]
  | cons sample samples ih =>
    have hstore : (p.store sample).history = p.history ++ [.arrived sample] := by
      unfold CapturePcm.store
      by_cases hfull : p.count = ring
      · rw [if_pos hfull]
      · rw [if_neg hfull]
    rw [List.foldl_cons, ih, hstore, List.map_cons, List.append_assoc, List.singleton_append]

/-- The packets that are read before the first result that is none, or no packet of samples. -/
def packetsRead : Nat → List Recv → List Bytes
  | 0, _ => []
  | fuel + 1, results =>
    match results.headD .again with
    | .again | .failed => []
    | .datagram bytes =>
      if bytes.length = 0 ∨ bytes.length > packet * 2 ∨ bytes.length % 2 ≠ 0 then []
      else bytes :: packetsRead fuel results.tail

/-- The samples that a call of `receive_capture` stores. -/
def samplesRead (results : List Recv) : List Int16 := (packetsRead 32 results).flatMap samplesOf

theorem receiveLoop_eq (fuel : Nat) (p : CapturePcm) (results : List Recv) :
    ∃ dead, p.receiveLoop fuel results =
      { ((packetsRead fuel results).flatMap samplesOf).foldl CapturePcm.store p with dead := dead } := by
  induction fuel generalizing p results with
  | zero => exact ⟨p.dead, rfl⟩
  | succ fuel ih =>
    unfold CapturePcm.receiveLoop packetsRead
    cases results.headD .again with
    | again => exact ⟨p.dead, rfl⟩
    | failed => exact ⟨true, rfl⟩
    | datagram bytes =>
      by_cases hbad : bytes.length = 0 ∨ bytes.length > packet * 2 ∨ bytes.length % 2 ≠ 0
      · simp only [if_pos hbad]
        exact ⟨true, rfl⟩
      · simp only [if_neg hbad, List.flatMap_cons, List.foldl_append]
        exact ih ((samplesOf bytes).foldl CapturePcm.store p) results.tail

theorem ringInv_receiveCapture {p : CapturePcm} (h : RingInv p) (results : List Recv) :
    RingInv (p.receiveCapture results) := by
  obtain ⟨dead, heq⟩ := receiveLoop_eq 32 p results
  rw [CapturePcm.receiveCapture, heq]
  exact (ringInv_foldl_store h).keep _

theorem receiveCapture_history (p : CapturePcm) (results : List Recv) :
    (p.receiveCapture results).history = p.history ++ (samplesRead results).map .arrived := by
  obtain ⟨dead, heq⟩ := receiveLoop_eq 32 p results
  rw [CapturePcm.receiveCapture, heq]
  exact foldl_store_history (samplesRead results) p

/-- Of what was buffered and what is read, the newest samples stay. -/
theorem receiveCapture_buffered {p : CapturePcm} (h : RingInv p) (results : List Recv) :
    (p.receiveCapture results).buffered = keepLast ring (p.buffered ++ samplesRead results) := by
  rw [(ringInv_receiveCapture h results).buffered, receiveCapture_history, queueOf_append_arrived, h.buffered]

/-! ## Resampling -/

theorem truncate_of_nonneg {x : Rat} (h : 0 ≤ x) : truncate x = x.floor := by
  rw [truncate, Int.tdiv_eq_ediv_of_nonneg (Rat.num_nonneg.mpr h), Rat.floor_def]

theorem truncate_neg (x : Rat) : truncate (-x) = -truncate x := by
  unfold truncate
  rw [Rat.num_neg_eq_neg_num, Rat.den_neg_eq_den, Int.neg_tdiv]

theorem le_truncate {n : Int} {x : Rat} (h : (n : Rat) ≤ x) : n ≤ truncate x := by
  rcases le_total 0 x with h0 | h0
  · rw [truncate_of_nonneg h0]
    exact Rat.le_floor_iff.mpr h
  · have hneg : truncate x = -(-x).floor := by
      rw [← truncate_of_nonneg (neg_nonneg.mpr h0), truncate_neg, neg_neg]
    have hfloor := Rat.floor_le (-x)
    have hle : (((-x).floor : Int) : Rat) ≤ ((-n : Int) : Rat) := by
      push_cast
      linarith
    have hint : (-x).floor ≤ -n := by exact_mod_cast hle
    rw [hneg]
    omega

theorem truncate_le {n : Int} {x : Rat} (h : x ≤ n) : truncate x ≤ n := by
  have hneg : ((-n : Int) : Rat) ≤ -x := by
    push_cast
    linarith
  have hle := le_truncate hneg
  rw [truncate_neg] at hle
  omega

theorem truncate_toNat {x : Rat} (h : 0 ≤ x) : ((truncate x).toNat : Rat) ≤ x ∧ x < (truncate x).toNat + 1 := by
  have hfloor : 0 ≤ x.floor := Rat.le_floor_iff.mpr (by simpa using h)
  have hcast : ((x.floor.toNat : Nat) : Rat) = (x.floor : Rat) := by
    rw [← Int.cast_natCast, Int.toNat_of_nonneg hfloor]
  have hlow := Rat.floor_le x
  have hhigh := Rat.lt_floor_add_one x
  rw [truncate_of_nonneg h, hcast]
  push_cast at hhigh
  exact ⟨hlow, hhigh⟩

theorem fraction_between {x y t : Rat} (h0 : 0 ≤ t) (h1 : t ≤ 1) :
    min x y ≤ x + (y - x) * t ∧ x + (y - x) * t ≤ max x y := by
  rcases le_total x y with hxy | hxy
  · have hfrom := mul_nonneg (sub_nonneg.mpr hxy) h0
    have hto := mul_nonneg (sub_nonneg.mpr hxy) (sub_nonneg.mpr h1)
    rw [min_eq_left hxy, max_eq_right hxy]
    exact ⟨by linarith, by linarith⟩
  · have hfrom := mul_nonneg (sub_nonneg.mpr hxy) h0
    have hto := mul_nonneg (sub_nonneg.mpr hxy) (sub_nonneg.mpr h1)
    rw [min_eq_right hxy, max_eq_left hxy]
    exact ⟨by linarith, by linarith⟩

/-- What is interpolated lies between the two samples, so its conversion to 16 bits is exact. -/
theorem interpolate_between {a b : Int16} {phase : Rat} (h0 : 0 ≤ phase) (h1 : phase < 1) :
    min a.toInt b.toInt ≤ ((truncate (interpolate a b phase)).toInt16).toInt ∧
      ((truncate (interpolate a b phase)).toInt16).toInt ≤ max a.toInt b.toInt := by
  obtain ⟨hlow, hhigh⟩ := fraction_between (x := a.toInt) (y := b.toInt) h0 h1.le
  have hle : min a.toInt b.toInt ≤ truncate (interpolate a b phase) := le_truncate (by push_cast; exact hlow)
  have hge : truncate (interpolate a b phase) ≤ max a.toInt b.toInt := truncate_le (by push_cast; exact hhigh)
  have ha := a.le_toInt
  have ha' := a.toInt_lt
  have hb := b.le_toInt
  have hb' := b.toInt_lt
  have hexact : ((truncate (interpolate a b phase)).toInt16).toInt = truncate (interpolate a b phase) :=
    Int16.toInt_ofInt_of_le (by omega) (by omega)
  rw [hexact]
  exact ⟨hle, hge⟩

theorem captureFrame_between {p : CapturePcm} (h : RingInv p) (htwo : 2 ≤ p.count) (step : Rat) :
    min (p.capture p.head).toInt (p.capture ((p.head + 1) % ring)).toInt ≤ (p.captureFrame step).1.toInt ∧
      (p.captureFrame step).1.toInt ≤ max (p.capture p.head).toInt (p.capture ((p.head + 1) % ring)).toInt := by
  unfold CapturePcm.captureFrame
  rw [if_pos htwo]
  exact interpolate_between h.low h.high

theorem stepFor_bounds (p : CapturePcm) (periodSize : Nat) :
    0 ≤ p.stepFor periodSize ∧ p.stepFor periodSize ≤ 1001 / 1000 := by
  unfold CapturePcm.stepFor
  split_ifs <;> norm_num

theorem ringInv_captureFrame {p : CapturePcm} {step : Rat} (h : RingInv p) (h0 : 0 ≤ step)
    (h1 : step ≤ 1001 / 1000) : RingInv (p.captureFrame step).2 := by
  have hlow := h.low
  have hhigh := h.high
  have hlen := h.count_eq
  unfold CapturePcm.captureFrame
  by_cases htwo : p.count ≥ 2
  · rw [if_pos htwo]
    obtain ⟨hle, hlt⟩ := truncate_toNat (add_nonneg hlow h0)
    generalize hc : (truncate (p.phase + step)).toNat = consumed at hle hlt
    have hconsumed : consumed ≤ 2 := by
      have hbound : (consumed : Rat) < 3 := by linarith
      have hnat : consumed < 3 := by exact_mod_cast hbound
      omega
    have hcount : (p.count + uintRange - consumed) % uintRange = p.count - consumed := by
      have hring := h.count
      unfold ring at hring
      unfold uintRange
      omega
    simp only [hc, hcount]
    refine ⟨Nat.mod_lt _ ring_pos, ?_, ?_, ?_, ?_, ?_⟩
    · exact Nat.le_trans (Nat.sub_le _ _) h.count
    · simp only
      linarith
    · simp only
      linarith
    · simp only [CapturePcm.buffered]
      rw [queued_drop, queueOf_snoc, afterHappening, ← h.buffered, CapturePcm.buffered]
    · refine h.covered.snoc ?_
      rintro k hk
      cases hk
      exact ⟨hconsumed, by omega⟩
  · rw [if_neg htwo]
    refine ⟨h.head, h.count, le_refl 0, by simp only; norm_num, ?_, ?_⟩
    · simp only [CapturePcm.buffered]
      rw [queueOf_snoc, afterHappening, List.drop_zero, ← h.buffered, CapturePcm.buffered]
    · refine h.covered.snoc ?_
      rintro k hk
      cases hk
      exact ⟨Nat.zero_le 2, Nat.zero_le _⟩

theorem ringInv_captureLoop {step : Rat} (h0 : 0 ≤ step) (h1 : step ≤ 1001 / 1000) {frames : Nat} {p : CapturePcm}
    (h : RingInv p) : RingInv (p.captureLoop step frames).2 := by
  induction frames generalizing p with
  | zero => exact h
  | succ frames ih => exact ih (ringInv_captureFrame h h0 h1)

/-! ## Every call -/

theorem ringInv_transfer {p : CapturePcm} (h : RingInv p) (stream : Stream) (applPtr step first periodSize : Nat)
    (arrived : List Recv) (frames : List (UInt8 × UInt8)) :
    RingInv (p.transfer stream applPtr step first periodSize arrived frames).2.2 := by
  unfold CapturePcm.transfer
  cases stream with
  | playback => exact h.keep _
  | capture =>
    by_cases hdead : p.dead = true
    · simp only [if_pos hdead]
      exact h
    · by_cases hareas : step ≠ 16 ∨ first % 8 ≠ 0
      · simp only [if_neg hdead, if_pos hareas]
        exact h
      · simp only [if_neg hdead, if_neg hareas]
        have hreceived := ringInv_receiveCapture (h.keep (p.toMuxPcm.application applPtr).2) arrived
        obtain ⟨h0, h1⟩ := stepFor_bounds (CapturePcm.receiveCapture
          { p with toMuxPcm := (p.toMuxPcm.application applPtr).2 } arrived) periodSize
        exact ringInv_captureLoop h0 h1 hreceived

theorem ringInv_prepare {p : CapturePcm} (h : RingInv p) (stream : Stream) (sent : Bool) (arrived : List Recv) :
    RingInv (p.prepare stream sent arrived).1 := by
  unfold CapturePcm.prepare
  by_cases hok : (p.toMuxPcm.prepare sent).2 = true
  · simp only [if_pos hok]
    have hread : RingInv (if stream = .capture
        then CapturePcm.receiveCapture { p with toMuxPcm := (p.toMuxPcm.prepare sent).1 } arrived
        else { p with toMuxPcm := (p.toMuxPcm.prepare sent).1 }) := by
      by_cases hs : stream = .capture
      · rw [if_pos hs]
        exact ringInv_receiveCapture (h.keep _) arrived
      · rw [if_neg hs]
        exact h.keep _
    refine ⟨ring_pos, Nat.zero_le ring, le_refl 0, by simp only; norm_num, ?_, ?_⟩
    · simp only [CapturePcm.buffered]
      rw [queued_zero, queueOf_snoc]
      rfl
    · exact hread.covered.snoc (fun k hk => by cases hk)
  · simp only [if_neg hok]
    exact h.keep _

theorem ringInv_step {stream : Stream} {p p' : CapturePcm} {e : CaptureEvent} (hs : captureStep stream p e = some p')
    (h : RingInv p) : RingInv p' := by
  cases e with
  | receiveCapture arrived =>
    cases hs
    exact ringInv_receiveCapture h arrived
  | transfer applPtr step first periodSize arrived frames =>
    cases hs
    exact ringInv_transfer h stream applPtr step first periodSize arrived frames
  | prepare sent arrived =>
    cases hs
    exact ringInv_prepare h stream sent arrived

/-- What every call finds and leaves: the ring and the phase in their bounds, and in the ring a run
of the newest samples. What is read pushes out the oldest only; a frame consumes at most two
samples, and no more than there are. -/
theorem capture_ring_holds_newest {stream : Stream} {boundary : Nat} {es : List CaptureEvent} {p : CapturePcm}
    (h : exec (captureStep stream) (CapturePcm.opened boundary) es = some p) :
    p.head < ring ∧ p.count ≤ ring ∧ (0 ≤ p.phase ∧ p.phase < 1) ∧
      (p.buffered = queueOf ring p.history ∧ p.buffered <:+ arrivals p.history) ∧
      (∀ results, (p.receiveCapture results).buffered = keepLast ring (p.buffered ++ samplesRead results) ∧
        arrivals (p.receiveCapture results).history = arrivals p.history ++ samplesRead results) ∧
      ∀ before consumed after, p.history = before ++ .taken consumed :: after →
        consumed ≤ 2 ∧ consumed ≤ (queueOf ring before).length := by
  have hi : RingInv p := exec_inv (fun _ _ _ hs hi => ringInv_step hs hi) h (ringInv_opened boundary)
  refine ⟨hi.head, hi.count, ⟨hi.low, hi.high⟩, ⟨hi.buffered, ?_⟩, ?_, hi.covered⟩
  · rw [hi.buffered]
    exact queueOf_suffix ring p.history
  · intro results
    refine ⟨receiveCapture_buffered hi results, ?_⟩
    rw [receiveCapture_history, arrivals_append_arrived]

/-- Three samples and a fourth before four frames, at the slower pace of a low ring. -/
def fourFrames : List CaptureEvent :=
  [.prepare true [], .receiveCapture [.datagram [1, 0, 2, 0, 3, 255], .again],
    .transfer 0 16 0 480 [.datagram [9, 0]] [(0, 0), (0, 0), (0, 0), (0, 0)]]

theorem capture_ring_holds_newest_four_frames :
    ∃ p, exec (captureStep .capture) (CapturePcm.opened 65536) fourFrames = some p ∧ p.head = 3 ∧ p.count = 1 ∧
      p.phase = 249 / 250 ∧ p.buffered = [9] ∧ p.buffered <:+ arrivals p.history := by
  have hrun : exec (captureStep .capture) (CapturePcm.opened 65536) fourFrames =
      some ((exec (captureStep .capture) (CapturePcm.opened 65536) fourFrames).get (by decide +kernel)) :=
    (Option.some_get _).symm
  have hfacts := capture_ring_holds_newest hrun
  exact ⟨_, hrun, by decide +kernel, by decide +kernel, by decide +kernel, by decide +kernel, hfacts.2.2.2.1.2⟩

end Mux.Alsa
