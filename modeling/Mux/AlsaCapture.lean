import Mathlib.Algebra.Order.Ring.Rat
import Mux.AlsaPcm
import Mux.Lib.Queue

/-!
# The ALSA plugin's capture

The capture half of the plugin's record: a ring of samples that drops the oldest when it is
full, filled from the socket and drained by `transfer` through a resampler. The resampler's
`phase` is an exact rational here, the source's a `double`. The callbacks that touch the ring
are modelled on the whole record; `start`, `stop` and `pointer` leave it alone, and
`poll_revents` reaches it through `receive_capture`.
-/

namespace Mux.Alsa

open Lib

/-- Where an `unsigned` wraps. -/
def uintRange : Nat := 2 ^ 32

inductive Stream where
  | playback
  | capture
deriving Repr, DecidableEq

/-- The whole record. `history` is kept for the statements: what `receive_capture` stored, what
each output frame consumed and when `prepare` cleared the ring. -/
structure CapturePcm extends MuxPcm where
  capture : Nat → Int16
  head : Nat
  count : Nat
  phase : Rat
  history : List (Happening Int16)

/-- What `recv` gives: a whole datagram, of which at most 960 bytes fit, `EAGAIN` or `EINTR`,
or another error. A closed socket gives the empty datagram. -/
inductive Recv where
  | datagram (packet : Bytes)
  | again
  | failed
deriving Repr, DecidableEq

/-! ## receive_capture -/

/-- `(int16_t)((uint16_t)packet[i] | (uint16_t)packet[i + 1] << 8)` -/
def sampleOf (low high : UInt8) : Int16 := (low.toUInt16 ||| high.toUInt16 <<< 8).toInt16

def samplesOf : Bytes → List Int16
  | low :: high :: rest => sampleOf low high :: samplesOf rest
  | _ => []

/-- One sample into the ring; a full ring loses its oldest. -/
def CapturePcm.store (p : CapturePcm) (sample : Int16) : CapturePcm :=
  let q := if p.count = ring then { p with head := (p.head + 1) % ring, count := p.count - 1 } else p
  { q with
    capture := Function.update q.capture ((q.head + q.count) % ring) sample, count := q.count + 1,
    history := q.history ++ [.arrived sample] }

def CapturePcm.receiveLoop : Nat → CapturePcm → List Recv → CapturePcm
  | 0, p, _ => p
  | fuel + 1, p, results =>
    match results.headD .again with
    | .again => p
    | .failed => { p with dead := true }
    | .datagram bytes =>
      if bytes.length = 0 ∨ bytes.length > packet * 2 ∨ bytes.length % 2 ≠ 0 then { p with dead := true }
      else receiveLoop fuel ((samplesOf bytes).foldl CapturePcm.store p) results.tail

/-- At most 32 packets a call. With no result left there is nothing to read. -/
def CapturePcm.receiveCapture (p : CapturePcm) (results : List Recv) : CapturePcm := p.receiveLoop 32 results

/-! ## transfer -/

/-- A conversion from `double` to an integer drops the fraction. -/
def truncate (x : Rat) : Int := x.num.tdiv x.den

/-- `a + (b - a) * phase` -/
def interpolate (a b : Int16) (phase : Rat) : Rat := a.toInt + (b.toInt - a.toInt) * phase

/-- The pace of a call, by how full the ring is. -/
def CapturePcm.stepFor (p : CapturePcm) (periodSize : Nat) : Rat :=
  if p.count > (periodSize + packet) % word then 1001 / 1000
  else if p.count < periodSize then 999 / 1000
  else 1

/-- One frame of the loop: its sample, and the record after it. -/
def CapturePcm.captureFrame (p : CapturePcm) (step : Rat) : Int16 × CapturePcm :=
  if p.count ≥ 2 then
    let a := p.capture p.head
    let b := p.capture ((p.head + 1) % ring)
    let phase := p.phase + step
    let consumed := (truncate phase).toNat
    ((truncate (interpolate a b p.phase)).toInt16,
      { p with
        phase := phase - consumed, head := (p.head + consumed) % ring,
        count := (p.count + uintRange - consumed) % uintRange, history := p.history ++ [.taken consumed] })
  else (0, { p with phase := 0, history := p.history ++ [.taken 0] })

def CapturePcm.captureLoop (step : Rat) : Nat → CapturePcm → List Int16 × CapturePcm
  | 0, p => ([], p)
  | frames + 1, p =>
    let (sample, q) := p.captureFrame step
    let (rest, r) := captureLoop step frames q
    (sample :: rest, r)

/-- A sample in the application's area, low byte first. -/
def frameOf (sample : Int16) : UInt8 × UInt8 :=
  ((sample.toUInt16 &&& 255).toUInt8, (sample.toUInt16 >>> 8).toUInt8)

/-- `transfer` with the frames of the application's area: whether they were taken, and the area
and the record after it. -/
def CapturePcm.transfer (p : CapturePcm) (stream : Stream) (applPtr step first periodSize : Nat) (arrived : List Recv)
    (frames : List (UInt8 × UInt8)) : Bool × List (UInt8 × UInt8) × CapturePcm :=
  match stream with
  | .playback =>
    let (ok, pcm) := p.toMuxPcm.transfer applPtr step first frames
    (ok, frames, { p with toMuxPcm := pcm })
  | .capture =>
    if p.dead then (false, frames, p)
    else if step ≠ 16 ∨ first % 8 ≠ 0 then (false, frames, p)
    else
      let (_, pcm) := p.toMuxPcm.application applPtr
      let q := { p with toMuxPcm := pcm }.receiveCapture arrived
      let (samples, r) := q.captureLoop (q.stepFor periodSize) frames.length
      (!r.dead, samples.map frameOf, r)

/-! ## prepare -/

/-- The record after `prepare`, and whether it got past the command. What waits in the socket is
read before the ring is cleared. -/
def CapturePcm.prepare (p : CapturePcm) (stream : Stream) (sent : Bool) (arrived : List Recv) : CapturePcm × Bool :=
  let (pcm, ok) := p.toMuxPcm.prepare sent
  let q := { p with toMuxPcm := pcm }
  if ok then
    let r := if stream = .capture then q.receiveCapture arrived else q
    ({ r with head := 0, count := 0, phase := 0, history := r.history ++ [.cleared] }, true)
  else (q, false)

/-! ## Calls in any order -/

inductive CaptureEvent where
  | receiveCapture (arrived : List Recv)
  | transfer (applPtr step first periodSize : Nat) (arrived : List Recv) (frames : List (UInt8 × UInt8))
  | prepare (sent : Bool) (arrived : List Recv)
deriving Repr, DecidableEq

def captureStep (stream : Stream) (p : CapturePcm) : CaptureEvent → Option CapturePcm
  | .receiveCapture arrived => some (p.receiveCapture arrived)
  | .transfer applPtr step first periodSize arrived frames =>
    some (p.transfer stream applPtr step first periodSize arrived frames).2.2
  | .prepare sent arrived => some (p.prepare stream sent arrived).1

/-- The record as `calloc` left it, with ALSA's boundary. -/
def CapturePcm.opened (boundary : Nat) : CapturePcm where
  toMuxPcm := (Alsa.opened boundary).pcm
  capture := fun _ => 0
  head := 0
  count := 0
  phase := 0
  history := []

/-- The samples in the ring, the oldest first. -/
def CapturePcm.buffered (p : CapturePcm) : List Int16 := queued ring p.capture p.head p.count

end Mux.Alsa
