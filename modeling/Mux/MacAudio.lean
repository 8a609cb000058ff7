import Mux.AlsaCapture
import Mux.Audio
import Mux.Lib.Channel
import Mux.Lib.Rounding

/-!
# The Mac's audio helper

`run_ready` of mac.rs and the two queues of coreaudio.c. The task that reads the bridge's frames tells the
queues when to run and feeds the playback buffer; the callbacks of the queues run on threads of their own, in
between any two of its steps. `now` is a clock in milliseconds, `ok` whether the calls of AudioToolbox succeed.
-/

namespace Mux.MacAudio

open Lib
open Audio (State maxPcm)

def queueMax : Nat := 4800

/-- The frames of one device buffer. -/
def bufferFrames : Nat := 480

def buffers : Nat := 4

/-! ## The playback buffer -/

/-- A sample that waits to be played; the epoch it was sent in is kept for the statements. -/
structure Sample where
  epoch : Nat
  value : Int16
deriving DecidableEq, Repr

/-- `history` is kept for the statements. -/
structure Playback where
  samples : List Sample
  phase : Rat
  history : List (Happening Sample)
deriving DecidableEq

def Playback.default : Playback := { samples := [], phase := 0, history := [] }

def Playback.clear (p : Playback) : Playback := { samples := [], phase := 0, history := p.history ++ [.cleared] }

def Playback.push (p : Playback) (new : List Sample) : Playback :=
  { p with samples := keepLast queueMax (p.samples ++ new), history := p.history ++ new.map .arrived }

/-- `as i16` -/
def toI16 (x : Rat) : Int16 := Int16.ofInt (max (-32768) (min 32767 (Alsa.truncate x)))

section
variable (F : Rounding)

/-- Faster when much is queued, slower when little is. -/
def stepFor (n : Nat) : Rat :=
  if n > 1920 then F.round (1001 / 1000) else if n < 960 then F.round (999 / 1000) else 1

/-- `while ring.phase >= 1.0`, at most `fuel` turns; the samples popped are counted. -/
def pops : Nat → Rat → Nat × Rat
  | 0, phase => (0, phase)
  | fuel + 1, phase => if 1 ≤ phase then ((pops fuel (F.round (phase - 1))).1 + 1, (pops fuel (F.round (phase - 1))).2) else (0, phase)

/-- One output sample, while two samples are queued. -/
def Playback.frame (p : Playback) (step : Rat) : Option (Int16 × Playback) :=
  match p.samples with
  | a :: b :: _ =>
    let (popped, phase) := pops F 3 (F.round (p.phase + step))
    some (toI16 (F.interpolate a.value.toInt b.value.toInt p.phase),
      { samples := p.samples.drop popped, phase := phase, history := p.history ++ [.taken popped] })
  | _ => none

/-- What is left of the output is silence. -/
def Playback.loop (step : Rat) : Nat → Playback → List Int16 × Playback
  | 0, p => ([], p)
  | count + 1, p =>
    match p.frame F step with
    | some (v, q) => (v :: (loop step count q).1, (loop step count q).2)
    | none => (List.replicate (count + 1) 0, { p with phase := 0 })

/-- `playback`; when the lock is taken it gives silence. -/
def Playback.callback (p : Playback) (count : Nat) (locked : Bool) : List Int16 × Playback :=
  if locked then (List.replicate count 0, p) else p.loop F (stepFor F p.samples.length) count

/-- `fill` on so many buffers in a row. -/
def Playback.fill (p : Playback) : Nat → List Int16 × Playback
  | 0 => ([], p)
  | n + 1 =>
    let (first, q) := p.callback F bufferFrames false
    (first ++ (fill q n).1, (fill q n).2)

end

/-! ## The helper -/

/-- Where the task stands: at its `select`, or between the steps a message or a timer makes it take. -/
inductive Phase where
  | waiting
  | clearing (next : State)
  | storing (next : State)
  | starting
  | draining
  | ended
deriving DecidableEq, Repr

/-- `recording` and `playing` are the flags of coreaudio.c. `pending` is a buffer whose callback has found
`recording` set. `heard` is every sample that was handed to the output queue. -/
structure Helper where
  phase : Phase
  state : State
  drainUntil : Option Nat
  lastControl : Nat
  previous : Nat × Nat
  stalled : Nat
  recording : Bool
  playing : Bool
  captureEpoch : Nat
  inputFrames : Nat
  outputFrames : Nat
  output : Playback
  pending : Option (List Int16)
  captured : Channel Lib.Bytes 8
  heard : List Int16

def Helper.open (now : Nat) : Helper where
  phase := .waiting
  state := .default
  drainUntil := none
  lastControl := now
  previous := (0, 0)
  stalled := 0
  recording := false
  playing := false
  captureEpoch := 0
  inputFrames := 0
  outputFrames := 0
  output := .default
  pending := none
  captured := .new
  heard := []

/-- The process ends, and with it both queues. -/
def Helper.end (h : Helper) : Helper := { h with phase := .ended, recording := false, playing := false, pending := none }

section
variable (F : Rounding)

/-- `mux_audio_state`: a queue that is to play begins with full buffers. -/
def Helper.audioState (h : Helper) (capture playback ok : Bool) : Option Helper :=
  if h.recording ≠ capture ∧ ok = false then none
  else if h.playing ≠ playback ∧ ok = false then none
  else if playback && !h.playing then
    let (samples, output) := h.output.fill F buffers
    some { h with recording := capture, playing := true, output := output, heard := h.heard ++ samples,
                  outputFrames := h.outputFrames + buffers * bufferFrames }
  else some { h with recording := capture, playing := playback }

/-- What follows a call of `mux_audio_state`. -/
def Helper.thenPhase (r : Option Helper) (h : Helper) (p : Phase) : Helper :=
  match r with
  | some q => { q with phase := p }
  | none => h.end

/-- A State message: an epoch that is over is stopped before anything of it is discarded. -/
def Helper.onEvents (h : Helper) (next : State) (now : Nat) (ok : Bool) : Helper :=
  let h := { h with lastControl := now }
  if next.playbackEpoch ≠ h.state.playbackEpoch then
    h.thenPhase (h.audioState F h.state.capture false ok) (.clearing next)
  else { h with phase := .storing next }

def Helper.drainAfter (h : Helper) (next : State) (now : Nat) : Option Nat :=
  if next.playback then none
  else if h.state.playback && !next.playback then some (now + 200) else h.drainUntil

/-- A frame of samples; one of another epoch, or of a playback that is over, is passed over. -/
def Helper.onOutput (h : Helper) (epoch : Nat) (pcm : Lib.Bytes) : Helper :=
  if pcm.length < 2 ∨ maxPcm < pcm.length ∨ pcm.length % 2 ≠ 0 then h.end
  else if epoch ≠ h.state.playbackEpoch ∨ (h.state.playback = false ∧ h.drainUntil = none) then h
  else { h with output := h.output.push ((Alsa.samplesOf pcm).map fun v => ⟨epoch, v⟩) }

/-- The next step of the task between its `select`s. -/
def Helper.go (h : Helper) (now : Nat) (ok : Bool) : Option Helper :=
  match h.phase with
  | .clearing next => some { h with output := h.output.clear, phase := .storing next }
  | .storing next =>
    some { h with
      drainUntil := h.drainAfter next now
      stalled := if next ≠ h.state then 0 else h.stalled
      state := next
      captureEpoch := next.captureEpoch
      phase := .starting }
  | .starting => some (h.thenPhase (h.audioState F h.state.capture (h.state.playback || h.drainUntil.isSome) ok) .waiting)
  | .draining => some { h with output := h.output.clear, phase := .waiting }
  | .waiting | .ended => none

/-- The tick of the drain's clock. -/
def Helper.onDrain (h : Helper) (now : Nat) (ok : Bool) : Option Helper :=
  match h.drainUntil with
  | none => none
  | some deadline =>
    if deadline ≤ now then
      let h := { h with drainUntil := none }
      some (h.thenPhase (h.audioState F h.state.capture false ok) .draining)
    else some h

/-- The tick of the watchdog. -/
def Helper.onClock (h : Helper) (now : Nat) : Helper :=
  if 2000 ≤ now - h.lastControl then h.end
  else
    let stuck := (h.state.capture && h.inputFrames == h.previous.1) || (h.state.playback && h.outputFrames == h.previous.2)
    let stalled := if stuck then h.stalled + 1 else 0
    if 3 ≤ stalled then h.end
    else { h with stalled := stalled, previous := (h.inputFrames, h.outputFrames) }

/-- `value.to_le_bytes()` of each sample. -/
def bytesOf (samples : List Int16) : Lib.Bytes := samples.flatMap fun v => [(Alsa.frameOf v).1, (Alsa.frameOf v).2]

/-- What the capture callback hands over for one buffer; a full channel drops it. -/
def Helper.capture (h : Helper) (samples : List Int16) : Helper :=
  let h := { h with inputFrames := h.inputFrames + samples.length, pending := none }
  if samples.isEmpty then h
  else match h.captured.send (leBytes 8 h.captureEpoch ++ bytesOf samples) with
    | some c => { h with captured := c }
    | none => h

/-! ## Steps -/

/-- `message` is a frame from the bridge, `hangup` its end, a frame that is none, or a signal. -/
inductive Label where
  | message (f : Audio.Frame) (now : Nat) (ok : Bool)
  | hangup
  | go (now : Nat) (ok : Bool)
  | drain (now : Nat) (ok : Bool)
  | clock (now : Nat)
  | inputReady (samples : List Int16)
  | inputCallback
  | outputCallback (locked : Bool)
  | upload

def step (h : Helper) : Label → Option Helper
  | .message (.events next) now ok => if h.phase = .waiting then some (h.onEvents F next now ok) else none
  | .message (.output epoch pcm) _ _ => if h.phase = .waiting then some (h.onOutput epoch pcm) else none
  | .hangup => if h.phase = .ended then none else some h.end
  | .go now ok => h.go F now ok
  | .drain now ok => if h.phase = .waiting then h.onDrain F now ok else none
  | .clock now => if h.phase = .waiting then some (h.onClock now) else none
  | .inputReady samples =>
    if h.recording = true ∧ h.pending = none ∧ samples.length ≤ bufferFrames then some { h with pending := some samples }
    else none
  | .inputCallback => h.pending.map fun samples => h.capture samples
  | .outputCallback locked =>
    if h.playing then
      let (samples, output) := h.output.callback F bufferFrames locked
      some { h with output := output, heard := h.heard ++ samples, outputFrames := h.outputFrames + bufferFrames }
    else none
  | .upload =>
    if h.phase = .ended then none else h.captured.recv.map fun r => { h with captured := r.2 }

end

end Mux.MacAudio
