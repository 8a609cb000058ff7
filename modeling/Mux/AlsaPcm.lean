import Mux.Lib.Run
import Mux.Lib.Bytes
import Mux.Lib.Ring

/-!
# The ALSA plugin's playback

The plugin's callbacks over its private record, one mono stream of 16-bit samples at 48 kHz.
Counters are 64-bit and wrap. The ring is addressed by positions since the last `prepare`;
what the application wrote lies there until the wall clock says it is played.

`World` puts the record beside what ALSA keeps: the application pointer and the position of
the last pointer result as counts that never wrap, and what was last written at each
position. The capture half of the record comes later; the poll descriptors are left out.
-/

namespace Mux.Alsa

open Lib

def rate : Nat := 48000

def packet : Nat := 480

/-- Slots of `playback`. -/
def ring : Nat := 8192

/-- Where the counters wrap. -/
def word : Nat := 2 ^ 64

structure MuxPcm where
  running : Bool
  dead : Bool
  startNs : Nat
  base : Nat
  sent : Nat
  boundary : Nat
  appCycles : Nat
  lastApp : Nat
  playback : Nat → Nat

inductive SendResult where
  | delivered
  | again
  | failed
deriving Repr, DecidableEq

def MuxPcm.elapsed (p : MuxPcm) (now : Nat) : Nat :=
  if p.running then (now + word - p.startNs) % word else 0

/-- No product overflows: a second's worth of nanoseconds times the rate is far below `word`. -/
def MuxPcm.position (p : MuxPcm) (now : Nat) : Nat :=
  (p.base + p.elapsed now / 1000000000 * rate + p.elapsed now % 1000000000 * rate / 1000000000) % word

/-- `application` with `io.appl_ptr`: the count it unwraps. -/
def MuxPcm.application (p : MuxPcm) (value : Nat) : Nat × MuxPcm :=
  let cycles :=
    if value < p.lastApp ∧ p.lastApp - value > p.boundary / 2 then (p.appCycles + p.boundary) % word
    else if value > p.lastApp ∧ value - p.lastApp > p.boundary / 2 ∧ p.appCycles ≥ p.boundary then
      p.appCycles - p.boundary
    else p.appCycles
  ((cycles + value) % word, { p with appCycles := cycles, lastApp := value })

/-- Whether one byte went out; the plugin is dead when it did not. -/
def MuxPcm.command (p : MuxPcm) (sent : Bool) : MuxPcm := { p with dead := p.dead || !sent }

def MuxPcm.start (p : MuxPcm) (sent : Bool) (now : Nat) : MuxPcm :=
  if sent then { p with startNs := now, running := true } else p.command sent

def MuxPcm.stop (p : MuxPcm) (sent : Bool) (now : Nat) : MuxPcm :=
  { p with base := p.position now, running := false }.command sent

/-- The record after `prepare`, and whether it got past the command. -/
def MuxPcm.prepare (p : MuxPcm) (sent : Bool) : MuxPcm × Bool :=
  if p.dead then (p, false)
  else if sent then
    ({ p with running := false, base := 0, sent := 0, appCycles := 0, lastApp := 0, playback := fun _ => 0 }, true)
  else (p.command sent, false)

/-- One datagram of samples from position `sent` on. -/
def MuxPcm.datagram (p : MuxPcm) (count : Nat) : Bytes :=
  2 :: (List.range count).flatMap fun i => leBytes 2 (p.playback ((p.sent + i) % ring))

/-- `while (p->sent < pos)`; a datagram that would block is dropped. -/
def MuxPcm.sendLoop (pos : Nat) : Nat → MuxPcm → List SendResult → MuxPcm × List Bytes
  | 0, p, _ => (p, [])
  | fuel + 1, p, results =>
    if p.sent < pos then
      let count := if pos - p.sent > packet then packet else pos - p.sent
      let dead := p.dead || results.headD .delivered == .failed
      let (q, rest) := sendLoop pos fuel { p with dead := dead, sent := p.sent + count } results.tail
      (q, p.datagram count :: rest)
    else (p, [])

/-- `pointer`: its result, none for `-EPIPE`, the record and the datagrams. -/
def MuxPcm.pointer (p : MuxPcm) (applPtr : Nat) (draining : Bool) (now : Nat) (results : List SendResult) :
    Option Nat × MuxPcm × List Bytes :=
  let pos := p.position now
  let (app, p) := p.application applPtr
  let pos := if draining && decide (pos > app) then app else pos
  if p.running && decide (pos > app) then (none, p, [])
  else if p.running then
    let (q, out) := p.sendLoop pos pos results
    (some (pos % p.boundary), q, out)
  else (some (pos % p.boundary), p, [])

/-- `transfer` with the areas' step and first bit and the frames, low byte first: whether
they were taken. -/
def MuxPcm.transfer (p : MuxPcm) (applPtr step first : Nat) (frames : List (UInt8 × UInt8)) : Bool × MuxPcm :=
  if p.dead then (false, p)
  else if step ≠ 16 ∨ first % 8 ≠ 0 then (false, p)
  else
    let (app, p) := p.application applPtr
    (true, { p with playback := writeRing ring p.playback app (frames.map fun f => leValue [f.1, f.2]) })

/-! ## ALSA around it -/

inductive Phase where
  | setup
  | prepared
  | started
  | stopped
deriving Repr, DecidableEq

structure World where
  pcm : MuxPcm
  phase : Phase
  clock : Nat
  /-- Frames the application is at, and the last pointer result, since the last prepare. -/
  applPtr : Nat
  hw : Nat
  /-- Positions below it have been written since the last prepare. -/
  extent : Nat
  written : Nat → Option Nat
  /-- Datagrams handed to the socket since the last prepare. -/
  socket : List Bytes

inductive Event where
  | prepare (sent timer : Bool)
  | start (sent : Bool) (now : Nat)
  | stop (sent : Bool) (now : Nat)
  | pointer (draining : Bool) (now : Nat) (results : List SendResult)
  | transfer (step first : Nat) (frames : List (UInt8 × UInt8))
  | seek (applPtr : Nat)
  | revents (broken : Bool)
deriving Repr, DecidableEq

/-- ALSA takes a pointer result as an advance over the last one. -/
def advance (boundary hw result : Nat) : Nat := hw + (result + boundary - hw % boundary) % boundary

def step (w : World) : Event → Option World
  | .prepare sent timer =>
    let (p, ok) := w.pcm.prepare sent
    -- the pointers are reset before the callback is called
    some { w with
      pcm := p, phase := if ok && timer then .prepared else .setup, applPtr := 0, hw := 0, extent := 0,
      written := fun _ => none, socket := [] }
  | .start sent now =>
    some { w with pcm := w.pcm.start sent now, clock := now, phase := if sent then .started else w.phase }
  | .stop sent now =>
    some { w with
      pcm := w.pcm.stop sent now, clock := now, phase := if w.phase = .setup then .setup else .stopped }
  | .pointer draining now results =>
    let (result, p, out) := w.pcm.pointer (w.applPtr % w.pcm.boundary) draining now results
    some { w with
      pcm := p, clock := now, socket := w.socket ++ out,
      hw := match result with
        | some r => advance w.pcm.boundary w.hw r
        | none => w.hw }
  | .transfer areaStep first frames =>
    let (ok, p) := w.pcm.transfer (w.applPtr % w.pcm.boundary) areaStep first frames
    some (if ok then
      { w with
        pcm := p, applPtr := w.applPtr + frames.length, extent := max w.extent (w.applPtr + frames.length),
        written := writeAll w.written w.applPtr (frames.map fun f => leValue [f.1, f.2]) }
    else { w with pcm := p })
  | .seek applPtr => some { w with applPtr := applPtr }
  | .revents broken => some { w with pcm := { w.pcm with dead := w.pcm.dead || broken } }

/-- What ALSA and the application keep to, in the state an event finds. -/
def Obeys (bufferSize : Nat) (w : World) : Event → Prop
  | .start _ now => w.phase = .prepared ∧ w.clock ≤ now ∧ now < word
  | .stop _ now => w.clock ≤ now ∧ now < word
  | .pointer _ now _ => w.clock ≤ now ∧ now < word
  | .transfer _ _ frames => w.phase ≠ .stopped ∧ w.applPtr + frames.length ≤ w.hw + bufferSize
  | .seek applPtr => w.hw ≤ applPtr ∧ applPtr ≤ w.extent
  | .prepare _ _ | .revents _ => True

instance decidableObeys (bufferSize : Nat) (w : World) : ∀ e, Decidable (Obeys bufferSize w e)
  | .start _ now => inferInstanceAs (Decidable (w.phase = .prepared ∧ w.clock ≤ now ∧ now < word))
  | .stop _ now => inferInstanceAs (Decidable (w.clock ≤ now ∧ now < word))
  | .pointer _ now _ => inferInstanceAs (Decidable (w.clock ≤ now ∧ now < word))
  | .transfer _ _ frames =>
    inferInstanceAs (Decidable (w.phase ≠ .stopped ∧ w.applPtr + frames.length ≤ w.hw + bufferSize))
  | .seek applPtr => inferInstanceAs (Decidable (w.hw ≤ applPtr ∧ applPtr ≤ w.extent))
  | .prepare _ _ | .revents _ => isTrue trivial

/-- The plugin as it was opened: ALSA's boundary is known. -/
def opened (boundary : Nat) : World where
  pcm := ⟨false, false, 0, 0, 0, boundary, 0, 0, fun _ => 0⟩
  phase := .setup
  clock := 0
  applPtr := 0
  hw := 0
  extent := 0
  written := fun _ => none
  socket := []

/-- The samples of a datagram of samples. -/
def pcmOf : Bytes → Bytes
  | 2 :: pcm => pcm
  | _ => []

end Mux.Alsa
