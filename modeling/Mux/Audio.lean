import Mux.Lib.Bytes
import Mux.Lib.Run
import Mux.Lib.Span

/-!
# The media of an audio route

A Linux daemon runs `serve_route`, a Mac daemon `bridge`, on one connection. State messages go
from the first to the second on a reliable stream. Audio goes both ways in datagrams, which a
network may lose, repeat, reorder or make up: a datagram that arrives is any byte string.

`bridge` is three tasks on one driver socket. A task that writes to the driver first waits for the
writer, whose lock is granted in the order it was asked for.
-/

namespace Mux.Audio

open Lib (leBytes leValue Span)

def samplesMax : Nat := 480

def maxPcm : Nat := samplesMax * 2

def header : Nat := 24

def maxPacket : Nat := header + maxPcm

/-- `u64::checked_add` -/
def checkedAdd (a b : Nat) : Option Nat := if a + b < 2 ^ 64 then some (a + b) else none

structure State where
  capture : Bool
  playback : Bool
  captureEpoch : Nat
  playbackEpoch : Nat
deriving DecidableEq, Repr

def State.default : State := { capture := false, playback := false, captureEpoch := 0, playbackEpoch := 0 }

def packet (token epoch position : Nat) (pcm : Lib.Bytes) : Option Lib.Bytes :=
  if pcm.isEmpty || decide (maxPcm < pcm.length) || decide (pcm.length % 2 ≠ 0) then none
  else some (leBytes 8 token ++ leBytes 8 epoch ++ leBytes 8 position ++ pcm)

structure Packet where
  epoch : Nat
  position : Nat
  pcm : Lib.Bytes
deriving DecidableEq, Repr

def Packet.samples (p : Packet) : Nat := p.pcm.length / 2

def Packet.span (p : Packet) : Span := { epoch := p.epoch, start := p.position, stop := p.position + p.samples }

def unpack (data : Lib.Bytes) (token : Nat) : Option Packet :=
  if decide (data.length < header + 2) || decide (maxPacket < data.length) || decide (data.length % 2 ≠ 0) then none
  else
    let found := leValue (data.take 8)
    let epoch := leValue ((data.drop 8).take 8)
    let position := leValue ((data.drop 16).take 8)
    if found = token then some { epoch := epoch, position := position, pcm := data.drop header } else none

structure Sequence where
  epoch : Nat
  stop : Option Nat
deriving DecidableEq, Repr

def Sequence.default : Sequence := { epoch := 0, stop := none }

def Sequence.accept (q : Sequence) (epoch position samples : Nat) : Sequence × Bool :=
  match checkedAdd position samples with
  | none => (q, false)
  | some stop =>
    if epoch < q.epoch then (q, false)
    else
      let q := if q.epoch < epoch then { epoch := epoch, stop := none } else q
      if q.stop.any fun previous => decide (position < previous) then (q, false)
      else ({ q with stop := some stop }, true)

/-! ## serve_route -/

/-- The locals of `serve_route`. `captured` and `sent` are kept for the statements: what went to the
devices and which datagrams went out. -/
structure Serve where
  token : Nat
  running : Bool
  state : State
  playbackPosition : Nat
  clients : List (Nat × Bool)
  sequence : Sequence
  captured : List Packet
  sent : List Lib.Bytes
deriving DecidableEq, Repr

def Serve.open (token : Nat) : Serve where
  token := token
  running := true
  state := .default
  playbackPosition := 0
  clients := []
  sequence := .default
  captured := []
  sent := []

/-- Whether a client runs a device of this direction. -/
def anyRunning (clients : List (Nat × Bool)) (capture : Bool) : Bool := clients.any fun c => c.2 == capture

def Serve.clientsAfter (r : Serve) (id : Nat) (capture running : Bool) : List (Nat × Bool) :=
  if running then r.clients.insert (id, capture) else r.clients.filter (· != (id, capture))

/-- An epoch after its direction went from `was` to `is`; `none` when it would overflow. -/
def epochAfter (epoch : Nat) (was is : Bool) : Option Nat := if is && !was then checkedAdd epoch 1 else some epoch

/-- `Event::Running`, and whether a State message is written. `none` is an epoch overflow, which ends the route. -/
def Serve.onRunning (r : Serve) (id : Nat) (capture running : Bool) : Option (Serve × Bool) :=
  let clients := r.clientsAfter id capture running
  let captures := anyRunning clients true
  let plays := anyRunning clients false
  match epochAfter r.state.captureEpoch r.state.capture captures,
    epochAfter r.state.playbackEpoch r.state.playback plays with
  | some captureEpoch, some playbackEpoch =>
    let next : State :=
      { capture := captures, playback := plays, captureEpoch := captureEpoch, playbackEpoch := playbackEpoch }
    let position := if plays && !r.state.playback then 0 else r.playbackPosition
    some ({ r with clients := clients, state := next, playbackPosition := position }, next != r.state)
  | _, _ => none

/-- `Event::Playback` -/
def Serve.onPlayback (r : Serve) (pcm : Lib.Bytes) : Option Serve :=
  match packet r.token r.state.playbackEpoch r.playbackPosition pcm with
  | none => some r
  | some data =>
    match checkedAdd r.playbackPosition (pcm.length / 2) with
    | none => none
    | some position => some { r with playbackPosition := position, sent := r.sent ++ [data] }

/-- A datagram read from the connection. -/
def Serve.onDatagram (r : Serve) (data : Lib.Bytes) : Serve :=
  match unpack data r.token with
  | none => r
  | some p =>
    if r.state.capture && decide (p.epoch = r.state.captureEpoch) then
      let (q, ok) := r.sequence.accept p.epoch p.position p.samples
      { r with sequence := q, captured := if ok then r.captured ++ [p] else r.captured }
    else r

/-! ## bridge -/

/-- What the driver is written: a State message or a packet's epoch and samples. -/
inductive Frame where
  | events (state : State)
  | output (epoch : Nat) (pcm : Lib.Bytes)
deriving DecidableEq, Repr

/-- A task of `bridge` that has asked for the writer; the first of the queue holds it. -/
inductive Waiter where
  | controls (state : State)
  | playback (p : Packet)
deriving DecidableEq, Repr

/-- The locals of the tasks of `bridge`. `entered` says that `controls` holds the writer and has stored
its state. `admitted`, `sent` and `out` are kept for the statements. -/
structure Bridge where
  token : Nat
  running : Bool
  latest : State
  position : Nat
  sequence : Sequence
  queue : List Waiter
  entered : Bool
  admitted : List Packet
  sent : List Lib.Bytes
  out : List Frame
deriving DecidableEq, Repr

def Bridge.open (token : Nat) : Bridge where
  token := token
  running := true
  latest := .default
  position := 0
  sequence := .default
  queue := []
  entered := false
  admitted := []
  sent := []
  out := []

def Waiter.isControls : Waiter → Bool
  | .controls _ => true
  | .playback _ => false

/-- The `capture` task on one message of the driver; `none` is an error, which ends the bridge. -/
def Bridge.onCapture (b : Bridge) (data : Lib.Bytes) : Option Bridge :=
  if data.length < 10 then none
  else
    let epoch := leValue (data.take 8)
    let pcm := data.drop 8
    if !b.latest.capture || decide (epoch ≠ b.latest.captureEpoch) then some b
    else
      match packet b.token epoch b.position pcm with
      | none => none
      | some data =>
        match checkedAdd b.position (pcm.length / 2) with
        | none => none
        | some position => some { b with position := position, sent := b.sent ++ [data] }

/-- The `controls` task has read a State message and asks for the writer. -/
def Bridge.onState (b : Bridge) (state : State) : Option Bridge :=
  if b.queue.any Waiter.isControls then none
  else some { b with queue := b.queue ++ [.controls state] }

/-- The `playback` task on one datagram: it asks for the writer when the packet is admitted. -/
def Bridge.onDatagram (b : Bridge) (data : Lib.Bytes) : Option Bridge :=
  if b.queue.any fun w => !w.isControls then none
  else
    match unpack data b.token with
    | none => some b
    | some p =>
      if p.epoch = b.latest.playbackEpoch then
        let (q, ok) := b.sequence.accept p.epoch p.position p.samples
        if ok then some { b with sequence := q, admitted := b.admitted ++ [p], queue := b.queue ++ [.playback p] }
        else some { b with sequence := q }
      else some b

/-- The task that holds the writer goes on: `controls` stores its state and then writes it, `playback` writes. -/
def Bridge.advance (b : Bridge) : Option Bridge :=
  match b.queue with
  | [] => none
  | .playback p :: rest => some { b with queue := rest, out := b.out ++ [.output p.epoch p.pcm] }
  | .controls state :: rest =>
    if b.entered then some { b with queue := rest, entered := false, out := b.out ++ [.events state] }
    else some { b with latest := state, entered := true }

/-! ## Both ends -/

/-- `states` are the State messages under way, oldest first. -/
structure System where
  serve : Serve
  bridge : Bridge
  states : List State
deriving DecidableEq, Repr

def init (token : Nat) : System where
  serve := .open token
  bridge := .open token
  states := []

inductive Label where
  | running (id : Nat) (capture running : Bool)
  | playback (pcm : Lib.Bytes)
  | heartbeat
  | serveDatagram (data : Lib.Bytes)
  | serveEnds
  | control
  | capture (data : Lib.Bytes)
  | bridgeDatagram (data : Lib.Bytes)
  | advance
  | bridgeEnds
deriving DecidableEq, Repr

def System.stepServe (s : System) : Label → Option System
  | .running id capture running =>
    match s.serve.onRunning id capture running with
    | none => some { s with serve := { s.serve with running := false } }
    | some (r, true) => some { s with serve := r, states := s.states ++ [r.state] }
    | some (r, false) => some { s with serve := r }
  | .playback pcm =>
    match s.serve.onPlayback pcm with
    | none => some { s with serve := { s.serve with running := false } }
    | some r => some { s with serve := r }
  | .heartbeat => some { s with states := s.states ++ [s.serve.state] }
  | .serveDatagram data => some { s with serve := s.serve.onDatagram data }
  | .serveEnds => some { s with serve := { s.serve with running := false } }
  | _ => none

def System.stepBridge (s : System) : Label → Option System
  | .control =>
    match s.states with
    | [] => none
    | state :: rest => (s.bridge.onState state).map fun b => { s with bridge := b, states := rest }
  | .capture data =>
    match s.bridge.onCapture data with
    | none => some { s with bridge := { s.bridge with running := false } }
    | some b => some { s with bridge := b }
  | .bridgeDatagram data => (s.bridge.onDatagram data).map fun b => { s with bridge := b }
  | .advance => s.bridge.advance.map fun b => { s with bridge := b }
  | .bridgeEnds => some { s with bridge := { s.bridge with running := false } }
  | _ => none

def Label.atServe : Label → Bool
  | .running .. | .playback _ | .heartbeat | .serveDatagram _ | .serveEnds => true
  | _ => false

def step (s : System) (a : Label) : Option System :=
  if a.atServe then if s.serve.running then s.stepServe a else none
  else if s.bridge.running then s.stepBridge a else none

end Mux.Audio
