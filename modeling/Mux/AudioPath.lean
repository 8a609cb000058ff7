import Mux.Audio
import Mux.MacAudio

/-!
# The whole audio path

`device` of linux.rs is a task for each application that has opened the audio device of a pane. The tasks share
the route: the one that may play, and a channel of events to `serve_route`. From there the path goes over the
connection to `bridge`, and from `bridge` to the helper that drives the Mac's devices, and back.
-/

namespace Mux.AudioPath

open Lib
open Audio (maxPcm)

/-! ## Devices -/

inductive Event where
  | running (id : Nat) (capture running : Bool)
  | playback (pcm : Lib.Bytes)
deriving DecidableEq, Repr

/-- Where a task stands: at its `select`, waiting to send what it has just been told, or dropped. -/
inductive Phase where
  | looping
  | sending
  | gone
deriving DecidableEq, Repr

/-- `next` is the packet of the capture broadcast that it reads next. `asked` and `heard` are kept for the
statements: whether it was ever told to run, and the packets it has passed on. -/
structure Device where
  id : Nat
  capture : Bool
  phase : Phase
  active : Bool
  next : Nat
  asked : Bool
  heard : List Audio.Packet
deriving DecidableEq, Repr

/-- `stopping` are the tasks that still have to send that a device has stopped. `played` is kept for the
statements: the samples that were queued, and who queued them. -/
structure Route where
  devices : List Device
  owner : Option Nat
  events : List Event
  stopping : List (Nat × Bool)
  played : List (Nat × Lib.Bytes)
deriving DecidableEq, Repr

def Route.open : Route := { devices := [], owner := none, events := [], stopping := [], played := [] }

/-- The channel's capacity. -/
def eventsMax : Nat := 32

/-- The capacity of the capture broadcast. -/
def captureMax : Nat := 16

def Route.room (r : Route) : Bool := decide (r.events.length < eventsMax)

/-- A device after the handshake. -/
def Route.join (r : Route) (id : Nat) (capture : Bool) (next : Nat) : Route :=
  { r with
    devices := r.devices ++
      [{ id := id, capture := capture, phase := .looping, active := false, next := next, asked := false, heard := [] }] }

/-- The owner once this device no longer plays. -/
def Route.released (r : Route) (d : Device) : Option Nat :=
  if d.capture = false ∧ r.owner = some d.id then none else r.owner

/-- `Running::drop` -/
def Route.leave (r : Route) (k : Nat) (d : Device) : Route :=
  { r with
    devices := r.devices.set k { d with phase := .gone }
    owner := r.released d
    stopping := r.stopping ++ [(d.id, d.capture)] }

/-- The device is told to start or to stop. Another application may be playing. -/
def Route.onControl (r : Route) (k : Nat) (d : Device) (active : Bool) : Route :=
  let d := { d with active := active, asked := d.asked || active }
  if d.capture then { r with devices := r.devices.set k { d with phase := .sending } }
  else if active then
    if r.owner = none ∨ r.owner = some d.id then
      { r with devices := r.devices.set k { d with phase := .sending }, owner := some d.id }
    else r.leave k d
  else { r with devices := r.devices.set k { d with phase := .sending }, owner := r.released d }

/-- One packet of the application. A full channel drops samples. -/
def Route.onMessage (r : Route) (running : Bool) (k : Nat) (d : Device) (data : Lib.Bytes) : Route :=
  if data.length > maxPcm + 1 then r.leave k d
  else match data with
    | [] => r.leave k d
    | [0] => r.onControl k d false
    | [1] => r.onControl k d true
    | b :: pcm =>
      if b = 2 ∧ d.capture = false ∧ d.active = true ∧ pcm ≠ [] ∧ pcm.length % 2 = 0 then
        if running && r.room then { r with events := r.events ++ [.playback pcm], played := r.played ++ [(d.id, pcm)] }
        else r
      else r.leave k d

/-- The task that waits to send goes on once there is room, or leaves when nobody receives. -/
def Route.onSend (r : Route) (running : Bool) (k : Nat) (d : Device) : Option Route :=
  if running = false then some (r.leave k d)
  else if r.room then
    some { r with
      devices := r.devices.set k { d with phase := .looping }
      events := r.events ++ [.running d.id d.capture d.active] }
  else none

/-- The task a drop has spawned. -/
def Route.onStop (r : Route) (running : Bool) (x : Nat × Bool) : Option Route :=
  if x ∈ r.stopping then
    if running = false then some { r with stopping := r.stopping.erase x }
    else if r.room then
      some { r with stopping := r.stopping.erase x, events := r.events ++ [.running x.1 x.2 false] }
    else none
  else none

/-- The next of the broadcast packets; one who is too far behind skips. `kept` is false when the application's
socket is full. -/
def Device.hear (d : Device) (captured : List Audio.Packet) (kept : Bool) : Option Device :=
  if captured.length - d.next > captureMax then some { d with next := captured.length - captureMax }
  else match captured[d.next]? with
    | none => none
    | some p =>
      some { d with next := d.next + 1, heard := if d.active && kept then d.heard ++ [p] else d.heard }

inductive RouteLabel where
  | join (id : Nat) (capture : Bool)
  | message (k : Nat) (data : Lib.Bytes)
  | send (k : Nat)
  | leave (k : Nat)
  | stop (x : Nat × Bool)
  | hear (k : Nat) (kept : Bool)
deriving DecidableEq, Repr

/-- A step of the devices while `serve_route` runs or not, with what it has broadcast. -/
def Route.step (r : Route) (running : Bool) (captured : List Audio.Packet) : RouteLabel → Option Route
  | .join id capture => some (r.join id capture captured.length)
  | .message k data =>
    match r.devices[k]? with
    | some d => if d.phase = .looping then some (r.onMessage running k d data) else none
    | none => none
  | .send k =>
    match r.devices[k]? with
    | some d => if d.phase = .sending then r.onSend running k d else none
    | none => none
  | .leave k =>
    match r.devices[k]? with
    | some d => if d.phase = .looping then some (r.leave k d) else none
    | none => none
  | .stop x => r.onStop running x
  | .hear k kept =>
    match r.devices[k]? with
    | some d =>
      if d.phase = .looping ∧ d.capture = true then
        (d.hear captured kept).map fun e => { r with devices := r.devices.set k e }
      else none
    | none => none

/-! ## The path -/

/-- `read` counts the frames of `bridge` that the helper has taken, `uploaded` the messages of the helper that
`bridge` has taken. -/
structure Path where
  route : Route
  audio : Audio.System
  helper : MacAudio.Helper
  read : Nat
  uploaded : Nat

def init (token now : Nat) : Path where
  route := .open
  audio := Audio.init token
  helper := .open now
  read := 0
  uploaded := 0

/-- `event` is the next event of the channel, `frame` the next frame that the helper takes, `upload` the next
message of the helper that `bridge` takes. -/
inductive Label where
  | route (l : RouteLabel)
  | event
  | audio (a : Audio.Label)
  | frame (now : Nat) (ok : Bool)
  | helper (l : MacAudio.Label)
  | upload

/-- What comes to a task from elsewhere in the path is not the environment's to make up. -/
def fromOutside : Audio.Label → Bool
  | .running .. | .playback _ | .capture _ => false
  | _ => true

def Event.label : Event → Audio.Label
  | .running id capture active => .running id capture active
  | .playback pcm => .playback pcm

def step (F : Rounding) (p : Path) : Label → Option Path
  | .route l =>
    (p.route.step p.audio.serve.running p.audio.serve.captured l).map fun r => { p with route := r }
  | .event =>
    match p.route.events with
    | [] => none
    | e :: rest =>
      (Audio.step p.audio e.label).map fun s => { p with audio := s, route := { p.route with events := rest } }
  | .audio a => if fromOutside a then (Audio.step p.audio a).map fun s => { p with audio := s } else none
  | .frame now ok =>
    match p.audio.bridge.out[p.read]? with
    | none => none
    | some f => (MacAudio.step F p.helper (.message f now ok)).map fun h => { p with helper := h, read := p.read + 1 }
  | .helper (.message ..) => none
  | .helper l => (MacAudio.step F p.helper l).map fun h => { p with helper := h }
  | .upload =>
    match p.helper.captured.taken[p.uploaded]? with
    | none => none
    | some data =>
      (Audio.step p.audio (.capture data)).map fun s => { p with audio := s, uploaded := p.uploaded + 1 }

end Mux.AudioPath
