import Mux.Lib.Bytes
import Mux.Lib.Run

/-!
# A relay and its input threads

One `mux-attach` process: the main thread opens the connection, pumps it, replaces itself by
another image of the program or reconnects; the stdin thread and the poller of the window size
write to the socket in the uplink, whatever that is at the time. A re-exec keeps the socket and the
terminal and ends both threads.

Each step is what one thread does between two points at which another one can run. The daemon is
what it has received: the size of the last handshake or resize.
-/

namespace Mux.Uplink

open Lib

structure Size where
  cols : UInt16
  rows : UInt16
deriving DecidableEq, Repr

inductive Msg where
  | resize (size : Size)
  | input (bytes : Lib.Bytes)
deriving DecidableEq, Repr

inductive Relay where
  | exited
  | daemonGone
  | mirror
deriving DecidableEq, Repr

/-- Where the main thread is in `run_attach`: a re-exec'd image inherits the socket of its predecessor,
the input threads are spawned once an image is attached or is to reconnect, and a handshake carries the size
that was read for it. -/
inductive Main where
  | start (inherited : Bool)
  | opening (size : Size)
  | spawning (initial : Size) (attached : Bool)
  -- the stream is not in the uplink yet
  | looping
  | pumping
  -- the uplink is still set
  | pumped (relay : Relay)
  | reexec
  | reconnecting
  | reopening (size : Size)
  | ended
deriving DecidableEq, Repr

inductive Poll where
  | sleep
  | compare (now : Size)
  | send (now : Size)
deriving DecidableEq, Repr

structure Poller where
  last : Size
  next : Poll
deriving DecidableEq, Repr

/-- The stdin thread: what its reader has buffered, and what it has taken from it to send. -/
structure Stdin where
  buffered : Lib.Bytes
  held : Lib.Bytes
deriving DecidableEq, Repr

/-- `size` is the terminal's and `received` what the daemon has of it. The last four are kept for the
statements: whether a poll has read the size since it last changed, what the stdin thread had in hand when
the connection was opened, and what was read from the terminal and written to the input lane since. -/
structure State where
  size : Size
  main : Main
  uplink : Bool
  poller : Option Poller
  stdin : Option Stdin
  stdinClosed : Bool
  connected : Bool
  inFlight : List Msg
  received : Option Size
  polled : Bool
  carried : Lib.Bytes
  typed : Lib.Bytes
  written : Lib.Bytes
deriving DecidableEq, Repr

def init (size : Size) : State where
  size := size
  main := .start false
  uplink := false
  poller := none
  stdin := none
  stdinClosed := false
  connected := false
  inFlight := []
  received := none
  polled := false
  carried := []
  typed := []
  written := []

/-- Read from the terminal and not yet passed to the uplink. -/
def State.inHand (s : State) : Lib.Bytes := s.stdin.elim [] fun i => i.held ++ i.buffered

def State.attach (s : State) (size : Size) : State :=
  { s with connected := true, inFlight := [], received := some size, carried := s.inHand, typed := [], written := [] }

/-- `Uplink::send`. Only a socket whose other end is gone fails. -/
def State.send (s : State) (m : Msg) (ok : Bool) : Option State :=
  if s.uplink then
    if ok then some { s with inFlight := if s.connected then s.inFlight ++ [m] else s.inFlight }
    else if s.connected then none else some { s with uplink := false }
  else some s

def stdinCapacity : Nat := 8192

def inputBuffer : Nat := 4096

inductive Label where
  -- the terminal; the daemon, which takes a message or goes away with what it has not received
  | resize (size : Size)
  | receive
  | vanish
  -- the main thread
  | winsize
  | opened
  | failed (expectExisting received : Bool)
  | spawnInputThreads
  | setUplink
  | pump (relay : Relay)
  | clearUplink
  | execve (ok : Bool)
  -- the poller
  | poll
  | compare
  | sendResize (ok : Bool)
  -- the stdin thread
  | fill (bytes : Lib.Bytes)
  | read
  | sendInput (ok : Bool)
  | stdinEof
deriving DecidableEq, Repr

/-- `winsize()` in the main thread: once when an image starts, and for each try of `reconnect`. -/
def State.winsize (s : State) : Option State :=
  match s.main with
  | .start true => some { s with main := .spawning s.size true }
  | .start false => some { s with main := .opening s.size }
  | .reconnecting => some { s with main := if s.stdinClosed then .ended else .reopening s.size }
  | _ => none

def State.opened (s : State) : Option State :=
  match s.main with
  | .opening size => some { s.attach size with main := .spawning size true }
  | .reopening size => some { s.attach size with main := .looping }
  | _ => none

/-- `open_session` fails, before or after the daemon has read the request. The first failure of a
relay that restores a pane starts a reconnect. -/
def State.failed (s : State) (expectExisting received : Bool) : Option State :=
  match s.main with
  | .opening size =>
    some { s with
      received := if received then some size else s.received
      main := if expectExisting then .spawning size false else .ended }
  | .reopening size => some { s with received := if received then some size else s.received, main := .reconnecting }
  | _ => none

def State.spawnInputThreads (s : State) : Option State :=
  match s.main with
  | .spawning initial attached =>
    some { s with
      poller := some ⟨initial, .sleep⟩, stdin := some ⟨[], []⟩, main := if attached then .looping else .reconnecting }
  | _ => none

def State.setUplink (s : State) : Option State :=
  if s.main = .looping then some { s with uplink := true, main := .pumping } else none

/-- The pump ends for want of a daemon only when there is none. -/
def State.pump (s : State) (relay : Relay) : Option State :=
  if s.main = .pumping ∧ (relay = .daemonGone → s.connected = false) then some { s with main := .pumped relay } else none

def State.clearUplink (s : State) : Option State :=
  match s.main with
  | .pumped .exited => some { s with uplink := false, main := .ended }
  | .pumped .daemonGone => some { s with uplink := false, main := if s.stdinClosed then .ended else .reconnecting }
  | .pumped .mirror => some { s with uplink := false, main := .reexec }
  | _ => none

/-- A successful exec ends the input threads and whatever they had in hand. -/
def State.execve (s : State) (ok : Bool) : Option State :=
  if s.main = .reexec then
    if ok then some { s with main := .start true, uplink := false, poller := none, stdin := none, stdinClosed := false }
    else some { s with main := .looping }
  else none

def State.poll (s : State) : Option State :=
  match s.poller with
  | some ⟨last, .sleep⟩ => some { s with poller := some ⟨last, .compare s.size⟩, polled := true }
  | _ => none

def State.compare (s : State) : Option State :=
  match s.poller with
  | some ⟨last, .compare now⟩ => some { s with poller := some (if now = last then ⟨last, .sleep⟩ else ⟨now, .send now⟩) }
  | _ => none

def State.sendResize (s : State) (ok : Bool) : Option State :=
  match s.poller with
  | some ⟨last, .send now⟩ => (s.send (.resize now) ok).map fun s => { s with poller := some ⟨last, .sleep⟩ }
  | _ => none

/-- The reader of stdin takes from the terminal when it has nothing left. -/
def State.fill (s : State) (bytes : Lib.Bytes) : Option State :=
  match s.stdin with
  | some ⟨[], []⟩ =>
    if 0 < bytes.length ∧ bytes.length ≤ stdinCapacity then
      some { s with stdin := some ⟨bytes, []⟩, typed := s.typed ++ bytes }
    else none
  | _ => none

def State.read (s : State) : Option State :=
  match s.stdin with
  | some ⟨b :: bs, []⟩ => some { s with stdin := some ⟨(b :: bs).drop inputBuffer, (b :: bs).take inputBuffer⟩ }
  | _ => none

def State.sendInput (s : State) (ok : Bool) : Option State :=
  match s.stdin with
  | some ⟨buffered, b :: bs⟩ =>
    (s.send (.input (b :: bs)) ok).map fun t =>
      { t with
        stdin := some ⟨buffered, []⟩
        written := if s.uplink && ok && s.connected then s.written ++ b :: bs else s.written }
  | _ => none

/-- The terminal is gone: the thread ends and shuts the socket's write half, and the daemon drops
the client. -/
def State.stdinEof (s : State) : Option State :=
  match s.stdin with
  | some ⟨[], []⟩ => some { s with stdin := none, stdinClosed := true, connected := s.connected && !s.uplink }
  | _ => none

def step (s : State) : Label → Option State
  | .resize size => some { s with size := size, polled := s.polled && s.size == size }
  | .receive =>
    match s.inFlight with
    | .resize size :: rest => some { s with inFlight := rest, received := some size }
    | .input _ :: rest => some { s with inFlight := rest }
    | [] => none
  | .vanish => some { s with connected := false, inFlight := [] }
  | .winsize => s.winsize
  | .opened => s.opened
  | .failed expectExisting received => s.failed expectExisting received
  | .spawnInputThreads => s.spawnInputThreads
  | .setUplink => s.setUplink
  | .pump relay => s.pump relay
  | .clearUplink => s.clearUplink
  | .execve ok => s.execve ok
  | .poll => s.poll
  | .compare => s.compare
  | .sendResize ok => s.sendResize ok
  | .fill bytes => s.fill bytes
  | .read => s.read
  | .sendInput ok => s.sendInput ok
  | .stdinEof => s.stdinEof

end Mux.Uplink
