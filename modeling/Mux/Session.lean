import Mux.Lib.Run
import Mux.Lib.Channel
import Mux.Terminal

/-!
# One pty session and the tasks that share it

The session record is `PtySession` of manager.rs. Its tasks are the read loop (which
ends in `reap`), one connection handler per attached client with its forwarder and
its Resize frames, the foreground notices, and `kill_session`. A label is what one
task does between two points where another task can run: under one lock, or between
two awaits. A chunk that was resolved for a client and not yet sent, a send that
failed and not yet detached, a client that holds the session and has not attached:
each of these is a state of its own.
-/

namespace Mux

open Lib

/-! ## The session record -/

abbrev ClientId := Nat

abbrev Generation := BitVec 128

abbrev Pid := Int

/-- A pty device: what a master descriptor, and each duplicate of it, refers to. -/
abbrev PtyId := Nat

structure AttachedClient where
  id : ClientId
  connection : Option Nat

structure PtySession (T : Type) where
  generation : Generation
  revision : UInt64
  name : String
  command : List String
  terminal : Terminal T
  client : Option AttachedClient
  master : PtyId
  child : Pid
  adopted : Bool
  exited : Bool
  closeDeadline : Option Nat
  foreground : Option String

namespace PtySession

section
variable {T : Type} [Ghostty T]

def changed (p : PtySession T) : PtySession T := { p with revision := p.revision + 1 }

def feed (p : PtySession T) (bytes : Bytes) : PtySession T :=
  changed { p with terminal := p.terminal.feed bytes }

def resize (p : PtySession T) (cols rows : UInt16) : PtySession T :=
  changed { p with terminal := p.terminal.resize rows cols }

/-- Release the slot, but only if `id` is still the client in it. -/
def detach (p : PtySession T) (id : ClientId) : PtySession T :=
  if p.client.map (·.id) = some id then { p with client := none } else p

end

end PtySession

/-- A shell as `open` creates it, on a plain 80×24 screen. -/
def shell : PtySession Echo where
  generation := 1
  revision := 0
  name := "p1"
  command := []
  terminal := ⟨⟨[]⟩, 24, 80⟩
  client := none
  master := 0
  child := 100
  adopted := false
  exited := false
  closeDeadline := none
  foreground := none

namespace Session

/-! ## Clients -/

def clientChannelDepth : Nat := 64

def readChunk : Nat := 4096

/-- Where an output message comes from: the `n`-th chunk of the pty, counted from 1,
or a dump rendered after `fed` chunks. The wire does not carry it. -/
inductive Origin where
  | live (n : Nat)
  | replay (fed : Nat)
  deriving DecidableEq

inductive ClientMsg where
  | output (bytes : Bytes) (origin : Origin)
  | exit (code : Int)
  | foreground (name : String)
  deriving DecidableEq

def ClientMsg.isOutput : ClientMsg → Bool
  | .output .. => true
  | _ => false

structure Dump where
  bytes : Bytes
  fed : Nat
  deriving DecidableEq

/-- `server::resize`, from the frame to the last send. -/
inductive Resize where
  | idle
  | ioctl (cols rows : UInt16) (redump : Option Dump)
  | lookup (dump : Dump)
  | sending (target : ClientId) (dump : Dump)
  deriving DecidableEq

def Resize.afterIoctl : Option Dump → Resize
  | some d => .lookup d
  | none => .idle

def Resize.afterLookup (d : Dump) : Option ClientId → Resize
  | some target => .sending target d
  | none => .idle

/-- Only its send is an await: the handler can be cancelled there, and between frames. -/
def Resize.atAwait : Resize → Bool
  | .idle | .sending .. => true
  | _ => false

inductive Handler where
  | serving
  | ending
  | gone
  deriving DecidableEq

/-- One attachment and its connection handler. `requested`, `renderedAt` and `leftAt`
are kept for the statements: the size the client last asked for, and the number of
chunks fed when its dump was rendered and when it left the slot. -/
structure Client where
  chan : Channel ClientMsg clientChannelDepth
  dump : Bytes
  handler : Handler
  liveOutput : Bool
  resize : Resize
  requested : UInt16 × UInt16
  renderedAt : Nat
  leftAt : Option Nat

/-! ## The tasks -/

/-- `read_loop`, then `reap`. -/
inductive ReadLoop where
  | reading
  | sending (chunk : Bytes) (n : Nat) (id : ClientId)
  | detaching (id : ClientId)
  | waiting
  | marked (code : Int)
  | exiting (code : Int) (id : ClientId)
  | removing
  | done
  deriving DecidableEq

inductive Tell where
  | sending (name : String) (id : ClientId)
  | detaching (id : ClientId)
  deriving DecidableEq

inductive Kill where
  | none
  | pending
  | cleared
  | done
  deriving DecidableEq

structure Attaching where
  id : ClientId
  cols : UInt16
  rows : UInt16
  connection : Option Nat
  chan : Channel ClientMsg clientChannelDepth

structure State (T : Type) where
  session : PtySession T
  inTable : Bool
  winsize : UInt16 × UInt16
  nextClientId : Nat
  checking : Nat
  holding : Nat
  drawn : List ClientId
  attaching : Option Attaching
  clients : ClientId → Option Client
  readLoop : ReadLoop
  tells : List Tell
  killing : Kill
  vtLog : List VtOp

namespace State

section
variable {T : Type} [Ghostty T]

/-- A session as `open` or `adopt_many` leaves it, with `holding` handlers that
already have it. -/
def start (p : PtySession T) (winsize : UInt16 × UInt16) (nextClientId holding : Nat) : State T where
  session := { p with client := none, exited := false }
  inTable := true
  winsize := winsize
  nextClientId := nextClientId
  checking := 0
  holding := holding
  drawn := []
  attaching := none
  clients := fun _ => none
  readLoop := .reading
  tells := []
  killing := .none
  vtLog := []

def slot (s : State T) : Option ClientId := s.session.client.map (·.id)

def fed (s : State T) : List Bytes := chunks s.vtLog

def setClient (s : State T) (id : ClientId) (c : Client) : State T :=
  { s with clients := fun i => if i = id then some c else s.clients i }

def mapClient (s : State T) (id : ClientId) (f : Client → Client) : State T :=
  { s with clients := fun i => if i = id then (s.clients id).map f else s.clients i }

/-- Put `client` in the slot; whoever was in it leaves now. -/
def setSlot (s : State T) (client : Option AttachedClient) : State T :=
  { s with
    session := { s.session with client := client }
    clients := fun i =>
      if s.slot = some i then (s.clients i).map fun c => { c with leftAt := some s.fed.length }
      else s.clients i }

def detach (s : State T) (id : ClientId) : State T :=
  if s.slot = some id then s.setSlot none else s

def push (s : State T) (id : ClientId) (msg : ClientMsg) : Option (State T) :=
  (s.clients id).bind fun c => (c.chan.send msg).map fun chan => s.setClient id { c with chan := chan }

/-! ### Getting hold of the session -/

def openTerm (s : State T) : Option (State T) :=
  if s.inTable ∧ s.session.closeDeadline = none then some { s with holding := s.holding + 1 } else none

def reopen (s : State T) (now : Nat) : Option (State T) :=
  if s.inTable ∧ ¬ (s.session.closeDeadline.any (· ≤ now)) then
    some { s with session := { s.session with closeDeadline := none }, holding := s.holding + 1 }
  else none

def close (s : State T) (deadline : Nat) : Option (State T) :=
  if s.inTable then
    some { s with session :=
      { s.session with closeDeadline := some (s.session.closeDeadline.getD deadline) } }
  else none

def getExisting (s : State T) : Option (State T) :=
  if s.inTable then some { s with checking := s.checking + 1 } else none

def checkExisting (s : State T) : Option (State T) :=
  if s.checking = 0 then none
  else if s.session.exited ∨ s.session.closeDeadline.isSome then
    some { s with checking := s.checking - 1 }
  else some { s with checking := s.checking - 1, holding := s.holding + 1 }

/-! ### attach_on -/

def otherAttach (s : State T) : Option (State T) :=
  some { s with nextClientId := s.nextClientId + 1 }

def drawId (s : State T) : Option (State T) :=
  if s.holding = 0 then none
  else some { s with
    holding := s.holding - 1
    nextClientId := s.nextClientId + 1
    drawn := s.nextClientId :: s.drawn }

/-- The new channel, with the foreground as last read already in it. -/
def freshChannel (p : PtySession T) : Channel ClientMsg clientChannelDepth :=
  match p.foreground with
  | some name => (Channel.new.send (.foreground name)).getD Channel.new
  | none => Channel.new

def attachLock (s : State T) (id : ClientId) (cols rows : UInt16) (connection : Option Nat) :
    Option (State T) :=
  if id ∈ s.drawn ∧ s.attaching.isNone then
    some { s with
      session := s.session.resize cols rows
      winsize := clampSize cols rows
      drawn := s.drawn.erase id
      attaching := some ⟨id, cols, rows, connection, freshChannel s.session⟩
      vtLog := s.vtLog ++ [.resize rows cols] }
  else none

def attached (a : Attaching) (terminal : Terminal T) (fed : Nat) : Client where
  chan := a.chan
  dump := terminal.renderScreenBytes
  handler := .serving
  liveOutput := false
  resize := .idle
  requested := (a.cols, a.rows)
  renderedAt := fed
  leftAt := none

def attachInstall (s : State T) : Option (State T) :=
  s.attaching.map fun a =>
    { (s.setSlot (some ⟨a.id, a.connection⟩)).setClient a.id (attached a s.session.terminal s.fed.length) with
      attaching := none }

/-! ### read_loop -/

/-- Read, feed and resolve under one terminal lock. -/
def read (s : State T) (chunk : Bytes) : Option (State T) :=
  if s.readLoop = .reading ∧ s.attaching.isNone ∧ chunk ≠ [] ∧ chunk.length ≤ readChunk then
    some { s with
      session := s.session.feed chunk
      vtLog := s.vtLog ++ [.feed chunk]
      readLoop := match s.slot with
        | some id => .sending chunk (s.fed.length + 1) id
        | none => .reading }
  else none

def eof (s : State T) : Option (State T) :=
  if s.readLoop = .reading then some { s with readLoop := .waiting } else none

def sendOutput (s : State T) : Option (State T) :=
  match s.readLoop with
  | .sending chunk n id =>
    (s.push id (.output chunk (.live n))).map fun s => { s with readLoop := .reading }
  | _ => none

def sendOutputFail (s : State T) : Option (State T) :=
  match s.readLoop with
  | .sending _ _ id => some { s with readLoop := .detaching id }
  | _ => none

def readDetach (s : State T) : Option (State T) :=
  match s.readLoop with
  | .detaching id => some { s.detach id with readLoop := .reading }
  | _ => none

/-! ### The foreground notice -/

def refresh (s : State T) (name : Option String) : Option (State T) :=
  some { s with session := { s.session with foreground := name } }

def tell (s : State T) (name : String) : Option (State T) :=
  s.slot.map fun id => { s with tells := s.tells ++ [.sending name id] }

def tellSend (s : State T) (i : Nat) : Option (State T) :=
  match s.tells[i]? with
  | some (.sending name id) =>
    (s.push id (.foreground name)).map fun s => { s with tells := s.tells.eraseIdx i }
  | _ => none

def tellFail (s : State T) (i : Nat) : Option (State T) :=
  match s.tells[i]? with
  | some (.sending _ id) => some { s with tells := s.tells.set i (.detaching id) }
  | _ => none

def tellDetach (s : State T) (i : Nat) : Option (State T) :=
  match s.tells[i]? with
  | some (.detaching id) => some { s.detach id with tells := s.tells.eraseIdx i }
  | _ => none

/-! ### kill_session and reap -/

/-- `kill`, or a lease that expired: the entry leaves the table. -/
def kill (s : State T) : Option (State T) :=
  if s.inTable then some { s with inTable := false, killing := .pending } else none

def killClear (s : State T) : Option (State T) :=
  if s.killing = .pending then some { s.setSlot none with killing := .cleared } else none

def killMark (s : State T) : Option (State T) :=
  if s.killing = .cleared then
    some { s with session := { s.session with exited := true }, killing := .done }
  else none

def reapMark (s : State T) (code : Int) : Option (State T) :=
  if s.readLoop = .waiting then
    some { s with session := { s.session with exited := true }.changed, readLoop := .marked code }
  else none

def reapTake (s : State T) : Option (State T) :=
  match s.readLoop with
  | .marked code =>
    some { s.setSlot none with
      readLoop := match s.slot with
        | some id => .exiting code id
        | none => .removing }
  | _ => none

def reapSend (s : State T) : Option (State T) :=
  match s.readLoop with
  | .exiting code id => (s.push id (.exit code)).map fun s => { s with readLoop := .removing }
  | _ => none

def reapFail (s : State T) : Option (State T) :=
  match s.readLoop with
  | .exiting _ _ => some { s with readLoop := .removing }
  | _ => none

def reapRemove (s : State T) : Option (State T) :=
  if s.readLoop = .removing then some { s with inTable := false, readLoop := .done } else none

/-! ### The connection handler -/

def forward (s : State T) (id : ClientId) : Option (State T) :=
  (s.clients id).bind fun c =>
    if c.handler = .serving then
      c.chan.recv.map fun (msg, chan) =>
        s.setClient id { c with chan := chan, liveOutput := c.liveOutput || msg.isOutput }
    else none

/-- The handler's select ends: its receiver is dropped, and with it a resize that
waits in its send. -/
def hangup (s : State T) (id : ClientId) : Option (State T) :=
  (s.clients id).bind fun c =>
    if c.handler = .serving ∧ c.resize.atAwait then
      some (s.setClient id { c with chan := c.chan.close, handler := .ending, resize := .idle })
    else none

/-- `ClientGuard` is dropped. -/
def teardown (s : State T) (id : ClientId) : Option (State T) :=
  (s.clients id).bind fun c =>
    if c.handler = .ending then some ((s.setClient id { c with handler := .gone }).detach id) else none

/-! ### server::resize -/

/-- The terminal lock's part. The dump is rendered only before the first live output. -/
def resizeLock (s : State T) (id : ClientId) (cols rows : UInt16) : Option (State T) :=
  (s.clients id).bind fun c =>
    if c.handler = .serving ∧ c.resize = .idle ∧ s.attaching.isNone then
      let session := s.session.resize cols rows
      let redump := if c.liveOutput then none
        else some ⟨session.terminal.renderScreenBytes, s.fed.length⟩
      some { s.setClient id { c with resize := .ioctl cols rows redump, requested := (cols, rows) } with
        session := session
        vtLog := s.vtLog ++ [.resize rows cols] }
    else none

def resizeIoctl (s : State T) (id : ClientId) : Option (State T) :=
  (s.clients id).bind fun c =>
    match c.resize with
    | .ioctl cols rows redump =>
      some { s.setClient id { c with resize := .afterIoctl redump } with winsize := clampSize cols rows }
    | _ => none

def resizeResolve (s : State T) (id : ClientId) : Option (State T) :=
  (s.clients id).bind fun c =>
    match c.resize with
    | .lookup d => some (s.setClient id { c with resize := .afterLookup d s.slot })
    | _ => none

def resizeSend (s : State T) (id : ClientId) : Option (State T) :=
  (s.clients id).bind fun c =>
    match c.resize with
    | .sending target d =>
      (s.push target (.output d.bytes (.replay d.fed))).map fun s =>
        s.mapClient id fun c => { c with resize := .idle }
    | _ => none

/-- The target's receiver is gone: the send fails and the dump with it. -/
def resizeDrop (s : State T) (id : ClientId) : Option (State T) :=
  (s.clients id).bind fun c =>
    match c.resize with
    | .sending target _ =>
      if (s.clients target).all (fun t => !t.chan.rxOpen) then
        some (s.setClient id { c with resize := .idle })
      else none
    | _ => none

end

end State

/-! ## The steps of a session -/

inductive Label where
  | openTerm
  | reopen (now : Nat)
  | close (deadline : Nat)
  | getExisting
  | checkExisting
  | otherAttach
  | drawId
  | attachLock (id : ClientId) (cols rows : UInt16) (connection : Option Nat)
  | attachInstall
  | read (chunk : Bytes)
  | eof
  | sendOutput
  | sendOutputFail
  | readDetach
  | refresh (name : Option String)
  | tell (name : String)
  | tellSend (i : Nat)
  | tellFail (i : Nat)
  | tellDetach (i : Nat)
  | kill
  | killClear
  | killMark
  | reapMark (code : Int)
  | reapTake
  | reapSend
  | reapFail
  | reapRemove
  | forward (id : ClientId)
  | hangup (id : ClientId)
  | teardown (id : ClientId)
  | resizeLock (id : ClientId) (cols rows : UInt16)
  | resizeIoctl (id : ClientId)
  | resizeResolve (id : ClientId)
  | resizeSend (id : ClientId)
  | resizeDrop (id : ClientId)

def step {T : Type} [Ghostty T] (s : State T) : Label → Option (State T)
  | .openTerm => s.openTerm
  | .reopen now => s.reopen now
  | .close deadline => s.close deadline
  | .getExisting => s.getExisting
  | .checkExisting => s.checkExisting
  | .otherAttach => s.otherAttach
  | .drawId => s.drawId
  | .attachLock id cols rows connection => s.attachLock id cols rows connection
  | .attachInstall => s.attachInstall
  | .read chunk => s.read chunk
  | .eof => s.eof
  | .sendOutput => s.sendOutput
  | .sendOutputFail => s.sendOutputFail
  | .readDetach => s.readDetach
  | .refresh name => s.refresh name
  | .tell name => s.tell name
  | .tellSend i => s.tellSend i
  | .tellFail i => s.tellFail i
  | .tellDetach i => s.tellDetach i
  | .kill => s.kill
  | .killClear => s.killClear
  | .killMark => s.killMark
  | .reapMark code => s.reapMark code
  | .reapTake => s.reapTake
  | .reapSend => s.reapSend
  | .reapFail => s.reapFail
  | .reapRemove => s.reapRemove
  | .forward id => s.forward id
  | .hangup id => s.hangup id
  | .teardown id => s.teardown id
  | .resizeLock id cols rows => s.resizeLock id cols rows
  | .resizeIoctl id => s.resizeIoctl id
  | .resizeResolve id => s.resizeResolve id
  | .resizeSend id => s.resizeSend id
  | .resizeDrop id => s.resizeDrop id

end Session

end Mux
