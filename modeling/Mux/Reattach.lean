import Mux.Pane

/-!
# A relay and the daemon that serves it

The daemon is its session table over the tasks of every session it has made. One connection at a
time is the relay's: its handler runs `handle_open`, from the request to the end of the forwarder,
and `wire` is what it has written and the relay has not read. All other clients, and handlers of
connections that the relay has given up, take the daemon's other steps.
-/

namespace Mux.Reattach

open Lib Pane

/-! ## The daemon -/

structure Daemon (T : Type) where
  ptys : Manager.Table Manager.Ref
  sessions : List (Session.State T)

namespace Daemon

/-- What a daemon does, apart from the handler of the relay's connection. -/
inductive Label where
  | openTerm (name : String) (command : List String) (cols rows : UInt16) (spawned : Except String (PtyId × Pid))
      (generation : Generation) (nextClientId : ClientId)
  | reopen (name : String) (now : Nat)
  | get (name : String)
  | kill (name : String)
  | close (name : String) (deadline : Nat)
  | expire (name : String) (generation : Generation) (deadline : Nat)
  | reapRemove (r : Manager.Ref)
  | task (r : Manager.Ref) (a : Session.Label)

def ofTable : Session.Label → Bool
  | .openTerm | .reopen _ | .close _ | .getExisting | .kill | .reapRemove => true
  | _ => false

section
variable {T : Type} [Ghostty T]

/-- The table as `Manager` answers from it. -/
def manager (d : Daemon T) (clock : Nat) : Manager.State T :=
  ⟨d.sessions.map fun s => Manager.State.freshCell s.session, d.ptys, clock, [], []⟩

def update (d : Daemon T) (r : Manager.Ref) (f : Session.State T → Option (Session.State T)) : Option (Daemon T) :=
  (d.sessions[r]?.bind f).map fun s => { d with sessions := d.sessions.set r s }

def openTerm (d : Daemon T) (name : String) (command : List String) (cols rows : UInt16)
    (spawned : Except String (PtyId × Pid)) (generation : Generation) (nextClientId : ClientId) :
    Except String (Manager.Ref × Bool) × Daemon T :=
  match (d.manager 0).openTerm name command cols rows spawned generation with
  | (.error e, _) => (.error e, d)
  | (.ok (r, false), _) => (.ok (r, false), (d.update r (·.openTerm)).getD d)
  | (.ok (r, true), m) =>
    (.ok (r, true), ⟨m.ptys, d.sessions ++
      ((m.session? r).map fun p => Session.State.start p (clampSize cols rows) nextClientId 1).toList⟩)

def reopen (d : Daemon T) (name : String) (now : Nat) : Except String (Manager.Ref × Bool) × Daemon T :=
  match ((d.manager now).reopen name).1 with
  | .error e => (.error e, d)
  | .ok (r, created) => (.ok (r, created), (d.update r (·.reopen now)).getD d)

/-- The session that `kill`, or a timer of `schedule_close` that wakes, takes out of the table. -/
def removes (d : Daemon T) : Label → Option Manager.Ref
  | .kill name => d.ptys.get name
  | .expire name generation deadline =>
    (d.ptys.get name).filter fun r =>
      d.sessions[r]?.any fun s => s.session.generation = generation ∧ s.session.closeDeadline = some deadline
  | _ => none

def remove (d : Daemon T) (name : String) : Option Manager.Ref → Option (Daemon T)
  | some r => (d.update r (·.kill)).map fun d => { d with ptys := d.ptys.erase name }
  | none => some d

def reapRemove (d : Daemon T) (r : Manager.Ref) : Option (Daemon T) :=
  d.sessions[r]?.bind fun s =>
    (d.update r (·.reapRemove)).map fun d =>
      { d with ptys := if d.ptys.get s.session.name = some r then d.ptys.erase s.session.name else d.ptys }

def step (d : Daemon T) : Label → Option (Daemon T)
  | .openTerm name command cols rows spawned generation nextClientId =>
    some (d.openTerm name command cols rows spawned generation nextClientId).2
  | .reopen name now => some (d.reopen name now).2
  | .get name => (d.ptys.get name).bind fun r => d.update r (·.getExisting)
  | .kill name => d.remove name (d.removes (.kill name))
  | .close name deadline => (d.ptys.get name).bind fun r => d.update r (·.close deadline)
  | .expire name generation deadline => d.remove name (d.removes (.expire name generation deadline))
  | .reapRemove r => d.reapRemove r
  | .task r a => if ofTable a then none else d.update r (Session.step · a)

end

end Daemon

/-! ## The relay's connection -/

/-- Where the handler of the relay's connection stands; `closed` is the end of the connection. -/
inductive Handler where
  | request
  | checking (r : Manager.Ref)
  | holding (r : Manager.Ref) (created : Bool)
  | drawn (r : Manager.Ref) (id : ClientId) (created : Bool)
  | locked (r : Manager.Ref) (id : ClientId) (created : Bool)
  | serving (r : Manager.Ref) (id : ClientId)
  | closed
  deriving DecidableEq

structure Conn where
  request : OpenRequest
  handler : Handler
  wire : List Frame
  deriving DecidableEq

def Conn.refuse (c : Conn) (detail : String) : Conn :=
  { c with handler := .closed, wire := c.wire ++ [.refused detail] }

/-- The connection breaks, and with it all but the first `k` frames on their way. -/
def Conn.lose (c : Conn) (k : Nat) : Conn := { c with handler := .closed, wire := c.wire.take k }

def frame : Session.ClientMsg → Frame
  | .output bytes _ => .output bytes
  | .exit code => .exit code
  | .foreground name => .foreground name

def connected : Phase → Bool
  | .asking _ | .entering | .pumping | .ended _ => true
  | _ => false

section
variable {T : Type}

/-- Somebody can still write to the client's channel. -/
def hasSender (s : Session.State T) (id : ClientId) : Bool :=
  s.slot == some id || s.attaching.any (·.id == id) ||
    (match s.readLoop with
      | .sending _ _ i | .detaching i | .exiting _ i => i == id
      | _ => false) ||
    s.tells.any (fun
      | .sending _ i | .detaching i => i == id) ||
    (List.range s.nextClientId).any fun i =>
      (s.clients i).any fun c =>
        match c.resize with
        | .sending target _ => target == id
        | _ => false

/-- The step is one that only the handler of the relay's connection takes. -/
def mine (h : Handler) (r : Manager.Ref) (s : Session.State T) : Session.Label → Bool
  | .checkExisting => decide (h = .checking r ∧ s.checking ≤ 1)
  | .drawId =>
    match h with
    | .holding q _ => decide (q = r ∧ s.holding ≤ 1)
    | _ => false
  | .attachLock id .. =>
    match h with
    | .drawn q i _ => decide (q = r ∧ i = id)
    | _ => false
  | .attachInstall =>
    match h with
    | .locked q _ _ => decide (q = r)
    | _ => false
  | .forward id | .hangup id => decide (h = .serving r id)
  | _ => false

end

/-! ## Relay and daemon -/

/-- An open of the relay that a daemon let succeed: whether the session the relay was attached to
had been removed before, and whether it made a new process. -/
structure Answer where
  removed : Bool
  created : Bool
  deriving DecidableEq

/-- `removed` and `answers` are kept for the statements. -/
structure World (T : Type) where
  image : Image
  daemon : Daemon T
  conn : Option Conn
  removed : Bool
  answers : List Answer

structure Env where
  spawned : Except String (PtyId × Pid)
  generation : Generation
  nextClientId : ClientId
  now : Nat

namespace World

section
variable {T : Type} [Ghostty T]

def start (i : Image) (d : Daemon T) : World T := ⟨i, d, none, false, []⟩

/-- The relay goes on; a socket that it does not keep is closed. -/
def goOn (w : World T) (i : Image) : World T :=
  { w with image := i, conn := if connected i.phase then w.conn else none }

/-- The session whose client slot the relay's connection has. -/
def attachedTo (w : World T) : Option Manager.Ref :=
  w.conn.bind fun c =>
    match c.handler with
    | .serving r id => if w.daemon.sessions[r]?.any (·.slot == some id) then some r else none
    | _ => none

def others (w : World T) (a : Daemon.Label) : Option (World T) :=
  (w.daemon.step a).map fun d =>
    { w with
      daemon := d
      removed := w.removed || ((w.daemon.removes a).isSome && w.attachedTo == w.daemon.removes a) }

def foreign (w : World T) : Daemon.Label → Bool
  | .task r a => !(w.conn.any fun c => w.daemon.sessions[r]?.any fun s => mine c.handler r s a)
  | _ => true

/-! ### handle_open -/

def answer (w : World T) (c : Conn) : Except String (Manager.Ref × Bool) × Daemon T → World T
  | (.ok (r, created), d) =>
    { w with
      daemon := d
      conn := some { c with handler := .holding r created }
      answers := w.answers ++ [⟨w.removed, created⟩] }
  | (.error e, d) => { w with daemon := d, conn := some (c.refuse e) }

def openTerminal (w : World T) (c : Conn) (e : Env) : World T :=
  match c.request.mode with
  | .openTerm name _ command _ =>
    w.answer c (w.daemon.openTerm name command c.request.cols c.request.rows e.spawned e.generation e.nextClientId)
  | .reopen name => w.answer c (w.daemon.reopen name e.now)
  | .attach name =>
    match (w.daemon.ptys.get name).bind fun r => (w.daemon.update r (·.getExisting)).map fun d => (r, d) with
    | some (r, d) => { w with daemon := d, conn := some { c with handler := .checking r } }
    | none =>
      { w with conn := some (c.refuse s!"saved terminal {name} no longer exists; no replacement shell was started") }

/-- The rest of `open_existing`. -/
def checkExisting (w : World T) (c : Conn) (r : Manager.Ref) : World T :=
  match c.request.mode with
  | .attach name =>
    w.answer c (((w.daemon.manager 0).checkExisting name r).map fun r => (r, false),
      (w.daemon.update r (·.checkExisting)).getD w.daemon)
  | _ => w

/-- One step of the handler, up to the reply. -/
def handle (w : World T) (e : Env) : Option (World T) :=
  w.conn.bind fun c =>
    match c.handler with
    | .request => some (w.openTerminal c e)
    | .checking r => some (w.checkExisting c r)
    | .holding r created =>
      w.daemon.sessions[r]?.bind fun s =>
        (w.daemon.update r (·.drawId)).map fun d =>
          { w with daemon := d, conn := some { c with handler := .drawn r s.nextClientId created } }
    | .drawn r id created =>
      (w.daemon.update r (·.attachLock id c.request.cols c.request.rows none)).map fun d =>
        { w with daemon := d, conn := some { c with handler := .locked r id created } }
    | .locked r id created =>
      (w.daemon.update r (·.attachInstall)).map fun d =>
        { w with
          daemon := d
          conn := some { c with
            handler := .serving r id
            wire := c.wire ++ [.attached created] ++
              ((d.sessions[r]?.bind (·.clients id)).map fun client => .output client.dump).toList } }
    | _ => none

def forward (w : World T) : Option (World T) :=
  w.conn.bind fun c =>
    match c.handler with
    | .serving r id =>
      ((w.daemon.sessions[r]?.bind (·.clients id)).bind (·.chan.recv)).bind fun (msg, _) =>
        (w.daemon.update r (·.forward id)).map fun d =>
          { w with daemon := d, conn := some { c with wire := c.wire ++ [frame msg] } }
    | _ => none

/-- The forwarder ends, and the connection with it: the channel is drained and has no sender. -/
def finish (w : World T) : Option (World T) :=
  w.conn.bind fun c =>
    match c.handler with
    | .serving r id =>
      w.daemon.sessions[r]?.bind fun s =>
        if (s.clients id).all (·.chan.queue.isEmpty) ∧ hasSender s id = false then
          (w.daemon.update r (·.hangup id)).map fun d =>
            { w with daemon := d, conn := some { c with handler := .closed } }
        else none
    | _ => none

/-- The connection ends in any other way. -/
def lose (w : World T) (k : Nat) : World T := { w with conn := w.conn.map (·.lose k) }

/-- Another daemon answers from now on: a fresh one, or a successor with the sessions it has
adopted. -/
def replace (w : World T) (d : Daemon T) (k : Nat) : World T := { w.lose k with daemon := d }

/-! ### The relay -/

def connect (w : World T) (stream : Bool) (size : UInt16 × UInt16) (term : Option String) : Option (World T) :=
  (w.image.connect stream size term).map fun i =>
    { w with
      image := i
      conn := if stream then i.sent.getLast?.map fun q => ⟨q.request, .request, []⟩ else none }

/-- Frames that are on their way arrive, also when the connection has ended. -/
def read (w : World T) (stdout : Bool) : Option (World T) :=
  w.conn.bind fun c =>
    if c.wire = [] ∧ c.handler ≠ .closed then none
    else (w.image.read c.wire.head? stdout).map fun i => { w with conn := some { c with wire := c.wire.tail } }.goOn i

end

end World

/-! ## The steps of relay and daemon -/

inductive Label (T : Type) where
  | others (a : Daemon.Label)
  | handle (e : Env)
  | forward
  | finish
  | lose (k : Nat)
  | replace (d : Daemon T) (k : Nat)
  | connect (stream : Bool) (size : UInt16 × UInt16) (term : Option String)
  | read (stdout : Bool)
  | tryClone (ok : Bool)
  | relayLoop
  | reexecAs (ok : Bool)
  | check
  | stdinEof

def step {T : Type} [Ghostty T] (w : World T) : Label T → Option (World T)
  | .others a => if w.foreign a then w.others a else none
  | .handle e => w.handle e
  | .forward => w.forward
  | .finish => w.finish
  | .lose k => some (w.lose k)
  | .replace d k => some (w.replace d k)
  | .connect stream size term => w.connect stream size term
  | .read stdout => w.read stdout
  | .tryClone ok => (w.image.tryClone ok).map w.goOn
  | .relayLoop => w.image.relayLoop.map w.goOn
  | .reexecAs ok => (w.image.reexecAs ok).map w.goOn
  | .check => w.image.check.map w.goOn
  | .stdinEof => w.image.stdinEof.map w.goOn

end Mux.Reattach
