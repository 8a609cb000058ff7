import Mux.Lib.Run

/-!
# The watch stream

A manager broadcasts an event of a session when what it says has changed: the agent, the working
directory, whether it exited. Three kinds of tasks emit: an evaluation of the session after output, a kill (by request or when a
close lease ends), and the reaper. `emit` holds the session's `last_event` lock from before it reads the
agent until the event is out.

A watch connection subscribes, reads every session in the table, and then follows the broadcast;
a receiver that fell behind by more than the backlog loses the oldest events and reads the
table again.

Each step is what one task does between two points at which another one can run.
-/

namespace Mux.Watch

open Lib

structure AgentInfo where
  agent : String
  state : String
  topic : String
deriving DecidableEq, Repr

structure PtyEvent where
  name : String
  agent : Option AgentInfo
  cwd : Option String
  exited : Bool
deriving DecidableEq, Repr

def eventBacklog : Nat := 256

structure Session where
  name : String
  exited : Bool
  agent : Option AgentInfo
  agentPending : Bool
  lastEvent : Option PtyEvent
  -- it is in the table, under its name
  listed : Bool
  -- its read loop has ended
  reaping : Bool
deriving DecidableEq, Repr

inductive Kind where
  | evaluation
  | kill
  | reap
deriving DecidableEq, Repr

/-- What a task does next. An evaluation settles and refreshes; a kill and a reap mark the session exited
and clear its agent, and a reap removes it. Each ends in `emit`, which locks, reads the agent and sends. -/
inductive Phase where
  | settle
  | refresh
  | mark
  | clear
  | remove
  | emit
  | send (agent : Option AgentInfo)
  | done
deriving DecidableEq, Repr

structure Task where
  session : Nat
  kind : Kind
  phase : Phase
deriving DecidableEq, Repr

structure Broadcast where
  session : Nat
  event : PtyEvent
deriving DecidableEq, Repr

/-- A connection that is new or has lagged calls `manager.watch()`: it locks the table and reads its
sessions, the agent of each first. -/
inductive View where
  | idle
  | behind
  | reading (todo : List Nat) (agent : Option (Option AgentInfo))
  | serving
deriving DecidableEq, Repr

/-- `pos` is the receiver's place in the broadcast, `snapshot` what is not yet written. `skipped` is kept
for the statements: what the last lag has dropped, until the table is read again. -/
structure Watcher where
  view : View
  pos : Nat
  skipped : List PtyEvent
  snapshot : List PtyEvent
  sent : List PtyEvent
deriving DecidableEq, Repr

structure State where
  sessions : List Session
  tasks : List Task
  log : List Broadcast
  watcher : Watcher
deriving DecidableEq, Repr

def init : State where
  sessions := []
  tasks := []
  log := []
  watcher := { view := .idle, pos := 0, skipped := [], snapshot := [], sent := [] }

def State.setSession (s : State) (k : Nat) (x : Session) : State := { s with sessions := s.sessions.set k x }

def State.setTask (s : State) (i : Nat) (t : Task) : State := { s with tasks := s.tasks.set i t }

def State.spawn (s : State) (t : Task) : State := { s with tasks := s.tasks ++ [t] }

def State.task (s : State) (i : Nat) : Option (Task × Session) := do
  let t ← s.tasks[i]?
  let x ← s.sessions[t.session]?
  return (t, x)

def State.tableLocked (s : State) : Bool :=
  match s.watcher.view with
  | .reading .. => true
  | _ => false

def State.get (s : State) (name : String) : Option Nat := s.sessions.findIdx? fun x => x.listed && x.name == name

def State.emitting (s : State) (k : Nat) : Bool :=
  s.tasks.any fun t => t.session == k && match t.phase with | .send _ => true | _ => false

/-- `PtySession::event`, with what has been read of it. -/
def Session.event (x : Session) (agent : Option AgentInfo) (cwd : Option String) : PtyEvent where
  name := x.name
  agent := agent
  cwd := cwd
  exited := x.exited

/-! ## Sessions -/

def freshSession (name : String) : Session where
  name := name
  exited := false
  agent := none
  agentPending := false
  lastEvent := none
  listed := true
  reaping := false

/-- `open` where the table has no session of the name. -/
def State.open (s : State) (name : String) : Option State :=
  if s.tableLocked || (s.get name).isSome then none else some { s with sessions := s.sessions ++ [freshSession name] }

/-- Output, or an adoption: `schedule_agent`. -/
def State.scheduleAgent (s : State) (k : Nat) : Option State := do
  let x ← s.sessions[k]?
  if x.reaping then none
  else if x.agentPending then return s
  else return (s.setSession k { x with agentPending := true }).spawn ⟨k, .evaluation, .settle⟩

/-- `kill`, or a lease that ends: the session leaves the table. -/
def State.kill (s : State) (name : String) : Option State := do
  if s.tableLocked then none
  else
    let k ← s.get name
    let x ← s.sessions[k]?
    return (s.setSession k { x with listed := false }).spawn ⟨k, .kill, .mark⟩

/-- The read loop ends and the child has been waited for. -/
def State.reap (s : State) (k : Nat) : Option State := do
  let x ← s.sessions[k]?
  if x.reaping then none
  else return (s.setSession k { x with reaping := true }).spawn ⟨k, .reap, .mark⟩

/-! ## Tasks -/

def State.check (s : State) (i : Nat) : Option State := do
  let (t, x) ← s.task i
  if t.phase = .settle then
    return (s.setSession t.session { x with agentPending := false }).setTask i
      { t with phase := if x.exited then .done else .refresh }
  else none

def State.refresh (s : State) (i : Nat) (agent : Option AgentInfo) : Option State := do
  let (t, x) ← s.task i
  if t.phase = .refresh then return (s.setSession t.session { x with agent := agent }).setTask i { t with phase := .emit }
  else none

def State.mark (s : State) (i : Nat) : Option State := do
  let (t, x) ← s.task i
  if t.phase = .mark then return (s.setSession t.session { x with exited := true }).setTask i { t with phase := .clear }
  else none

def State.clear (s : State) (i : Nat) : Option State := do
  let (t, x) ← s.task i
  if t.phase = .clear then
    return (s.setSession t.session { x with agent := none }).setTask i
      { t with phase := if t.kind = .reap then .remove else .emit }
  else none

def State.remove (s : State) (i : Nat) : Option State := do
  let (t, x) ← s.task i
  if t.phase = .remove ∧ s.tableLocked = false then
    return (s.setSession t.session { x with listed := false }).setTask i { t with phase := .emit }
  else none

/-- `emit` takes the lock and reads the agent. -/
def State.lock (s : State) (i : Nat) : Option State := do
  let (t, x) ← s.task i
  if t.phase = .emit ∧ s.emitting t.session = false then return s.setTask i { t with phase := .send x.agent }
  else none

/-- `emit` reads the rest of the event; it is broadcast unless it is the last one again. -/
def State.send (s : State) (i : Nat) (cwd : Option String) : Option State := do
  let (t, x) ← s.task i
  match t.phase with
  | .send agent =>
    let event := x.event agent cwd
    let s := s.setTask i { t with phase := .done }
    if x.lastEvent = some event then return s
    else return { s.setSession t.session { x with lastEvent := some event } with log := s.log ++ [⟨t.session, event⟩] }
  | _ => none

/-! ## The watch -/

def State.subscribe (s : State) : Option State :=
  if s.watcher.view = .idle then
    some { s with watcher := { s.watcher with view := .behind, pos := s.log.length } }
  else none

/-- `manager.watch()` locks the table; its sessions come in no particular order. -/
def State.readTable (s : State) (order : List Nat) : Option State :=
  if s.watcher.view = .behind ∧
      order.Perm ((List.range s.sessions.length).filter fun k => (s.sessions[k]?.elim false Session.listed)) then
    some { s with watcher := { s.watcher with view := .reading order none, skipped := [] } }
  else none

def State.readAgent (s : State) : Option State := do
  match s.watcher.view with
  | .reading (k :: todo) none =>
    let x ← s.sessions[k]?
    return { s with watcher := { s.watcher with view := .reading (k :: todo) (some x.agent) } }
  | _ => none

def State.readEvent (s : State) (cwd : Option String) : Option State := do
  match s.watcher.view with
  | .reading (k :: todo) (some agent) =>
    let x ← s.sessions[k]?
    return { s with watcher :=
      { s.watcher with view := .reading todo none, snapshot := s.watcher.snapshot ++ [x.event agent cwd] } }
  | _ => none

def State.unlockTable (s : State) : Option State :=
  match s.watcher.view with
  | .reading [] none => some { s with watcher := { s.watcher with view := .serving } }
  | _ => none

def State.write (s : State) : Option State :=
  match s.watcher.view, s.watcher.snapshot with
  | .serving, e :: rest => some { s with watcher := { s.watcher with snapshot := rest, sent := s.watcher.sent ++ [e] } }
  | _, _ => none

/-- `rx.recv()`, with everything written. -/
def State.recv (s : State) : Option State :=
  if s.watcher.view = .serving ∧ s.watcher.snapshot = [] then
    let oldest := s.log.length - eventBacklog
    if s.watcher.pos < oldest then
      let skipped := ((s.log.take oldest).drop s.watcher.pos).map Broadcast.event
      some { s with watcher := { s.watcher with view := .behind, pos := oldest, skipped := skipped } }
    else do
      let b ← s.log[s.watcher.pos]?
      return { s with watcher := { s.watcher with pos := s.watcher.pos + 1, snapshot := [b.event] } }
  else none

inductive Label where
  | open (name : String)
  | scheduleAgent (session : Nat)
  | kill (name : String)
  | reap (session : Nat)
  | check (task : Nat)
  | refresh (task : Nat) (agent : Option AgentInfo)
  | mark (task : Nat)
  | clear (task : Nat)
  | remove (task : Nat)
  | lock (task : Nat)
  | send (task : Nat) (cwd : Option String)
  | subscribe
  | readTable (order : List Nat)
  | readAgent
  | readEvent (cwd : Option String)
  | unlockTable
  | write
  | recv
deriving DecidableEq, Repr

def step (s : State) : Label → Option State
  | .open name => s.open name
  | .scheduleAgent k => s.scheduleAgent k
  | .kill name => s.kill name
  | .reap k => s.reap k
  | .check i => s.check i
  | .refresh i agent => s.refresh i agent
  | .mark i => s.mark i
  | .clear i => s.clear i
  | .remove i => s.remove i
  | .lock i => s.lock i
  | .send i cwd => s.send i cwd
  | .subscribe => s.subscribe
  | .readTable order => s.readTable order
  | .readAgent => s.readAgent
  | .readEvent cwd => s.readEvent cwd
  | .unlockTable => s.unlockTable
  | .write => s.write
  | .recv => s.recv

end Mux.Watch
