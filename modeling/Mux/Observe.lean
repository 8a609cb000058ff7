import Mux.Lib.Run

/-!
# Observers of a terminal

An observer is sent a snapshot of the terminal, and another one after something has changed; changes are coalesced.
It waits on a watch channel: whoever changes something of the session raises the channel's version afterwards, and an
observer goes on when the version is not the one it has noted before it read. Writers and observers are tasks of
their own, and every access is a step.
-/

namespace Mux.Observe

section
variable {V A : Type} [DecidableEq A]

/-- The line of a watch. -/
structure Event (A : Type) where
  agent : Option A
  cwd : Option String
  exited : Bool
deriving DecidableEq

/-! ## Writers -/

/-- One access. `view` stands for the size, the cursor and the rows, which change and are read under the terminal
lock only. `publish` is the comparison with the last event and, unless it is the same, the notification. -/
inductive Op (V A : Type) where
  | lock
  | unlock
  | view (v : V)
  | revise
  | notify
  | input
  | exit
  | agent (a : Option A)
  | eventLock
  | eventAgent
  | eventExited
  | publish (cwd : Option String)
  | eventUnlock

/-- `feed` is a chunk of output, an attach or a resize, `detect` a look at the foreground process. -/
inductive Task (V A : Type) where
  | feed (v : V)
  | input
  | reap (cwd : Option String)
  | killSession (cwd : Option String)
  | detect (a : Option A) (cwd : Option String)

def emit (cwd : Option String) : List (Op V A) := [.eventLock, .eventAgent, .eventExited, .publish cwd, .eventUnlock]

def Task.ops : Task V A → List (Op V A)
  | .feed v => [.lock, .view v, .revise, .notify, .unlock]
  | .input => [.input, .notify]
  | .reap cwd => [.exit, .agent none, .revise, .notify] ++ emit cwd
  | .killSession cwd => [.exit, .agent none] ++ emit cwd
  | .detect a cwd => .agent a :: emit cwd

/-- What is left of a task, and what it has read for its event. -/
structure Writer (V A : Type) where
  ops : List (Op V A)
  agent : Option A
  exited : Bool

/-! ## Observers -/

structure Snapshot (V A : Type) where
  view : V
  revision : Nat
  inputRevision : Nat
  agent : Option A
  exited : Bool
deriving DecidableEq

/-- Where the loop of an observer stands. -/
inductive Phase where
  | marking
  | locking
  | view
  | revision
  | input
  | agent
  | exited
  | unlocking
  | sending
  | waiting
  | sleeping
  | ended
deriving DecidableEq, Repr

/-- `seen` is the version it has noted, `part` the snapshot it is reading. -/
structure Observer (V A : Type) where
  phase : Phase
  seen : Nat
  part : Snapshot V A
  sent : List (Snapshot V A)
deriving DecidableEq

/-! ## The session -/

/-- What an observer is to know. -/
inductive Field where
  | view
  | revision
  | input
  | exited
deriving DecidableEq, Repr

/-- `owed` is kept for the statements: the fields that were changed after the version was raised last. -/
structure Session (V A : Type) where
  view : V
  revision : Nat
  inputRevision : Nat
  agent : Option A
  exited : Bool
  version : Nat
  lock : Bool
  eventLock : Bool
  lastEvent : Option (Event A)
  writers : List (Writer V A)
  observers : List (Observer V A)
  owed : Field → Bool

def start (v : V) : Session V A where
  view := v
  revision := 0
  inputRevision := 0
  agent := none
  exited := false
  version := 0
  lock := false
  eventLock := false
  lastEvent := none
  writers := []
  observers := []
  owed := fun _ => false

namespace Session

def notify (s : Session V A) : Session V A := { s with version := s.version + 1, owed := fun _ => false }

def owe (s : Session V A) (f : Field) : Session V A := { s with owed := fun g => decide (g = f) || s.owed g }

/-- The writer at `k` has these accesses left. -/
def put (s : Session V A) (k : Nat) (w : Writer V A) (ops : List (Op V A)) : Session V A :=
  { s with writers := s.writers.set k { w with ops := ops } }

/-- The access of the writer at `k`, whose other accesses are `ops`. -/
def access (s : Session V A) (k : Nat) (w : Writer V A) (ops : List (Op V A)) : Op V A → Option (Session V A)
  | .lock => if s.lock then none else some { s.put k w ops with lock := true }
  | .unlock => some { s.put k w ops with lock := false }
  | .view v => some { (s.put k w ops).owe .view with view := v }
  | .revise => some { (s.put k w ops).owe .revision with revision := s.revision + 1 }
  | .notify => some (s.put k w ops).notify
  | .input => some { (s.put k w ops).owe .input with inputRevision := s.inputRevision + 1 }
  | .exit => some (if s.exited then s.put k w ops else { (s.put k w ops).owe .exited with exited := true })
  | .agent a => some { s.put k w ops with agent := a }
  | .eventLock => if s.eventLock then none else some { s.put k w ops with eventLock := true }
  | .eventAgent => some (s.put k { w with agent := s.agent } ops)
  | .eventExited => some (s.put k { w with exited := s.exited } ops)
  | .publish cwd =>
    let event : Event A := { agent := w.agent, cwd := cwd, exited := w.exited }
    some (if s.lastEvent = some event then s.put k w ops else { (s.put k w ops).notify with lastEvent := some event })
  | .eventUnlock => some { s.put k w ops with eventLock := false }

/-- The observer at `k` goes on; `ok` says that a send succeeds in time. -/
def observe (s : Session V A) (k : Nat) (o : Observer V A) (ok : Bool) : Option (Session V A) :=
  let goTo (o : Observer V A) (p : Phase) : Session V A := { s with observers := s.observers.set k { o with phase := p } }
  match o.phase with
  | .marking => some (goTo { o with seen := s.version } .locking)
  | .locking => if s.lock then none else some { goTo o .view with lock := true }
  | .view => some (goTo { o with part := { o.part with view := s.view } } .revision)
  | .revision => some (goTo { o with part := { o.part with revision := s.revision } } .input)
  | .input => some (goTo { o with part := { o.part with inputRevision := s.inputRevision } } .agent)
  | .agent => some (goTo { o with part := { o.part with agent := s.agent } } .exited)
  | .exited => some (goTo { o with part := { o.part with exited := s.exited } } .unlocking)
  | .unlocking => some { goTo o .sending with lock := false }
  | .sending =>
    if ok then some (goTo { o with sent := o.sent ++ [o.part] } (if o.part.exited then .ended else .waiting))
    else some (goTo o .ended)
  | .waiting => if s.version ≠ o.seen then some (goTo o .sleeping) else none
  | .sleeping => some (goTo o .marking)
  | .ended => none

/-- A client that hangs up ends its observer while that sends or waits. -/
def hangup (s : Session V A) (k : Nat) (o : Observer V A) : Option (Session V A) :=
  if o.phase = .sending ∨ o.phase = .waiting then
    some { s with observers := s.observers.set k { o with phase := .ended } }
  else none

end Session

inductive Label (V A : Type) where
  | spawn (t : Task V A)
  | access (k : Nat)
  | observe
  | go (k : Nat) (ok : Bool)
  | hangup (k : Nat)

/-- What an observer begins with is read over before it is sent. -/
def Observer.new (s : Session V A) : Observer V A where
  phase := .marking
  seen := s.version
  part := { view := s.view, revision := s.revision, inputRevision := s.inputRevision, agent := s.agent, exited := s.exited }
  sent := []

def step (s : Session V A) : Label V A → Option (Session V A)
  | .spawn t => some { s with writers := s.writers ++ [{ ops := t.ops, agent := none, exited := false }] }
  | .access k =>
    match s.writers[k]? with
    | some w =>
      match w.ops with
      | op :: ops => s.access k w ops op
      | [] => none
    | none => none
  | .observe => some { s with observers := s.observers ++ [.new s] }
  | .go k ok => s.observers[k]?.bind fun o => s.observe k o ok
  | .hangup k => s.observers[k]?.bind fun o => s.hangup k o

end

end Mux.Observe
