import Mathlib.Algebra.Group.Nat.Defs
import Mathlib.Data.List.AList
import Mux.Session

/-!
# The session table of one daemon

`Manager` of manager.rs. A session is shared by the table, its tasks and the handlers that
hold it, so the table maps a name to a reference into `cells`, the sessions this daemon has
made. Each request runs under the table lock and is one step, apart from `kill` and an
expired lease, which terminate the session after the lock is free, and `open_existing`,
which checks the session it got from the table later. The close timers are never cancelled.
-/

namespace Mux.Manager

open Lib

abbrev Ref := Nat

abbrev Table (α : Type) := AList fun _ : String => α

def Table.get {α : Type} (ptys : Table α) (name : String) : Option α := ptys.lookup name

def maxPtys : Nat := 256

def u64Max : Nat := 2 ^ 64 - 1

/-! ## Sessions and their tasks -/

/-- `read_loop` and `reap`. -/
inductive Loop where
  | unspawned
  | reading
  | waiting
  | marked
  | done
  deriving DecidableEq

inductive Removal where
  | killed
  | expired
  | reaped
  deriving DecidableEq

/-- A session and what its tasks have still to do. `removal` is kept for the statements:
what took the session out of the table first. -/
structure Cell (T : Type) where
  session : PtySession T
  loop : Loop
  arming : Bool
  killing : Bool
  removal : Option Removal

/-- A task of `schedule_close`: `wakeAt` is set once it sleeps. `ref` is kept for the
statements: the session it was spawned for. -/
structure Timer where
  ref : Ref
  name : String
  generation : Generation
  deadline : Nat
  wakeAt : Option Nat
  deriving DecidableEq

structure State (T : Type) where
  cells : List (Cell T)
  ptys : Table Ref
  clock : Nat
  timers : List Timer
  lookups : List Ref

/-- One pty as the predecessor describes it. -/
structure MigratePty where
  name : String
  command : List String
  childPid : Pid
  cols : UInt16
  rows : UInt16
  screen : Bytes
  closeDeadline : Option Nat
  deriving DecidableEq

/-- A pty to adopt, its master, and how its set-up goes. -/
structure Incoming where
  pty : MigratePty
  master : PtyId
  nonblocking : Bool
  asyncFd : Bool
  generation : Generation

/-! ## The table -/

def limitReached : String := "pty limit reached (256)"

def alreadyExists (name : String) : String := s!"pty {name} already exists"

def isClosed : String := "terminal is closed; use reopen within 60 seconds"

def insertLocked {α : Type} (ptys : Table α) (name : String) (session : α) : Except String (Table α) :=
  if (ptys.get name).isSome then .error (alreadyExists name)
  else if maxPtys ≤ ptys.entries.length then .error limitReached
  else .ok (ptys.insert name session)

def newSession {T : Type} (generation : Generation) (name : String) (command : List String) (terminal : Terminal T)
    (master : PtyId) (child : Pid) (adopted : Bool) : PtySession T where
  generation := generation
  revision := 0
  name := name
  command := command
  terminal := terminal
  client := none
  master := master
  child := child
  adopted := adopted
  exited := false
  closeDeadline := none
  foreground := none

/-- The session `adopt_many` builds for a pty, on a terminal that shows its screen. -/
def adoptedSession {T : Type} [Ghostty T] (i : Incoming) (terminal : Terminal T) : PtySession T :=
  { newSession i.generation i.pty.name i.pty.command (terminal.feed i.pty.screen) i.master i.pty.childPid true with
    closeDeadline := i.pty.closeDeadline }

namespace State

section
variable {T : Type}

def new (clock : Nat) : State T := ⟨[], ∅, clock, [], []⟩

def modify (s : State T) (r : Ref) (f : Cell T → Cell T) : State T := { s with cells := s.cells.modify r f }

def session? (s : State T) (r : Ref) : Option (PtySession T) := s.cells[r]?.map (·.session)

def unixMillis (s : State T) : Nat := min s.clock u64Max

/-- A session no task runs for yet. -/
def freshCell (p : PtySession T) : Cell T := ⟨p, .unspawned, p.adopted, false, none⟩

def install (s : State T) (name : String) (p : PtySession T) : State T :=
  { s with cells := s.cells ++ [freshCell p], ptys := s.ptys.insert name s.cells.length }

/-- Take `name` out of the table on behalf of a `kill` or an expired lease. -/
def remove (s : State T) (name : String) (r : Ref) (why : Removal) : State T :=
  { s.modify r fun c => { c with killing := true, removal := c.removal <|> some why } with
    ptys := s.ptys.erase name }

/-! ### Requests -/

def openTerm [Ghostty T] (s : State T) (name : String) (command : List String) (cols rows : UInt16)
    (spawned : Except String (PtyId × Pid)) (generation : Generation) : Except String (Ref × Bool) × State T :=
  match s.ptys.get name with
  | some r =>
    if ((s.session? r).bind (·.closeDeadline)).isSome then (.error isClosed, s) else (.ok (r, false), s)
  | none =>
    if maxPtys ≤ s.ptys.entries.length then (.error limitReached, s)
    else match spawned with
      | .error e => (.error s!"spawn pty: {e}", s)
      | .ok (master, child) =>
        match Terminal.new rows cols with
        | none => (.error "terminal alloc", s)
        | some terminal =>
          match insertLocked s.ptys name s.cells.length with
          | .error e => (.error e, s)
          | .ok _ =>
            (.ok (s.cells.length, true),
              s.install name (newSession generation name command terminal master child false))

def get (s : State T) (name : String) : Option Ref := s.ptys.get name

/-- The part of `open_existing` after the lookup. -/
def checkExisting (s : State T) (name : String) (r : Ref) : Except String Ref :=
  match s.session? r with
  | some p =>
    if p.exited then .error s!"saved terminal {name} no longer exists; no replacement shell was started"
    else if p.closeDeadline.isSome then .error isClosed
    else .ok r
  | none => .error s!"saved terminal {name} no longer exists; no replacement shell was started"

def kill (s : State T) (name : String) : Bool × State T :=
  match s.ptys.get name with
  | some r => (true, s.remove name r .killed)
  | none => (false, s)

def scheduleClose (s : State T) (r : Ref) (deadline : Nat) : State T :=
  match s.session? r with
  | some p => { s with timers := s.timers ++ [⟨r, p.name, p.generation, deadline, none⟩] }
  | none => s

def setDeadline (s : State T) (r : Ref) (deadline : Option Nat) : State T :=
  s.modify r fun c => { c with session := { c.session with closeDeadline := deadline } }

/-- A deadline that is set stays; a new one is `retention` from now. -/
def expires (s : State T) (p : PtySession T) (retention : Nat) : Nat :=
  p.closeDeadline.getD (min (s.unixMillis + min retention u64Max) u64Max)

def closeFor (s : State T) (name : String) (retention : Nat) : Except String Nat × State T :=
  match s.ptys.get name with
  | some r =>
    match s.session? r with
    | some p =>
      (.ok (s.expires p retention),
        (s.setDeadline r (some (s.expires p retention))).scheduleClose r (s.expires p retention))
    | none => (.error "terminal no longer exists", s)
  | none => (.error "terminal no longer exists", s)

def close (s : State T) (name : String) : Except String Nat × State T := s.closeFor name 60000

def reopen (s : State T) (name : String) : Except String (Ref × Bool) × State T :=
  match s.ptys.get name with
  | some r =>
    if ((s.session? r).bind (·.closeDeadline)).any (· ≤ s.unixMillis) then
      (.error "saved terminal expired; no replacement shell was started", s)
    else (.ok (r, false), s.setDeadline r none)
  | none => (.error "saved terminal no longer exists; no replacement shell was started", s)

/-! ### Adoption -/

/-- Build every session of a handoff, none of which is in the table yet. -/
def stage [Ghostty T] : List Incoming → Table (PtySession T) → Except String (Table (PtySession T))
  | [], staged => .ok staged
  | i :: rest, staged =>
    if i.nonblocking = false then .error "nonblocking master"
    else match Terminal.new i.pty.rows i.pty.cols with
      | none => .error "terminal alloc"
      | some terminal =>
        if i.asyncFd = false then .error "AsyncFd"
        else match insertLocked staged i.pty.name (adoptedSession i terminal) with
          | .error e => .error e
          | .ok staged => stage rest staged

def extend (s : State T) (staged : List (Sigma fun _ : String => PtySession T)) : State T :=
  staged.foldl (fun s e => s.install e.1 e.2) s

def adoptMany [Ghostty T] (s : State T) (incoming : List Incoming) : Except String Unit × State T :=
  match stage incoming ∅ with
  | .error e => (.error e, s)
  | .ok staged =>
    if maxPtys < s.ptys.entries.length + staged.entries.length then (.error limitReached, s)
    else match staged.keys.find? fun name => (s.ptys.get name).isSome with
      | some name => (.error (alreadyExists name), s)
      | none => (.ok (), s.extend staged.entries)

/-! ### Tasks -/

def startLoop (s : State T) (r : Ref) : Option (State T) :=
  s.cells[r]?.bind fun c =>
    if c.loop = .unspawned then some (s.modify r fun c => { c with loop := .reading }) else none

/-- An adopted session's timer is armed after its read loop is spawned, with the deadline
it has then. -/
def armClose (s : State T) (r : Ref) : Option (State T) :=
  s.cells[r]?.bind fun c =>
    if c.arming ∧ c.loop ≠ .unspawned then
      let s := s.modify r fun c => { c with arming := false }
      some (match c.session.closeDeadline with
        | some deadline => s.scheduleClose r deadline
        | none => s)
    else none

def killSession (s : State T) (r : Ref) : Option (State T) :=
  s.cells[r]?.bind fun c =>
    if c.killing then
      some (s.modify r fun c =>
        { c with killing := false, session := { c.session with client := none, exited := true } })
    else none

def timerSleep (s : State T) (i : Nat) : Option (State T) :=
  s.timers[i]?.bind fun t =>
    if t.wakeAt = none then
      some { s with timers := s.timers.set i { t with wakeAt := some (s.clock + (t.deadline - s.unixMillis)) } }
    else none

/-- The session a timer that fires now removes. -/
def due (s : State T) (t : Timer) : Option Ref :=
  (s.ptys.get t.name).bind fun r =>
    (s.session? r).bind fun p =>
      if p.generation = t.generation ∧ p.closeDeadline = some t.deadline then some r else none

def timerFire (s : State T) (i : Nat) : Option (State T) :=
  s.timers[i]?.bind fun t =>
    if t.wakeAt.any (· ≤ s.clock) then
      let s := { s with timers := s.timers.eraseIdx i }
      some (match s.due t with
        | some r => s.remove t.name r .expired
        | none => s)
    else none

def read [Ghostty T] (s : State T) (r : Ref) (chunk : Bytes) : Option (State T) :=
  s.cells[r]?.bind fun c =>
    if c.loop = .reading ∧ chunk ≠ [] ∧ chunk.length ≤ Session.readChunk then
      some (s.modify r fun c => { c with session := c.session.feed chunk })
    else none

def eof (s : State T) (r : Ref) : Option (State T) :=
  s.cells[r]?.bind fun c =>
    if c.loop = .reading then some (s.modify r fun c => { c with loop := .waiting }) else none

def reapMark (s : State T) (r : Ref) : Option (State T) :=
  s.cells[r]?.bind fun c =>
    if c.loop = .waiting then
      some (s.modify r fun c => { c with loop := .marked, session := { c.session with exited := true }.changed })
    else none

def reapRemove (s : State T) (r : Ref) : Option (State T) :=
  s.cells[r]?.bind fun c =>
    if c.loop = .marked then
      some { s.modify r fun c => { c with loop := .done, removal := c.removal <|> some .reaped } with
        ptys := if s.ptys.get c.session.name = some r then s.ptys.erase c.session.name else s.ptys }
    else none

end

end State

/-! ## The steps of a daemon -/

inductive Label where
  | openTerm (name : String) (command : List String) (cols rows : UInt16) (spawned : Except String (PtyId × Pid))
      (generation : Generation)
  | get (name : String)
  | checkExisting (i : Nat)
  | kill (name : String)
  | closeFor (name : String) (retention : Nat)
  | reopen (name : String)
  | adoptMany (incoming : List Incoming)
  | startLoop (r : Ref)
  | armClose (r : Ref)
  | killSession (r : Ref)
  | timerSleep (i : Nat)
  | timerFire (i : Nat)
  | read (r : Ref) (chunk : Bytes)
  | eof (r : Ref)
  | reapMark (r : Ref)
  | reapRemove (r : Ref)
  | tick (ms : Nat)

def step {T : Type} [Ghostty T] (s : State T) : Label → Option (State T)
  | .openTerm name command cols rows spawned generation =>
    some (s.openTerm name command cols rows spawned generation).2
  | .get name => (s.get name).map fun r => { s with lookups := s.lookups ++ [r] }
  | .checkExisting i => if i < s.lookups.length then some { s with lookups := s.lookups.eraseIdx i } else none
  | .kill name => some (s.kill name).2
  | .closeFor name retention => some (s.closeFor name retention).2
  | .reopen name => some (s.reopen name).2
  | .adoptMany incoming => some (s.adoptMany incoming).2
  | .startLoop r => s.startLoop r
  | .armClose r => s.armClose r
  | .killSession r => s.killSession r
  | .timerSleep i => s.timerSleep i
  | .timerFire i => s.timerFire i
  | .read r chunk => s.read r chunk
  | .eof r => s.eof r
  | .reapMark r => s.reapMark r
  | .reapRemove r => s.reapRemove r
  | .tick ms => some { s with clock := s.clock + ms }

end Mux.Manager
