import Mathlib.Data.List.Sort
import Mux.Manager

/-!
# A self-upgrade: two daemons and one handoff

The predecessor runs `hand_off` beside everything else it does: it lists its live sessions,
connects, takes their terminal locks, reads each of them and sends the lot. The successor
runs `accept_handoff`: it adopts what it received and writes the ack. Every wait can end in
an error or a timeout, the successor's also in a cancellation, and either daemon can die at
any moment. A pty is one device with two masters then, and the daemon that reads a byte
from it is the only one that does.
-/

namespace Mux.Handoff

open Lib Manager

inductive Side where
  | pred
  | succ
  deriving DecidableEq

def maxMigrateFds : Nat := 256

/-! ## The two tasks -/

inductive Phase where
  | idle
  | snapshot
  | locking
  | awaiting
  | failed
  | exited
  deriving DecidableEq

/-- `hand_off`: the sessions it hands over, how many of their terminals it has locked, and
what it has read of the first ones, each with a duplicate of its master. -/
structure Out where
  phase : Phase
  sessions : List Ref
  locked : Nat
  ptys : List (MigratePty × PtyId)

def Out.running (o : Out) : Bool :=
  match o.phase with
  | .snapshot | .locking | .awaiting => true
  | _ => false

def Out.locks (o : Out) : List Ref := if o.running then o.sessions.take o.locked else []

def Out.gathered (o : Out) : List Ref := o.sessions.take o.ptys.length

inductive Accept where
  | listening
  | connected
  | received (ptys : List (MigratePty × PtyId))
  | starting
  | acking
  | acked
  | failed
  deriving DecidableEq

structure Setup where
  nonblocking : Bool
  asyncFd : Bool
  generation : Generation

structure Read where
  side : Side
  ref : Ref
  pty : PtyId
  bytes : Bytes

/-- `queued`, `message`, `ack` and `isOpen` are the migration stream: a connection nobody has
accepted, the payload on its way, the ack byte, and whether the predecessor still has its
end. `adopted` pairs each session handed over with the successor's, `installed` is what the
adoption put in the successor's table, and `reads` is every read so far: the last three are
kept for the statements. -/
structure World (T : Type) where
  pred : State T
  succ : State T
  predUp : Bool
  succUp : Bool
  out : Out
  acc : Accept
  queued : Bool
  message : Option (List (MigratePty × PtyId))
  ack : Bool
  isOpen : Bool
  adopted : List (Ref × Ref)
  installed : List (String × Pid × Option Nat)
  tty : PtyId → Bytes
  reads : List Read

section
variable {T : Type}

def isLive (s : State T) (r : Ref) : Bool := (s.session? r).any fun p => !p.exited

def nameOf (s : State T) (r : Ref) : String := ((s.session? r).map (·.name)).getD ""

def liveSessions (s : State T) : List Ref :=
  ((s.ptys.entries.map (·.2)).filter fun r => isLive s r).insertionSort fun a b => nameOf s a ≤ nameOf s b

def migratePty [Ghostty T] (p : PtySession T) (cols rows : UInt16) : MigratePty where
  name := p.name
  command := p.command
  childPid := p.child
  cols := cols
  rows := rows
  screen := p.terminal.renderScreenBytes
  closeDeadline := p.closeDeadline

def incoming (ptys : List (MigratePty × PtyId)) (setup : List Setup) : List Incoming :=
  List.zipWith (fun p u => ⟨p.1, p.2, u.nonblocking, u.asyncFd, u.generation⟩) ptys setup

def tuple (p : PtySession T) : String × Pid × Option Nat := (p.name, p.child, p.closeDeadline)

/-- The successor's session for each session handed over, found by its name. -/
def pairs (sessions : List Ref) (ptys : List (MigratePty × PtyId)) (succ : State T) : List (Ref × Ref) :=
  (sessions.zip ptys).filterMap fun (r, p) => (succ.ptys.get p.1.name).map fun q => (r, q)

namespace World

/-- A daemon in state `s` and a successor that has just been started. -/
def start (s : State T) : World T where
  pred := s
  succ := State.new s.clock
  predUp := true
  succUp := true
  out := ⟨.idle, [], 0, []⟩
  acc := .listening
  queued := false
  message := none
  ack := false
  isOpen := false
  adopted := []
  installed := []
  tty := fun _ => []
  reads := []

/-! ### hand_off -/

def snapshot (w : World T) : Option (World T) :=
  if w.predUp ∧ w.out.phase = .idle then
    if maxMigrateFds < (liveSessions w.pred).length then some { w with out := { w.out with phase := .failed } }
    else some { w with out := ⟨.snapshot, liveSessions w.pred, 0, []⟩ }
  else none

def connect (w : World T) : Option (World T) :=
  if w.predUp ∧ w.out.phase = .snapshot ∧ w.acc = .listening then
    some { w with out := { w.out with phase := .locking }, queued := true, isOpen := true }
  else none

def lock (w : World T) : Option (World T) :=
  if w.predUp ∧ w.out.phase = .locking ∧ w.out.locked < w.out.sessions.length then
    some { w with out := { w.out with locked := w.out.locked + 1 } }
  else none

def gather [Ghostty T] (w : World T) (cols rows : UInt16) : Option (World T) :=
  if w.predUp ∧ w.out.phase = .locking ∧ w.out.locked = w.out.sessions.length then
    w.out.sessions[w.out.ptys.length]?.bind fun r =>
      (w.pred.session? r).map fun p =>
        { w with out := { w.out with ptys := w.out.ptys ++ [(migratePty p cols rows, p.master)] } }
  else none

def send (w : World T) : Option (World T) :=
  if w.predUp ∧ w.out.phase = .locking ∧ w.out.ptys.length = w.out.sessions.length then
    some { w with out := { w.out with phase := .awaiting }, message := some w.out.ptys }
  else none

/-- Any error of `hand_off`: connect, dup, send, or no ack in time. An ack that is there is
read, not timed out on. -/
def handOffErr (w : World T) : Option (World T) :=
  if w.predUp ∧ w.out.running ∧ ¬ (w.out.phase = .awaiting ∧ w.ack) then
    some { w with out := { w.out with phase := .failed } }
  else none

def dropStream (w : World T) : Option (World T) :=
  if w.predUp ∧ w.out.phase = .failed ∧ w.isOpen then some { w with isOpen := false } else none

def readAck (w : World T) : Option (World T) :=
  if w.predUp ∧ w.out.phase = .awaiting ∧ w.ack then
    some { w with out := { w.out with phase := .exited }, predUp := false, isOpen := false }
  else none

/-! ### accept_handoff -/

def accept (w : World T) : Option (World T) :=
  if w.succUp ∧ w.acc = .listening ∧ w.queued then some { w with acc := .connected, queued := false } else none

def receive (w : World T) : Option (World T) :=
  if w.succUp ∧ w.acc = .connected then
    w.message.map fun ptys => { w with acc := .received ptys, message := none }
  else none

def adopt [Ghostty T] (w : World T) (setup : List Setup) : Option (World T) :=
  match w.acc with
  | .received ptys =>
    if w.succUp ∧ setup.length = ptys.length then
      match w.succ.adoptMany (incoming ptys setup) with
      | (.error _, succ) => some { w with succ := succ, acc := .failed }
      | (.ok _, succ) =>
        some { w with
          succ := succ
          acc := .starting
          adopted := pairs w.out.sessions ptys succ
          installed := (succ.cells.drop w.succ.cells.length).map fun c => tuple c.session }
    else none
  | _ => none

/-- `adopt_many` returns once every session it installed has its tasks. -/
def adoptedAll (w : World T) : Option (World T) :=
  if w.succUp ∧ w.acc = .starting ∧
      w.adopted.all (fun e => w.succ.cells[e.2]?.any fun c => c.loop ≠ .unspawned ∧ ¬ c.arming) then
    some { w with acc := .acking }
  else none

def writeAck (w : World T) : Option (World T) :=
  if w.succUp ∧ w.acc = .acking ∧ w.isOpen then some { w with acc := .acked, ack := true } else none

/-- An error or the handoff's timeout, at a point where `accept_handoff` waits. -/
def acceptErr (w : World T) : Option (World T) :=
  if w.succUp ∧ (w.acc = .listening ∨ w.acc = .connected ∨ w.acc = .acking) then
    some { w with acc := .failed }
  else none

/-! ### Daemons and ptys -/

def isRequest : Manager.Label → Bool
  | .openTerm .. | .get _ | .checkExisting _ | .kill _ | .closeFor .. | .reopen _ => true
  | _ => false

def isOwn : Manager.Label → Bool
  | .adoptMany _ | .read .. | .tick _ => false
  | _ => true

def onPred [Ghostty T] (w : World T) (a : Manager.Label) : Option (World T) :=
  if w.predUp ∧ isOwn a then (Manager.step w.pred a).map fun s => { w with pred := s } else none

/-- The successor answers requests only once its `accept_handoff` has ended and the
predecessor is gone: until then the control socket is not its own. -/
def onSucc [Ghostty T] (w : World T) (a : Manager.Label) : Option (World T) :=
  if w.succUp ∧ isOwn a ∧ (isRequest a → ¬ w.predUp ∧ (w.acc = .acked ∨ w.acc = .failed)) then
    (Manager.step w.succ a).map fun s => { w with succ := s }
  else none

def tick (w : World T) (ms : Nat) : Option (World T) :=
  some { w with
    pred := { w.pred with clock := w.pred.clock + ms }
    succ := { w.succ with clock := w.succ.clock + ms } }

def produce (w : World T) (p : PtyId) (bytes : Bytes) : Option (World T) :=
  some { w with tty := fun i => if i = p then w.tty p ++ bytes else w.tty i }

def consume (w : World T) (side : Side) (r : Ref) (p : PtyId) (n : Nat) : World T :=
  { w with
    tty := fun i => if i = p then (w.tty p).drop n else w.tty i
    reads := w.reads ++ [⟨side, r, p, (w.tty p).take n⟩] }

/-- A read loop of the predecessor takes `n` bytes; not while `hand_off` holds the terminal. -/
def predRead [Ghostty T] (w : World T) (r : Ref) (n : Nat) : Option (World T) :=
  if w.predUp ∧ r ∉ w.out.locks then
    (w.pred.session? r).bind fun p =>
      (w.pred.read r ((w.tty p.master).take n)).map fun s => { w.consume .pred r p.master n with pred := s }
  else none

def succRead [Ghostty T] (w : World T) (r : Ref) (n : Nat) : Option (World T) :=
  if w.succUp then
    (w.succ.session? r).bind fun p =>
      (w.succ.read r ((w.tty p.master).take n)).map fun s => { w.consume .succ r p.master n with succ := s }
  else none

def predCrash (w : World T) : Option (World T) :=
  if w.predUp then some { w with predUp := false, isOpen := false } else none

def succCrash (w : World T) : Option (World T) :=
  if w.succUp then some { w with succUp := false } else none

end World

end

/-! ## The steps of an upgrade -/

inductive Label where
  | snapshot
  | connect
  | lock
  | gather (cols rows : UInt16)
  | send
  | handOffErr
  | dropStream
  | readAck
  | accept
  | receive
  | adopt (setup : List Setup)
  | adoptedAll
  | writeAck
  | acceptErr
  | onPred (a : Manager.Label)
  | onSucc (a : Manager.Label)
  | tick (ms : Nat)
  | produce (p : PtyId) (bytes : Bytes)
  | predRead (r : Ref) (n : Nat)
  | succRead (r : Ref) (n : Nat)
  | predCrash
  | succCrash

def step {T : Type} [Ghostty T] (w : World T) : Label → Option (World T)
  | .snapshot => w.snapshot
  | .connect => w.connect
  | .lock => w.lock
  | .gather cols rows => w.gather cols rows
  | .send => w.send
  | .handOffErr => w.handOffErr
  | .dropStream => w.dropStream
  | .readAck => w.readAck
  | .accept => w.accept
  | .receive => w.receive
  | .adopt setup => w.adopt setup
  | .adoptedAll => w.adoptedAll
  | .writeAck => w.writeAck
  | .acceptErr => w.acceptErr
  | .onPred a => w.onPred a
  | .onSucc a => w.onSucc a
  | .tick ms => w.tick ms
  | .produce p bytes => w.produce p bytes
  | .predRead r n => w.predRead r n
  | .succRead r n => w.succRead r n
  | .predCrash => w.predCrash
  | .succCrash => w.succCrash

end Mux.Handoff
