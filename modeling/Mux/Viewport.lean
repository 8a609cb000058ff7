import Mux.Lib.Run
import Mux.Terminal

/-!
# The terminal lock and the revision

What an observer sees of a terminal is read under the terminal lock, and what changes it is
done under the lock; the revision is an atomic next to it that is advanced by convention. A
task at the lock is a program counter here, so that each load and each advance is a step of
its own: the reaper advances the revision without the lock, in between any two of them.
-/

namespace Mux

/-- What a snapshot reads of the emulator. -/
class Viewport (T : Type) extends Ghostty T where
  cursorPosition : T → UInt16 × UInt16
  dumpViewportRow : T → Nat → String

def Terminal.cursorPosition {T : Type} [Viewport T] (t : Terminal T) : UInt16 × UInt16 :=
  Viewport.cursorPosition t.handle

def Terminal.rowTexts {T : Type} [Viewport T] (t : Terminal T) : List String :=
  (List.range t.rows.toNat).map (Viewport.dumpViewportRow t.handle)

end Mux

namespace Mux.View

open Lib

structure PtySnapshot where
  generation : String
  revision : UInt64
  size : UInt16 × UInt16
  cursor : UInt16 × UInt16
  text : List String
  deriving DecidableEq

/-- `feed` is a round of the read loop that got bytes; `peek` is any other task that takes the
lock and leaves the terminal alone: a round that got none, the agent detector, the handoff. -/
inductive Task where
  | feed (bytes : Bytes)
  | attachOn (cols rows : UInt16)
  | resize (cols rows : UInt16)
  | snapshot
  | peek

inductive Phase where
  | locking
  | mutating (op : VtOp)
  | changed
  | size
  | cursor (size : UInt16 × UInt16)
  | revision (size cursor : UInt16 × UInt16)
  | text (size cursor : UInt16 × UInt16) (revision : UInt64)
  | unlocking
  | done

def Phase.holdsLock : Phase → Bool
  | .locking | .done => false
  | _ => true

/-- What a task begins with once it has the lock. -/
def Task.locked : Task → Phase
  | .feed bytes => .mutating (.feed bytes)
  | .attachOn cols rows | .resize cols rows => .mutating (.resize rows cols)
  | .snapshot => .size
  | .peek => .unlocking

/-- `changes` counts the advances of the revision, and `taken` is every snapshot so far. -/
structure State (T : Type) where
  generation : String
  terminal : Terminal T
  revision : UInt64
  lock : Option Nat
  tasks : List (Task × Phase)
  changes : Nat
  taken : List PtySnapshot

section
variable {T : Type} [Viewport T]

def start (generation : String) (terminal : Terminal T) : State T where
  generation := generation
  terminal := terminal
  revision := 0
  lock := none
  tasks := []
  changes := 0
  taken := []

namespace State

def goTo (s : State T) (k : Nat) (t : Task) (p : Phase) : State T := { s with tasks := s.tasks.set k (t, p) }

def changed (s : State T) : State T := { s with revision := s.revision + 1, changes := s.changes + 1 }

def acquire (s : State T) (k : Nat) (t : Task) : Option (State T) :=
  if s.lock = none then some { s.goTo k t t.locked with lock := some k } else none

/-- What the task does next with the lock held. -/
def go (s : State T) (k : Nat) (t : Task) : Phase → Option (State T)
  | .mutating op => some { s.goTo k t .changed with terminal := op.apply s.terminal }
  | .changed => some (s.changed.goTo k t .unlocking)
  | .size => some (s.goTo k t (.cursor s.terminal.size))
  | .cursor size => some (s.goTo k t (.revision size s.terminal.cursorPosition))
  | .revision size cursor => some (s.goTo k t (.text size cursor s.revision))
  | .text size cursor revision => some { s.goTo k t .unlocking with
      taken := s.taken ++ [⟨s.generation, revision, size, cursor, s.terminal.rowTexts⟩] }
  | .unlocking => some { s.goTo k t .done with lock := none }
  | .locking => s.acquire k t
  | .done => none

end State

inductive Label where
  | spawn (t : Task)
  | go (k : Nat)
  | reap

def step (s : State T) : Label → Option (State T)
  | .spawn t => some { s with tasks := s.tasks ++ [(t, .locking)] }
  | .go k => s.tasks[k]?.bind fun p => s.go k p.1 p.2
  | .reap => some s.changed

end

instance : Viewport Echo where
  cursorPosition t := (UInt16.ofNat t.text.length, 1)
  dumpViewportRow t r := if r = 0 then String.ofList (t.text.map fun b => Char.ofNat b.toNat) else ""

end Mux.View
