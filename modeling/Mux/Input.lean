import Mux.Lib.Run
import Mux.Terminal

/-!
# Input to a pty

Interactive writers (`write_input`) and automation (`checked_input`) share the session's
input lock. A call advances `input_revision` before it writes, and it writes in a loop that
gives way whenever the pty is full. So a call is a program counter: each atomic load is a
step of its own, and it can be dropped where it awaits, which is at the lock and at
`writable`, never in between.
-/

namespace Mux.Input

open Lib

abbrev Errno := Nat

def maxInputBytes : Nat := 8192

structure PtyInput where
  generation : String
  revision : UInt64
  inputRevision : UInt64
  foregroundPgid : Int
  data : Bytes
  deriving DecidableEq

inductive Request where
  | writeInput (data : Bytes)
  | checkedInput (input : PtyInput)
  deriving DecidableEq

def Request.data : Request → Bytes
  | .writeInput data => data
  | .checkedInput input => input.data

inductive InputError where
  | size
  | tcgetpgrp (e : Errno)
  | changed
  deriving DecidableEq

def InputError.message : InputError → Option String
  | .size => some "input must contain 1..=8192 bytes"
  | .tcgetpgrp _ => none
  | .changed => some "terminal changed since inspection; inspect again before submitting input"

/-- Where a call stands. The phases from `foreground` to `writing` hold the input lock;
those from `writing` on carry the revision the call advanced to. -/
inductive Phase where
  | locking
  | foreground
  | exited (foreground : Int)
  | revision (foreground : Int)
  | inputRevision (foreground : Int)
  | advancing
  | writing (revision : UInt64) (written : Nat)
  | rejected (e : InputError)
  | finished (revision : UInt64)
  | failed (revision : UInt64) (written : Nat) (e : Errno)
  | cancelled (write : Option (UInt64 × Nat))
  deriving DecidableEq

def Phase.holdsLock : Phase → Bool
  | .foreground | .exited _ | .revision _ | .inputRevision _ | .advancing | .writing .. => true
  | _ => false

structure Call where
  request : Request
  phase : Phase
  deriving DecidableEq

/-- The bytes of the call that have reached the pty. -/
def Call.sent (c : Call) : Bytes :=
  match c.phase with
  | .writing _ written | .failed _ written _ | .cancelled (some (_, written)) => c.request.data.take written
  | .finished _ => c.request.data
  | _ => []

def Call.advanced? (c : Call) : Option UInt64 :=
  match c.phase with
  | .writing revision _ | .finished revision | .failed revision _ _ | .cancelled (some (revision, _)) => some revision
  | _ => none

/-- What the caller of `checked_input` gets; nothing when it has dropped the call. -/
def Call.answer? (c : Call) : Option (Except (Option String) UInt64) :=
  match c.phase with
  | .finished revision => some (.ok revision)
  | .rejected e => some (.error e.message)
  | .failed .. => some (.error (some "input write failed; delivery may be partial; do not retry"))
  | _ => none

/-- `pty` is every byte written to the master. `accepted` is the history of the calls that
have advanced the input, oldest first. -/
structure State where
  generation : String
  revision : UInt64
  inputRevision : UInt64
  exited : Bool
  lock : Option Nat
  calls : List Call
  pty : Bytes
  accepted : List Nat
  deriving DecidableEq

def start (generation : String) : State where
  generation := generation
  revision := 0
  inputRevision := 0
  exited := false
  lock := none
  calls := []
  pty := []
  accepted := []

namespace State

def goTo (s : State) (k : Nat) (c : Call) (p : Phase) : State :=
  { s with calls := s.calls.set k { c with phase := p } }

/-- The guard is dropped with the call's future. -/
def leave (s : State) (k : Nat) (c : Call) (p : Phase) : State :=
  { s.goTo k c p with lock := none }

/-- `checked_input` looks at the size before it asks for the lock. -/
def call (s : State) (r : Request) : State :=
  let phase := match r with
    | .writeInput _ => Phase.locking
    | .checkedInput input =>
      if input.data.isEmpty ∨ maxInputBytes < input.data.length then .rejected .size else .locking
  { s with calls := s.calls ++ [⟨r, phase⟩] }

def acquire (s : State) (k : Nat) (c : Call) : Option State :=
  if c.phase = .locking ∧ s.lock = none then
    let phase := match c.request with
      | .writeInput _ => Phase.advancing
      | .checkedInput _ => .foreground
    some { s.goTo k c phase with lock := some k }
  else none

def tcgetpgrp (s : State) (k : Nat) (c : Call) (answer : Except Errno Int) : Option State :=
  match c.request, c.phase, answer with
  | .checkedInput _, .foreground, .error e => some (s.leave k c (.rejected (.tcgetpgrp e)))
  | .checkedInput input, .foreground, .ok foreground =>
    if foreground ≤ 0 ∨ s.generation ≠ input.generation then some (s.leave k c (.rejected .changed))
    else some (s.goTo k c (.exited foreground))
  | _, _, _ => none

def load (s : State) (k : Nat) (c : Call) : Option State :=
  match c.request, c.phase with
  | .checkedInput _, .exited foreground =>
    if s.exited then some (s.leave k c (.rejected .changed)) else some (s.goTo k c (.revision foreground))
  | .checkedInput input, .revision foreground =>
    if s.revision ≠ input.revision then some (s.leave k c (.rejected .changed))
    else some (s.goTo k c (.inputRevision foreground))
  | .checkedInput input, .inputRevision foreground =>
    if s.inputRevision ≠ input.inputRevision ∨ foreground ≠ input.foregroundPgid then
      some (s.leave k c (.rejected .changed))
    else some (s.goTo k c .advancing)
  | _, _ => none

def advanceInput (s : State) (k : Nat) (c : Call) : Option State :=
  if c.phase = .advancing then
    some { s.goTo k c (.writing (s.inputRevision + 1) 0) with
      inputRevision := s.inputRevision + 1
      accepted := s.accepted ++ [k] }
  else none

/-- One round of `write_all`. A pty that would block has taken 0 bytes. -/
def write (s : State) (k : Nat) (c : Call) (answer : Except Errno Nat) : Option State :=
  match c.phase, answer with
  | .writing revision written, .ok n =>
    if written < c.request.data.length ∧ n ≤ c.request.data.length - written then
      some { s.goTo k c (.writing revision (written + n)) with
        pty := s.pty ++ (c.request.data.drop written).take n }
    else none
  | .writing revision written, .error e =>
    if written < c.request.data.length then some (s.leave k c (.failed revision written e)) else none
  | _, _ => none

def finish (s : State) (k : Nat) (c : Call) : Option State :=
  match c.phase with
  | .writing revision written =>
    if c.request.data.length ≤ written then some (s.leave k c (.finished revision)) else none
  | _ => none

/-- A call is dropped, by its client or by the deadline, at an await: waiting for the lock
or for the pty to be writable. -/
def cancel (s : State) (k : Nat) (c : Call) : Option State :=
  match c.phase with
  | .locking => some (s.goTo k c (.cancelled none))
  | .writing revision written =>
    if written < c.request.data.length then some (s.leave k c (.cancelled (some (revision, written)))) else none
  | _ => none

end State

inductive Act where
  | acquire
  | tcgetpgrp (answer : Except Errno Int)
  | load
  | advanceInput
  | write (answer : Except Errno Nat)
  | finish
  | cancel

inductive Label where
  | call (r : Request)
  | act (k : Nat) (a : Act)
  | changed
  | exit

def act (s : State) (k : Nat) (c : Call) : Act → Option State
  | .acquire => s.acquire k c
  | .tcgetpgrp answer => s.tcgetpgrp k c answer
  | .load => s.load k c
  | .advanceInput => s.advanceInput k c
  | .write answer => s.write k c answer
  | .finish => s.finish k c
  | .cancel => s.cancel k c

def step (s : State) : Label → Option State
  | .call r => some (s.call r)
  | .act k a => s.calls[k]?.bind fun c => act s k c a
  | .changed => some { s with revision := s.revision + 1 }
  | .exit => some { s with exited := true }

end Mux.Input
