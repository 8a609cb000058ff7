import Mux.Lib.Bytes
import Mux.Lib.Run

/-!
# The detector of one session

The read loop feeds the terminal and then asks for an evaluation; an adoption asks too. A
flag keeps the requests of one burst together: who sets it spawns an evaluation, which
waits for the output to settle, clears the flag and then reads the session. A reading
takes time: it begins with the foreground process, and locks the terminal later if an agent
runs there.

Each step is one access to the flag, to the terminal or to `exited`, or a spawn.
-/

namespace Mux.Detector

open Lib

/-- Where the read loop is: between two chunks, behind the chunk it has fed, or in `schedule_agent`
with the flag set and nothing spawned yet. -/
inductive ReadLoop where
  | receiving
  | fed
  | spawning
deriving DecidableEq, Repr

/-- How many chunks had been fed when it began, and what it has seen of the terminal. -/
structure Reading where
  began : Nat
  screen : Option (List Bytes)
deriving DecidableEq, Repr

/-- A spawned evaluation. One that finds the session exited ends without a reading. -/
inductive Evaluation where
  | settling
  | settled
  | reading (r : Reading)
  | finished (r : Option Reading)
deriving DecidableEq, Repr

/-- `begun` is kept for the statements: the evaluations in the order in which their readings began. -/
structure State where
  agentPending : Bool
  exited : Bool
  terminal : List Bytes
  readLoop : ReadLoop
  -- other callers of `schedule_agent` that have set the flag and not spawned yet
  callers : Nat
  evaluations : List Evaluation
  begun : List Nat
deriving DecidableEq, Repr

def init : State where
  agentPending := false
  exited := false
  terminal := []
  readLoop := .receiving
  callers := 0
  evaluations := []
  begun := []

def State.setEvaluation (s : State) (i : Nat) (e : Evaluation) : State :=
  { s with evaluations := s.evaluations.set i e }

def State.spawn (s : State) : State := { s with evaluations := s.evaluations ++ [.settling] }

def State.feed (s : State) (chunk : Bytes) : Option State :=
  if s.readLoop = .receiving then some { s with terminal := s.terminal ++ [chunk], readLoop := .fed } else none

/-- The read loop's `schedule_agent` swaps the flag. -/
def State.schedule (s : State) : Option State :=
  if s.readLoop = .fed then
    some { s with agentPending := true, readLoop := if s.agentPending then .receiving else .spawning }
  else none

def State.scheduled (s : State) : Option State :=
  if s.readLoop = .spawning then some { s.spawn with readLoop := .receiving } else none

/-- Another caller's `schedule_agent` swaps the flag. -/
def State.request (s : State) : Option State :=
  some { s with agentPending := true, callers := if s.agentPending then s.callers else s.callers + 1 }

def State.requested (s : State) : Option State :=
  if s.callers = 0 then none else some { s.spawn with callers := s.callers - 1 }

/-- The settle time is over: the flag is cleared. -/
def State.settle (s : State) (i : Nat) : Option State :=
  if s.evaluations[i]? = some .settling then some { s.setEvaluation i .settled with agentPending := false } else none

/-- Unless the session has exited the reading begins. -/
def State.start (s : State) (i : Nat) : Option State :=
  if s.evaluations[i]? = some .settled then
    if s.exited then some (s.setEvaluation i (.finished none))
    else some { s.setEvaluation i (.reading ⟨s.terminal.length, none⟩) with begun := s.begun ++ [i] }
  else none

/-- An agent is in the foreground: the terminal is locked and read. -/
def State.look (s : State) (i : Nat) : Option State :=
  match s.evaluations[i]? with
  | some (.reading ⟨began, none⟩) => some (s.setEvaluation i (.reading ⟨began, some s.terminal⟩))
  | _ => none

/-- The agent is stored, and the evaluation emits and ends. -/
def State.finish (s : State) (i : Nat) : Option State :=
  match s.evaluations[i]? with
  | some (.reading r) => some (s.setEvaluation i (.finished (some r)))
  | _ => none

inductive Label where
  | feed (chunk : Bytes)
  | schedule
  | scheduled
  | request
  | requested
  | settle (i : Nat)
  | start (i : Nat)
  | look (i : Nat)
  | finish (i : Nat)
  | exit
deriving DecidableEq, Repr

def step (s : State) : Label → Option State
  | .feed chunk => s.feed chunk
  | .schedule => s.schedule
  | .scheduled => s.scheduled
  | .request => s.request
  | .requested => s.requested
  | .settle i => s.settle i
  | .start i => s.start i
  | .look i => s.look i
  | .finish i => s.finish i
  | .exit => some { s with exited := true }

/-- It waits out its settle time. -/
def Evaluation.waiting : Evaluation → Bool
  | .settling => true
  | _ => false

/-- Its settle time is over and it has not ended. -/
def Evaluation.running : Evaluation → Bool
  | .settled | .reading _ => true
  | _ => false

end Mux.Detector
