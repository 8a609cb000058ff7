import Mux.Session

/-!
# The foreground notice

`schedule_agent` looks at a pty once its output has settled. An evaluation stores what runs in the
foreground and, when the name is a new one, hands it to the client that is then attached; an
attach puts the stored name into its channel before it takes the slot. The session's own steps are those of
`Session`, with its notices sent by the evaluations only.
-/

namespace Mux.Foreground

open Lib Session

inductive Evaluation where
  | settle
  | refresh
  | tell (name : String)
deriving DecidableEq

/-- The evaluations under way; one that has looked up its client is among the session's `tells`. -/
structure State (T : Type) where
  session : Session.State T
  agentPending : Bool
  evaluations : List Evaluation

namespace State

section
variable {T : Type} [Ghostty T]

def start (session : Session.State T) : State T where
  session := session
  agentPending := false
  evaluations := []

def foreground (s : State T) : Option String := s.session.session.foreground

/-- One evaluation per burst. -/
def scheduleAgent (s : State T) : State T :=
  if s.agentPending then s else { s with agentPending := true, evaluations := s.evaluations ++ [.settle] }

def check (s : State T) (i : Nat) : Option (State T) :=
  match s.evaluations[i]? with
  | some .settle =>
    some { s with
      agentPending := false
      evaluations := if s.session.session.exited then s.evaluations.eraseIdx i else s.evaluations.set i .refresh }
  | _ => none

/-- `refresh_agent` returns the name only when it differs from the last reading. -/
def refresh (s : State T) (i : Nat) (name : Option String) : Option (State T) :=
  match s.evaluations[i]? with
  | some .refresh =>
    if s.foreground = name then some { s with evaluations := s.evaluations.eraseIdx i }
    else (s.session.refresh name).map fun session =>
      { s with
        session := session
        evaluations := match name with
          | some name => s.evaluations.set i (.tell name)
          | none => s.evaluations.eraseIdx i }
  | _ => none

/-- `tell_foreground` looks up the client; with none there is nothing to do. -/
def tell (s : State T) (i : Nat) : Option (State T) :=
  match s.evaluations[i]? with
  | some (.tell name) =>
    some { s with session := (s.session.tell name).getD s.session, evaluations := s.evaluations.eraseIdx i }
  | _ => none

end

end State

inductive Label where
  | session (a : Session.Label)
  | scheduleAgent
  | check (i : Nat)
  | refresh (i : Nat) (name : Option String)
  | tell (i : Nat)

def evaluates : Session.Label → Bool
  | .refresh _ | .tell _ => true
  | _ => false

def step {T : Type} [Ghostty T] (s : State T) : Label → Option (State T)
  | .session a =>
    if evaluates a then none else (Session.step s.session a).map fun session => { s with session := session }
  | .scheduleAgent => some s.scheduleAgent
  | .check i => s.check i
  | .refresh i name => s.refresh i name
  | .tell i => s.tell i

def foreground? : ClientMsg → Option String
  | .foreground name => some name
  | _ => none

def lastForeground (msgs : List ClientMsg) : Option String := (msgs.filterMap foreground?).getLast?

end Mux.Foreground
