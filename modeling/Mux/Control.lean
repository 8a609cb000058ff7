import Mux.HandoffLemmas

/-!
# The control socket during an upgrade

Owning the control socket is what makes a daemon the one that clients find. The predecessor
has it until it exits; the successor waits for that and then runs `server::bind`: probe,
unlink, bind, listen, chmod. In between the path is a dead file or none, and a client that
connects then may start a daemon of its own, which runs `server::bind` too.
-/

namespace Mux.Control

open Lib Manager Handoff

/-- A daemon process: the two of the handoff, and those that clients have started. -/
inductive Proc where
  | pred
  | succ
  | other (i : Nat)
  deriving DecidableEq

/-- `server::bind`. A process that has failed has exited. -/
inductive Bind where
  | probing
  | unlinking
  | binding
  | listening
  | permitting
  | serving
  | failed
  deriving DecidableEq

def Bind.accepts : Bind → Bool
  | .permitting | .serving => true
  | _ => false

inductive Boot where
  | adopting
  | polling (deadline : Nat)
  | bind (b : Bind)
  deriving DecidableEq

def Boot.accepts : Boot → Bool
  | .bind b => b.accepts
  | _ => false

/-- One attempt to connect: `muxd ls`, `watch` and the like, the first connect of a pane, or
a pane that has been reconnecting since `started`. -/
inductive Client where
  | query (noAutostart : Bool)
  | firstAttach
  | reconnect (started : Nat)

def respawnAfter : Nat := 5000

def predecessorExitTimeout : Nat := 5000

def Client.autostarts (now : Nat) : Client → Bool
  | .query noAutostart => !noAutostart
  | .firstAttach => true
  | .reconnect started => decide (respawnAfter ≤ now - started)

/-- `path` is the process the socket file was bound by, dead or alive. -/
structure State (T : Type) where
  world : World T
  path : Option Proc
  boot : Boot
  others : List Bind

namespace State

section
variable {T : Type}

def start (m : Manager.State T) : State T where
  world := World.start m
  path := some .pred
  boot := .adopting
  others := []

def answers (s : State T) : Bool :=
  match s.path with
  | some .pred => s.world.predUp
  | some .succ => s.world.succUp && s.boot.accepts
  | some (.other i) => s.others[i]?.any (·.accepts)
  | none => false

def connect (s : State T) (c : Client) : State T :=
  if s.answers then s
  else if c.autostarts s.world.pred.clock then { s with others := s.others ++ [.probing] }
  else s

def startPoll (s : State T) : Option (State T) :=
  if s.world.succUp ∧ s.boot = .adopting ∧ (s.world.acc = .acked ∨ s.world.acc = .failed) then
    some { s with boot := .polling (s.world.pred.clock + predecessorExitTimeout) }
  else none

def poll (s : State T) : Option (State T) :=
  match s.boot with
  | .polling deadline =>
    if s.world.succUp ∧ (s.world.predUp = false ∨ deadline ≤ s.world.pred.clock) then
      some { s with boot := .bind .probing }
    else none
  | _ => none

def bindNext (s : State T) (p : Proc) : Bind → Option (Option Proc × Bind)
  | .probing => some (s.path, if s.answers then .failed else .unlinking)
  | .unlinking => some (none, .binding)
  | .binding =>
    match s.path with
    | none => some (some p, .listening)
    | some q => some (some q, .failed)
  | .listening => some (s.path, .permitting)
  | .permitting => some (s.path, if s.path.isSome then .serving else .failed)
  | _ => none

/-- A successor that cannot bind exits, with the sessions it has adopted. -/
def bindSucc (s : State T) : Option (State T) :=
  match s.boot with
  | .bind b =>
    if s.world.succUp then
      (s.bindNext .succ b).map fun (path, b) =>
        { s with
          path := path
          boot := .bind b
          world := { s.world with succUp := decide (b ≠ .failed) } }
    else none
  | _ => none

def bindOther (s : State T) (i : Nat) : Option (State T) :=
  s.others[i]?.bind fun b =>
    (s.bindNext (.other i) b).map fun (path, b) => { s with path := path, others := s.others.set i b }

/-- The successor gets requests only once it serves the socket. -/
def reaches (s : State T) : Handoff.Label → Bool
  | .onSucc a => !World.isRequest a || decide (s.boot = .bind .serving)
  | _ => true

def handoff [Ghostty T] (s : State T) (a : Handoff.Label) : Option (State T) :=
  if s.reaches a then (Handoff.step s.world a).map fun w => { s with world := w } else none

end

end State

/-! ## The steps of the processes -/

inductive Label where
  | handoff (a : Handoff.Label)
  | connect (c : Client)
  | startPoll
  | poll
  | bindSucc
  | bindOther (i : Nat)

def step {T : Type} [Ghostty T] (s : State T) : Label → Option (State T)
  | .handoff a => s.handoff a
  | .connect c => some (s.connect c)
  | .startPoll => s.startPoll
  | .poll => s.poll
  | .bindSucc => s.bindSucc
  | .bindOther i => s.bindOther i

end Mux.Control
