import Mux.Lib.Run

/-!
# Leases of audio routes

A pane's audio route is opened by `serve_route` and used by device leases. A device calls `acquire`: it joins the route
that is there, or asks the pane's provider for one and joins the route opened for its permit. The
task of a route checks from time to time whether it has expired.

A section under the registry's lock is one step (`join`, `open`, the end of `expired`). Outside
of it every load and store is a step of its own, in the order of the source, so that the other tasks run
between any two of them. Which 300 ms have passed is in the label.
-/

namespace Mux.AudioLease

inductive Reason where
  | revoked
  | abandoned
  | idle
deriving DecidableEq, Repr

/-- What `Route::expired` does next: the load it is at, or the section under the lock. -/
inductive Check where
  | connected
  | valid
  | unclaimed
  | claimed
  | users
  | elapsed
  | lock
deriving DecidableEq, Repr

/-- A route and what its task holds: `opened` is the event receiver, `serving` its own `Arc`. `check` is a call of
`expired` under way, `expired` the reason for which one returned true. -/
structure Route where
  name : String
  attachment : Nat
  users : Nat
  accepting : Bool
  ready : Bool
  permit : Option Nat
  opened : Bool
  serving : Bool
  check : Option Check
  expired : Option Reason
deriving DecidableEq, Repr

/-- A live `DeviceLease`, and the call of `acquire` that made it. -/
structure Lease where
  route : Nat
  task : Nat
deriving DecidableEq, Repr

structure Registry where
  enabled : Bool
  routes : List Route
  names : List (String × Nat)
  leases : List Lease
deriving DecidableEq, Repr

structure Permit where
  provider : Nat
  task : Nat
  name : String
  attachment : Nat
  valid : Bool
  claimed : Bool
deriving DecidableEq, Repr

structure Provider where
  connected : Bool
  gate : Option Nat
deriving DecidableEq, Repr

/-- Where a call of `acquire` stands. -/
inductive Pc where
  | begin
  | gate
  | locked
  | requesting (permit : Nat)
  | ready (permit : Nat)
  | joined (permit : Nat)
  | claimed (permit : Nat)
  | returned
  | failed (permit : Option Nat)
deriving DecidableEq, Repr

structure Task where
  name : String
  attachment : Nat
  provider : Nat
  pc : Pc
deriving DecidableEq, Repr

/-- `grants` are the permits with which `serve_auto` has entered `serve_route`. -/
structure State where
  registry : Registry
  providers : List Provider
  permits : List Permit
  tasks : List Task
  grants : List Nat
deriving DecidableEq, Repr

def init : State where
  registry := { enabled := false, routes := [], names := [], leases := [] }
  providers := []
  permits := []
  tasks := []
  grants := []

/-! ## The registry -/

def Registry.live (g : Registry) (k : Nat) : Nat := g.leases.countP fun l => l.route == k

/-- The strong count of a route is not zero. -/
def Registry.alive (g : Registry) (k : Nat) : Bool :=
  g.routes[k]?.any (·.serving) || decide (0 < g.live k)

def Registry.lookup (g : Registry) (name : String) : Option Nat := (g.names.find? fun n => n.1 == name).map (·.2)

/-- `routes.get(name).and_then(Weak::upgrade)` -/
def Registry.upgrade (g : Registry) (name : String) : Option Nat := (g.lookup name).filter fun k => g.alive k

def Registry.isOpen (g : Registry) (k : Nat) : Bool := g.routes[k]?.any (·.opened)

def Registry.setRoute (g : Registry) (k : Nat) (r : Route) : Registry := { g with routes := g.routes.set k r }

def Registry.setLeases (g : Registry) (leases : List Lease) : Registry := { g with leases := leases }

def Route.new (name : String) (attachment : Nat) (permit : Option Nat) : Route where
  name := name
  attachment := attachment
  users := 0
  accepting := true
  ready := permit.isNone
  permit := permit
  opened := true
  serving := true
  check := none
  expired := none

def Registry.insert (g : Registry) (r : Route) : Registry :=
  let g' : Registry :=
    { g with
      routes := g.routes ++ [r]
      names := g.names.filter (fun n => n.1 != r.name) ++ [(r.name, g.routes.length)] }
  { g' with names := g'.names.filter fun n => g'.alive n.2 }

def Registry.open (g : Registry) (name : String) (attachment : Nat) (permit : Option Nat) : Option Registry :=
  if !g.enabled then none
  else if (g.upgrade name).any g.isOpen then none
  else some (g.insert (.new name attachment permit))

def Registry.join (g : Registry) (name : String) (attachment : Nat) (activate : Bool) (task : Nat) :
    Option (Nat × Registry) :=
  match g.upgrade name with
  | none => none
  | some k =>
    match g.routes[k]? with
    | none => none
    | some r =>
      if decide (r.attachment ≠ attachment) || !r.accepting || !r.opened then none
      else if !activate && !r.ready then none
      else
        some (k, (g.setRoute k { r with ready := r.ready || activate, users := r.users + 1 }).setLeases
          (g.leases ++ [{ route := k, task := task }]))

/-- `DeviceLease::drop` -/
def Registry.drop (g : Registry) (i : Nat) : Option Registry :=
  match g.leases[i]? with
  | none => none
  | some l =>
    match g.routes[l.route]? with
    | none => none
    | some r =>
      some ((g.setRoute l.route { r with users := r.users - 1 }).setLeases (g.leases.eraseIdx i))

/-! ## Route::expired -/

/-- One load of `expired`, or its section under the lock. `ripe` says that the route was idle for 300 ms. -/
def Route.checkStep (r : Route) (c : Check) (connected valid claimed ripe : Bool) : Route :=
  match c with
  | .connected => if connected then { r with check := some .valid } else { r with check := none, expired := some .revoked }
  | .valid => if valid then { r with check := some .claimed } else { r with check := some .unclaimed }
  | .unclaimed =>
    if claimed then { r with check := some .claimed } else { r with check := none, expired := some .abandoned }
  | .claimed => if claimed then { r with check := some .users } else { r with check := none }
  | .users => if r.users ≠ 0 then { r with check := none } else { r with check := some .elapsed }
  | .elapsed => if ripe then { r with check := some .lock } else { r with check := none }
  | .lock =>
    if r.users ≠ 0 then { r with check := none } else { r with accepting := false, check := none, expired := some .idle }

/-! ## acquire -/

inductive Act where
  | first
  | lock
  | again
  | reply
  | activate
  | claim
  | finish
  | abort
deriving DecidableEq, Repr

def State.setTask (s : State) (t : Nat) (x : Task) : State := { s with tasks := s.tasks.set t x }

def State.setGate (s : State) (i : Nat) (holder : Option Nat) : State :=
  { s with providers := s.providers.modify i fun p => { p with gate := holder } }

def State.store (s : State) (p : Nat) (f : Permit → Permit) : State := { s with permits := s.permits.modify p f }

def Task.permit (t : Nat) (x : Task) : Permit where
  provider := x.provider
  task := t
  name := x.name
  attachment := x.attachment
  valid := true
  claimed := false

/-- One step of `acquire`. An error or a cancellation at an await drops the `Pending` guard, which stores `valid`. -/
def State.stepTask (s : State) (t : Nat) (x : Task) (a : Act) : Option State :=
  match a, x.pc with
  | .first, .begin =>
    match s.registry.join x.name x.attachment false t with
    | some (_, g) => some { s.setTask t { x with pc := .returned } with registry := g }
    | none => some (s.setTask t { x with pc := .gate })
  | .lock, .gate =>
    match s.providers[x.provider]? with
    | some { gate := none, .. } => some ((s.setGate x.provider (some t)).setTask t { x with pc := .locked })
    | _ => none
  | .again, .locked =>
    match s.registry.join x.name x.attachment false t with
    | some (_, g) => some { (s.setGate x.provider none).setTask t { x with pc := .returned } with registry := g }
    | none =>
      some { s.setTask t { x with pc := .requesting s.permits.length } with permits := s.permits ++ [x.permit t] }
  | .reply, .requesting p => some (s.setTask t { x with pc := .ready p })
  | .activate, .ready p =>
    match s.registry.join x.name x.attachment true t with
    | some (_, g) => some { s.setTask t { x with pc := .joined p } with registry := g }
    | none => none
  | .claim, .joined p =>
    some ((s.store p fun m => { m with claimed := true }).setTask t { x with pc := .claimed p })
  | .finish, .claimed p =>
    some (((s.store p fun m => { m with valid := false }).setGate x.provider none).setTask t { x with pc := .returned })
  | .abort, .begin => some (s.setTask t { x with pc := .failed none })
  | .abort, .gate => some (s.setTask t { x with pc := .failed none })
  | .abort, .locked => some ((s.setGate x.provider none).setTask t { x with pc := .failed none })
  | .abort, .requesting p =>
    some (((s.store p fun m => { m with valid := false }).setGate x.provider none).setTask t { x with pc := .failed (some p) })
  | .abort, .ready p =>
    some (((s.store p fun m => { m with valid := false }).setGate x.provider none).setTask t { x with pc := .failed (some p) })
  | _, _ => none

/-! ## Steps -/

/-- What the task of a route does. -/
inductive RouteAct where
  | begin
  | check (ripe : Bool)
  | close
  | release
deriving DecidableEq, Repr

inductive Label where
  | enable (on : Bool)
  | connect
  | disconnect (provider : Nat)
  | acquire (name : String) (attachment provider : Nat)
  | task (t : Nat) (a : Act)
  | grant (permit : Nat)
  | serve (grant : Nat)
  | share (name : String) (attachment : Nat)
  | route (k : Nat) (a : RouteAct)
  | dropLease (lease : Nat)
deriving DecidableEq, Repr

def State.connected (s : State) (i : Nat) : Bool := s.providers[i]?.any (·.connected)

/-- A route is closed between two checks, by the task that makes them. -/
def State.stepRoute (s : State) (r : Route) : RouteAct → Option Route
  | .begin =>
    if r.opened && r.permit.isSome && r.check.isNone && r.expired.isNone then some { r with check := some .connected }
    else none
  | .check ripe =>
    match r.check, r.permit.bind fun p => s.permits[p]? with
    | some c, some m => some (r.checkStep c (s.connected m.provider) m.valid m.claimed ripe)
    | _, _ => none
  | .close => if r.opened && r.check.isNone then some { r with opened := false } else none
  | .release => if !r.opened && r.serving then some { r with serving := false } else none

def step (s : State) : Label → Option State
  | .enable on => some { s with registry := { s.registry with enabled := on } }
  | .connect => some { s with providers := s.providers ++ [{ connected := true, gate := none }] }
  | .disconnect i => some { s with providers := s.providers.modify i fun p => { p with connected := false } }
  | .acquire name attachment provider =>
    some { s with tasks := s.tasks ++ [{ name := name, attachment := attachment, provider := provider, pc := .begin }] }
  | .task t a => s.tasks[t]?.bind fun x => s.stepTask t x a
  | .grant p =>
    s.permits[p]?.bind fun m =>
      if m.valid && s.connected m.provider then some { s with grants := s.grants ++ [p] } else none
  | .serve i =>
    s.grants[i]?.bind fun p => s.permits[p]?.bind fun m =>
      (s.registry.open m.name m.attachment (some p)).map fun g => { s with registry := g, grants := s.grants.eraseIdx i }
  | .share name attachment => (s.registry.open name attachment none).map fun g => { s with registry := g }
  | .route k a =>
    s.registry.routes[k]?.bind fun r =>
      (s.stepRoute r a).map fun r' => { s with registry := s.registry.setRoute k r' }
  | .dropLease i =>
    s.registry.leases[i]?.bind fun l =>
      if s.tasks[l.task]?.any fun x => x.pc == .returned then
        (s.registry.drop i).map fun g => { s with registry := g }
      else none

end Mux.AudioLease
