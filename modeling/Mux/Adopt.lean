import Mathlib.Data.List.Dedup
import Mathlib.Data.List.Sort
import Mux.LaunchCommand
import Mux.Retention

/-!
# Orphan adoption

After a launch the app asks every daemon for its ptys and puts those that no window knows into
a session of the first window. Each daemon answers once, in any order and with windows opened,
moved and closed between: ownership is read when the answer is there. A terminal is known by a
UUID and the daemon of its pane's target; a daemon knows it by a name.
-/

namespace Mux.Tiling

open Lib Muxd

structure PtyListing where
  name : String
  command : List String
  attached : Bool
  exited : Bool
  cwd : Option String
deriving Repr, DecidableEq

structure TerminalIdentity where
  id : PaneId
  host : Option String
deriving Repr, DecidableEq

/-! ## What is known -/

section
variable (joins : Char → Char → Bool)

def PaneSnapshot.daemon (p : PaneSnapshot) : Option String :=
  if (vm joins (p.target.map String.toList)).isNone then p.target else none

def SessionSnapshot.terminals (s : SessionSnapshot) : List TerminalIdentity :=
  s.tree.leaves.map fun id => ⟨id, (s.panes.lookup id).bind fun p => p.daemon joins⟩

def WindowSnapshot.terminals (w : WindowSnapshot) : List TerminalIdentity :=
  w.sessions.flatMap (fun s => s.terminals joins) ++ (w.closedPanes.getD []).map fun e => ⟨e.id, e.pane.daemon joins⟩

/-- Of everything that is saved: the windows, and the layouts and closed panes parked by closed ones. -/
def App.knownTerminals (a : App) : List TerminalIdentity := a.saved.flatMap fun w => w.terminals joins

def App.hosts (a : App) : List (Option String) := (a.knownTerminals joins).map fun t => t.host

end

/-! ## Listings -/

/-- Under the name the app itself gives a terminal. -/
def PtyListing.exact (l : PtyListing) : Option Listing :=
  (uuidOf l.name).bind fun id => if uuidString id = l.name then some ⟨id, l.attached, l.cwd⟩ else none

/-- `applyListings`: closed panes are looked up by the name, open ones by the UUID. -/
def Window.applyPtys (w : Window) (items : List PtyListing) (host : Option String) (now : Nat) : Window :=
  items.foldl (fun w l => match uuidOf l.name with
      | some id => w.describe id host l.cwd
      | none => w)
    (w.setClosed (retire (items.filterMap PtyListing.exact) host w.closedPanes (w.closedPanes.expired host now)).1)

def App.applyPtys (a : App) (items : List PtyListing) (host : Option String) (now : Nat) : App :=
  a.setWindows (a.windows.map fun w => w.applyPtys items host now)

/-- The daemon that answers `muxd ls --json` with this alias after it: `local` is this machine's, a
second `--json` is no alias, and the broker dials none that `check_alias` refuses. -/
def listedBy : Option String → Option (Option String)
  | none => some none
  | some name =>
    if name = "--json" then some none
    else if name.startsWith "-" then none
    else if name = "local" then some none
    else if KnownHosts.checkAlias name.toList then some (some name)
    else none

section
variable (joins : Char → Char → Bool)

def recoveredTarget (host : Option String) (command : List String) : Option String :=
  match host with
  | some h => some h
  | none =>
    match command with
    | [program, "shell", name] =>
      if hasSuffix joins "/ix".toList program.toList || program == "ix" then some ("ix:" ++ name) else none
    | _ => none

/-- Named by a pane UUID, not exited, not attached and not known. -/
def PtyListing.orphan (known : List TerminalIdentity) (host : Option String) (l : PtyListing) : Option PaneId :=
  (uuidOf l.name).filter fun id => !l.exited && !l.attached && !known.contains ⟨id, host⟩

/-- A dictionary: a later listing takes the place of an earlier one. -/
def orphans (known : List TerminalIdentity) (host : Option String) (items : List PtyListing) :
    List (PaneId × PaneSnapshot) :=
  items.foldl (fun d l => match l.orphan known host with
    | some id => d.filter (fun q => !(q.1 == id)) ++ [(id, ⟨l.cwd, recoveredTarget joins host l.command, none, none⟩)]
    | none => d) []

def sortedByUuid (panes : List (PaneId × PaneSnapshot)) : List (PaneId × PaneSnapshot) :=
  panes.insertionSort fun a b => ¬ uuidString b.1 < uuidString a.1

def App.addRecovery (a : App) (panes : List (PaneId × PaneSnapshot)) : App :=
  ((a.onWindow 0 fun w => w.addRecoverySession a.nextRef (sortedByUuid panes)).bump 1).sweep

end

/-! ## Steps -/

/-- `asked` are the daemons whose answer is outstanding. `adopted` is kept for the statements: the
daemon that listed it and the id, for each pane added. -/
structure Recovery where
  app : App
  asked : List (Option String)
  adopted : List (Option String × PaneId)
deriving DecidableEq

/-- An operation of the app, or the answer for a host. -/
inductive Arrival where
  | op (op : Op)
  | answer (host : Option String) (now : Nat) (listings : Option (List PtyListing))
deriving DecidableEq

/-- A launch and a recovery are none of the operations between answers. -/
def Op.between : Op → Bool
  | .launch _ | .addRecoverySession _ => false
  | _ => true

namespace Recovery

variable (joins : Char → Char → Bool)

/-- `adoptOrphanedPanes`: one request for each daemon. -/
def start (a : App) (aliases : List String) : Recovery := ⟨a, (a.hosts joins ++ [none] ++ aliases.map some).dedup, []⟩

/-- The completion of a listing that `daemon` answered. -/
def adopt (s : Recovery) (host daemon : Option String) (now : Nat) (items : List PtyListing) : Recovery :=
  let app := s.app.applyPtys items host now
  let panes := orphans joins (app.knownTerminals joins) host items
  if panes.isEmpty || app.windows.isEmpty then { s with app := app }
  else { s with app := app.addRecovery panes, adopted := s.adopted ++ panes.map fun p => (daemon, p.1) }

def answer (s : Recovery) (host : Option String) (now : Nat) (listings : Option (List PtyListing)) :
    Option Recovery :=
  if host ∈ s.asked then
    let s := { s with asked := s.asked.erase host }
    match listings with
    | none | some [] => some s
    | some items =>
      (listedBy host).map fun daemon => if s.app.terminating then s else s.adopt joins host daemon now items
  else none

def step (s : Recovery) : Arrival → Option Recovery
  | .op op => if op.between then (s.app.step op).map fun app => { s with app := app } else none
  | .answer host now listings => s.answer joins host now listings

end Recovery

end Mux.Tiling
