import Mux.Lib.Run
import Mux.SnapshotCodec

/-!
# The files of the state

`SnapshotStore` and `CrashMarker`, one file operation at a time: a crash may come between
any two, and an operation that fails is passed over. A rename and a write are atomic. A save
is complete once its file is in place; the completed save and the results of loads are kept
for the statements.
-/

namespace Mux.Tiling

/-- A call of `save`: the snapshot and the order its dictionaries are iterated in. -/
structure Save where
  snapshot : AppSnapshot
  it : Iteration (PaneId × PaneSnapshot)
  wf : snapshot.Wf

/-- What is to be done next. -/
inductive Phase where
  | down
  | removingPreCrash
  | copying
  | arming
  | loading
  | removingCorrupt
  | quarantining
  | loadingBackup
  | idle
  | removingBackup (v : Save)
  | rotating (v : Save)
  | writing (v : Save)

/-- A finished load, with the save that was the last completed one. -/
structure Load where
  completed : Option Save
  result : Option AppSnapshot

/-- `state.json`, its `.bak`, `.corrupt` and `.pre-crash`, the marker, and the app. -/
structure Store (D : Type) where
  main : Option D
  backup : Option D
  corrupt : Option D
  preCrash : Option D
  running : Bool
  phase : Phase
  completed : Option Save
  loads : List Load

inductive StoreLabel where
  | launch
  | proceed (ok : Bool) (draw : Nat → Nat)
  | save (v : Save)
  | terminate (ok : Bool)
  | crash

section
variable {D : Type}

def removeItem (ok : Bool) (file : Option D) : Option D := if ok then none else file

/-- The two names after a rename, which fails on a name that is taken. -/
def moveItem (ok : Bool) (source target : Option D) : Option D × Option D :=
  if ok && source.isSome && target.isNone then (none, source) else (source, target)

def copyItem (ok : Bool) (source target : Option D) : Option D :=
  if ok && source.isSome && target.isNone then source else target

variable (txt : JsonText D)

def Save.data (v : Save) : D := txt.encode v.it v.snapshot

namespace Store

def finish (s : Store D) (result : Option AppSnapshot) : Store D :=
  { s with phase := .idle, loads := s.loads ++ [⟨s.completed, result⟩] }

/-- The next file operation, or the next read. -/
def proceed (s : Store D) (ok : Bool) (draw : Nat → Nat) : Option (Store D) :=
  match s.phase with
  | .removingPreCrash => some { s with preCrash := removeItem ok s.preCrash, phase := .copying }
  | .copying => some { s with preCrash := copyItem ok s.main s.preCrash, phase := .arming }
  | .arming => some { s with running := s.running || ok, phase := .loading }
  | .loading =>
    match s.main with
    | none => some { s with phase := .loadingBackup }
    | some d =>
      match txt.decode draw d with
      | some snapshot => some (s.finish (some snapshot))
      | none => some { s with phase := .removingCorrupt }
  | .removingCorrupt => some { s with corrupt := removeItem ok s.corrupt, phase := .quarantining }
  | .quarantining =>
    let moved := moveItem ok s.main s.corrupt
    some { s with main := moved.1, corrupt := moved.2, phase := .loadingBackup }
  | .loadingBackup => some (s.finish (s.backup.bind (txt.decode draw)))
  | .removingBackup v => some { s with backup := removeItem ok s.backup, phase := .rotating v }
  | .rotating v =>
    let moved := moveItem ok s.main s.backup
    some { s with main := moved.1, backup := moved.2, phase := .writing v }
  | .writing v =>
    if ok then some { s with main := some (v.data txt), completed := some v, phase := .idle }
    else some { s with phase := .idle }
  | .down | .idle => none

variable [DecidableEq D]

def save (s : Store D) (v : Save) : Store D :=
  if s.main = some (v.data txt) then { s with completed := some v }
  else { s with phase := if s.main.isSome then .removingBackup v else .writing v }

def step (s : Store D) : StoreLabel → Option (Store D)
  | .launch =>
    match s.phase with
    | .down => some { s with phase := if s.running then .removingPreCrash else .arming }
    | _ => none
  | .proceed ok draw => s.proceed txt ok draw
  | .save v =>
    match s.phase with
    | .idle => some (s.save txt v)
    | _ => none
  | .terminate ok =>
    match s.phase with
    | .idle => some { s with running := s.running && !ok, phase := .down }
    | _ => none
  | .crash =>
    match s.phase with
    | .down => none
    | _ => some { s with phase := .down }

end Store

/-- Any files, before the app runs. -/
def Store.start (main backup corrupt preCrash : Option D) (running : Bool) : Store D :=
  ⟨main, backup, corrupt, preCrash, running, .down, none, []⟩

end

end Mux.Tiling
