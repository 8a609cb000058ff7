import Mux.ClosedPanes

/-!
# Windows, sessions and panes

`Session`, `MuxWindowController` and the window part of `AppDelegate`, operation by
operation. A session is an object: its `ref` is its identity. Of AppKit the model has the
first responder of each window: `makeFirstResponder` on the view that already is first
responder does nothing, on another pane it notes the pane as focused, and a view taken out
of its window stops being first responder. What the environment decides is in the label of
a step: new ids, the neighbour that the geometry picks, the daemon's replies, the time.
-/

namespace Mux.Tiling

structure PaneView where
  id : PaneId
  pwd : Option String
  target : Option String
  fontDelta : Int
  requiresExisting : Bool
deriving Repr, DecidableEq

def PaneView.snapshot (p : PaneView) : PaneSnapshot :=
  ⟨p.pwd, p.target, if p.fontDelta = 0 then none else some p.fontDelta, if p.requiresExisting then some true else none⟩

def PaneView.restored (id : PaneId) (saved : Option PaneSnapshot) : PaneView :=
  ⟨id, saved.bind (·.cwd), saved.bind (·.target), (saved.bind (·.fontDelta)).getD 0,
    (saved.bind (·.requireExisting)).getD false⟩

inductive NewPaneTarget where
  | inherit
  | explicit (target : Option String)
deriving Repr, DecidableEq

/-- The target and the directory a new pane starts from. -/
def NewPaneTarget.seed (t : NewPaneTarget) (source : Option PaneView) : Option String × Option String :=
  let target := match t with
    | .inherit => source.bind (·.target)
    | .explicit target => target
  match source with
  | some s => if target = s.target ∧ daemonOf target = target then (target, s.pwd) else (target, none)
  | none => (target, none)

structure Session where
  ref : Nat
  tree : Option SplitNode
  panes : List PaneView
  focusedID : Option PaneId
  zoomedID : Option PaneId
  closingPanes : List PaneId
deriving Repr, DecidableEq

namespace Session

def new (ref : Nat) : Session := ⟨ref, none, [], none, none, []⟩

def keys (s : Session) : List PaneId := s.panes.map fun p => p.id

def contains (s : Session) (id : PaneId) : Bool := s.keys.contains id

def pane? (s : Session) (id : PaneId) : Option PaneView := s.panes.find? fun p => p.id == id

def focusedPane (s : Session) : Option PaneView := s.focusedID.bind s.pane?

def setPane (s : Session) (p : PaneView) : Session :=
  { s with panes := s.panes.filter (fun q => !(q.id == p.id)) ++ [p] }

def dropPane (s : Session) (id : PaneId) : Session :=
  { s with panes := s.panes.filter fun q => !(q.id == id) }

def setTree (s : Session) (tree : Option SplitNode) : Session := { s with tree := tree }

def setFocused (s : Session) (id : Option PaneId) : Session := { s with focusedID := id }

def setZoomed (s : Session) (id : Option PaneId) : Session := { s with zoomedID := id }

def unzoomIf (s : Session) (unzoom : Bool) : Session := if unzoom then s.setZoomed none else s

def setClosing (s : Session) (ids : List PaneId) : Session := { s with closingPanes := ids }

def snapshot (s : Session) : Option SessionSnapshot :=
  s.tree.map fun tree => ⟨tree, s.panes.map fun p => (p.id, p.snapshot), s.focusedID, s.zoomedID⟩

/-- The panes and the tree of `restore`. -/
def rebuild (s : Session) (saved : SessionSnapshot) : Session :=
  ((saved.tree.leaves.foldl (fun s id => s.setPane (PaneView.restored id (saved.panes.lookup id))) s).setTree
    (some saved.tree)).setZoomed saved.zoomed

def toggleZoom (s : Session) : Session :=
  match s.focusedID with
  | some id => s.setZoomed (if s.zoomedID = some id then none else some id)
  | none => s

def resizeFocused (s : Session) (direction : FocusDirection) : Session :=
  match s.tree, s.focusedID with
  | some tree, some id =>
    match tree.adjustingRatio id direction.axis (if direction.toFirst then -3 / 100 else 3 / 100) with
    | some adjusted => s.setTree (some adjusted)
    | none => s
  | _, _ => s

/-- The tree of `adopt`: a split at the focused pane, or the pane alone. -/
def adoptTree (s : Session) (id : PaneId) : SplitNode :=
  match s.tree with
  | none => .leaf id
  | some tree =>
    match s.focusedID.or tree.leaves.head? with
    | some at' => tree.inserting id at' .horizontal evenRatio false
    | none => .leaf id

end Session

structure Window where
  id : Nat
  sessions : List Session
  active : Nat
  closedPanes : History
  responder : Option PaneId
deriving Repr, DecidableEq

structure WindowSnapshot where
  id : Nat
  sessions : List SessionSnapshot
  activeSession : Int
  closedPanes : Option (List Entry)
deriving Repr, DecidableEq

namespace Window

def new (id ref : Nat) : Window := ⟨id, [Session.new ref], 0, [], none⟩

def activeSession (w : Window) : Option Session := w.sessions[w.active]?

/-- `session(owning:)`, by its index. -/
def owner (w : Window) (id : PaneId) : Option Nat := w.sessions.findIdx? fun s => s.contains id

def setSessions (w : Window) (sessions : List Session) : Window := { w with sessions := sessions }

def setActive (w : Window) (active : Nat) : Window := { w with active := active }

def setResponder (w : Window) (responder : Option PaneId) : Window := { w with responder := responder }

def setClosed (w : Window) (closed : History) : Window := { w with closedPanes := closed }

def edit (w : Window) (i : Nat) (f : Session → Session) : Window := w.setSessions (w.sessions.modify i f)

/-! ## Focus -/

def noteFocused (w : Window) (id : PaneId) : Window :=
  match w.owner id with
  | some i => w.edit i fun s => s.setFocused (some id)
  | none => w

def focus (w : Window) (id : PaneId) : Window :=
  if w.responder = some id then w else (w.noteFocused id).setResponder (some id)

def focusActive (w : Window) : Window :=
  match w.activeSession.bind Session.focusedPane with
  | some p => w.focus p.id
  | none => w

/-- A pane's view leaves the window. -/
def removeView (w : Window) (id : PaneId) : Window :=
  if w.responder = some id then w.setResponder none else w

/-! ## Sessions of a window -/

/-- The index left over once the session at `i` is gone. -/
def repaired (active i count : Nat) : Nat :=
  if i < active then active - 1 else if active ≥ count then count - 1 else active

def sessionDidEmpty (w : Window) (i fresh : Nat) : Window :=
  let rest := w.sessions.eraseIdx i
  if rest.isEmpty then (((w.setSessions [Session.new fresh]).setActive 0).setResponder none).focusActive
  else ((w.setSessions rest).setActive (repaired w.active i rest.length)).focusActive

def dropEmpty (w : Window) : Window := w.setSessions (w.sessions.filter fun s => s.tree.isSome)

/-- A new session, last and active. -/
def pushActive (w : Window) (ref : Nat) : Window :=
  let w := w.dropEmpty
  (w.setSessions (w.sessions ++ [Session.new ref])).setActive w.sessions.length

def addInitialPane (w : Window) (i : Nat) (p : PaneView) : Window :=
  (w.edit i fun s => ((s.setPane p).setTree (some (.leaf p.id))).setZoomed none).focus p.id

/-- `restore`: the saved focus, or the first leaf. -/
def restore (w : Window) (i : Nat) (saved : SessionSnapshot) : Window :=
  let w := w.edit i fun s => s.rebuild saved
  let pick := (w.sessions[i]?).bind fun s =>
    ((saved.focused.bind s.pane?).or (saved.tree.leaves.head?.bind s.pane?))
  match pick with
  | some p => w.focus p.id
  | none => w

def reopenClosedTab (w : Window) (now ref : Nat) : Window :=
  match w.closedPanes.popLast now with
  | (rest, some entry) =>
    let w := (w.setClosed rest).pushActive ref
    w.restore w.active entry.snapshot
  | (rest, none) => w.setClosed rest

def newSession (w : Window) (ref : Nat) (id : PaneId) (target : NewPaneTarget) : Window :=
  let seed := target.seed (w.activeSession.bind Session.focusedPane)
  let w := w.pushActive ref
  w.addInitialPane w.active ⟨id, seed.2, seed.1, 0, false⟩

/-- The tree of `addRecoverySession`: each pane is split off the one before it. -/
def recoveryTree (first : PaneId) (ids : List PaneId) : SplitNode :=
  (ids.foldl (fun (t : SplitNode × PaneId) id => (t.1.inserting id t.2 .horizontal evenRatio false, id)) (.leaf first, first)).1

def addRecoverySession (w : Window) (ref : Nat) (panes : List (PaneId × PaneSnapshot)) : Window :=
  match panes.map fun p => p.1 with
  | [] => w
  | first :: rest =>
    let w := w.dropEmpty
    let i := w.sessions.length
    ((w.setSessions (w.sessions ++ [Session.new ref])).restore i
      ⟨recoveryTree first rest, panes, some first, none⟩).focusActive

/-! ## Operations of a session -/

def split (w : Window) (i : Nat) (source : Option PaneId) (id : PaneId) (direction : SplitDirection)
    (before atRoot : Bool) (target : NewPaneTarget) : Window :=
  match w.sessions[i]? with
  | none => w
  | some s =>
    match (match source with | some p => s.pane? p | none => s.focusedPane), s.tree with
    | some from', some tree =>
      let seed := target.seed (some from')
      let tree := if atRoot then tree.insertingAtRoot id direction evenRatio before
        else tree.inserting id from'.id direction evenRatio before
      (w.edit i fun s => ((s.setPane ⟨id, seed.2, seed.1, from'.fontDelta, false⟩).setTree (some tree)).setZoomed
        none).focus id
    | _, _ => w

def removePane (w : Window) (i : Nat) (id : PaneId) (fresh : Nat) : Window :=
  match w.sessions[i]? with
  | none => w
  | some s =>
    if s.contains id then
      let tree := s.tree.bind fun t => t.removing id
      let w := (w.edit i fun s => (s.dropPane id).setTree tree).removeView id
      match tree with
      | none => w.sessionDidEmpty i fresh
      | some t =>
        let w := w.edit i fun s => s.unzoomIf (s.zoomedID == some id)
        if s.focusedID = some id then
          match t.leaves.head?.bind (s.dropPane id).pane? with
          | some p => w.focus p.id
          | none => w
        else w
    else w

def detach (w : Window) (i : Nat) (id : PaneId) (fresh : Nat) : Window :=
  match w.sessions[i]? with
  | none => w
  | some s =>
    if s.contains id then
      let tree := s.tree.bind fun t => t.removing id
      let w := w.edit i fun s => ((s.dropPane id).setTree tree).setFocused
        (if s.focusedID = some id then (leavesOf tree).head? else s.focusedID)
      match tree with
      | none => w.sessionDidEmpty i fresh
      | some _ => w.edit i fun s => s.unzoomIf (s.zoomedID == some id)
    else w

def adopt (w : Window) (i : Nat) (p : PaneView) : Window :=
  (w.edit i fun s => ((s.setPane p).setTree (some (s.adoptTree p.id))).setZoomed none).focus p.id

def movePaneToNewSession (w : Window) (fresh : Nat) : Window :=
  match w.activeSession with
  | none => w
  | some source =>
    match source.focusedPane with
    | none => w
    | some pane =>
      if source.panes.length > 1 then
        let w := w.detach w.active pane.id fresh
        let w := (w.setSessions (w.sessions ++ [Session.new (fresh + 1)])).setActive w.sessions.length
        w.adopt w.active pane
      else w

def movePane (w : Window) (index fresh : Nat) : Window :=
  if index = w.active then w
  else
    match w.sessions[index]?, w.activeSession with
    | some target, some source =>
      match source.focusedPane with
      | none => w
      | some pane =>
        let w := w.detach w.active pane.id fresh
        match w.sessions.findIdx? fun s => s.ref == target.ref with
        | none => w
        | some targetIndex => (w.setActive targetIndex).adopt targetIndex pane
    | _, _ => w

def selectSession (w : Window) (index : Nat) : Window :=
  if index < w.sessions.length ∧ index ≠ w.active then (w.setActive index).focusActive else w

def reveal (w : Window) (i : Nat) (id : PaneId) : Window :=
  match w.sessions[i]? with
  | none => w
  | some s =>
    if s.contains id then
      (w.edit i fun s => s.unzoomIf (s.zoomedID.isSome && s.zoomedID != some id)).focus id
    else w

/-- `commitCanvas`: the session of the chosen pane, then the pane. -/
def commitCanvas (w : Window) (i : Nat) (id : PaneId) : Window :=
  match w.sessions[i]? with
  | none => w
  | some s => if s.contains id then (w.selectSession i).reveal i id else w

def focusDirection (w : Window) (target : Option PaneId) : Window :=
  match w.activeSession with
  | none => w
  | some s =>
    match target.bind s.pane? with
    | some p => (w.edit w.active fun s => s.setZoomed none).focus p.id
    | none => w

def moveFocused (w : Window) (direction : FocusDirection) (neighbor : Option PaneId) : Window :=
  match w.activeSession with
  | none => w
  | some s =>
    match s.tree, s.focusedID with
    | some tree, some id =>
      let moved := tree.moving id direction neighbor
      w.edit w.active fun s => (s.setTree (some (moved.getD tree))).setZoomed none
    | _, _ => w

def toggleZoom (w : Window) : Window := w.edit w.active Session.toggleZoom

def resizeFocused (w : Window) (direction : FocusDirection) : Window :=
  w.edit w.active fun s => s.resizeFocused direction

def killFocusedPane (w : Window) (fresh : Nat) : Window :=
  match w.activeSession.bind Session.focusedPane with
  | some p => w.removePane w.active p.id fresh
  | none => w

/-- The controller's `removePane`: the owning session, else the active one, which then has no such
pane. -/
def paneExited (w : Window) (id : PaneId) (fresh : Nat) : Window :=
  w.removePane ((w.owner id).getD w.active) id fresh

/-! ## Snapshots -/

def snapshot (w : Window) : WindowSnapshot :=
  let saved := w.sessions.filterMap Session.snapshot
  let selected := ((w.sessions.take w.active).filterMap Session.snapshot).length
  ⟨w.id, saved, (min selected (saved.length - 1) : Nat), some w.closedPanes⟩

def restoreEach (w : Window) : Nat → List SessionSnapshot → Window
  | _, [] => w
  | i, saved :: rest => (w.restore i saved).restoreEach (i + 1) rest

/-- One new session for each saved one. -/
def newSessions : Nat → List SessionSnapshot → List Session
  | _, [] => []
  | ref, _ :: rest => Session.new ref :: newSessions (ref + 1) rest

def restoreSessions (w : Window) (fresh : Nat) (saved : List SessionSnapshot) (active : Int) : Window :=
  if saved.isEmpty then w
  else
    let w := (w.setSessions (newSessions fresh saved)).setActive (min active.toNat (saved.length - 1))
    (w.restoreEach 0 saved).focusActive

end Window

end Mux.Tiling
