import Mux.Window
import Mux.Lib.Run

/-!
# The app and its windows

All windows, the layouts parked by closed ones, and the close requests whose reply is
outstanding. A request holds its session and its pane weakly: at the end of an operation,
what no session and no window holds any more is gone. A label is admitted in a state only
as the code and AppKit admit it: a new id is unused, a click lands on a pane that is shown,
a split starts from a shown pane or from the one that receives the keys, and a restored tree
has distinct leaves. Recovered panes are any dictionary: the guard of a recovery tells
terminals apart by UUID and daemon, while a window finds the session of a pane by its UUID.
-/

namespace Mux.Tiling

/-- `closePane`'s completion: the terminal it is about, and the objects it still reaches. -/
structure Request where
  pane : PaneId
  session : Option Nat
  alive : Bool
deriving Repr, DecidableEq

structure App where
  windows : List Window
  closedWindows : List WindowSnapshot
  requests : List Request
  nextRef : Nat
  terminating : Bool
deriving Repr, DecidableEq

/-- An operation of one window. -/
inductive Act where
  | newSession (id : PaneId) (target : NewPaneTarget)
  | split (source : Option PaneId) (id : PaneId) (direction : SplitDirection) (before atRoot : Bool)
      (target : NewPaneTarget)
  | moveFocused (direction : FocusDirection) (neighbor : Option PaneId)
  | toggleZoom
  | resizeFocused (direction : FocusDirection)
  | focusDirection (target : Option PaneId)
  | click (id : PaneId)
  | commitCanvas (session : Nat) (id : PaneId)
  | selectSession (index : Nat)
  | movePaneToNewSession
  | movePane (index : Nat)
  | killFocusedPane
  | paneExited (id : PaneId)
  | reopenClosedTab (now : Nat)
  | becomeKey
deriving Repr, DecidableEq

inductive Op where
  | window (k : Nat) (act : Act)
  | newWindow (source : Nat) (id : PaneId)
  | moveSessionToNewWindow (k : Nat)
  | closeWindow (k : Nat)
  | closePane (k : Nat) (id : PaneId)
  | reply (n : Nat) (expiresAt : Option Nat)
  | addRecoverySession (panes : List (PaneId × PaneSnapshot))
  | exitEvent (id : PaneId) (host : Option String)
  | launch (windows : List WindowSnapshot)
deriving Repr, DecidableEq

namespace Window

/-- `fresh` and the numbers after it are refs no session has. -/
def act (w : Window) (fresh : Nat) : Act → Window
  | .newSession id target => w.newSession fresh id target
  | .split source id direction before atRoot target =>
    match source with
    | some p =>
      match w.owner p with
      | some i => w.split i source id direction before atRoot target
      | none => w
    | none => w.split w.active none id direction before atRoot target
  | .moveFocused direction neighbor => w.moveFocused direction neighbor
  | .toggleZoom => w.toggleZoom
  | .resizeFocused direction => w.resizeFocused direction
  | .focusDirection target => w.focusDirection target
  | .click id => w.focus id
  | .commitCanvas i id => w.commitCanvas i id
  | .selectSession i => w.selectSession i
  | .movePaneToNewSession => w.movePaneToNewSession fresh
  | .movePane i => w.movePane i fresh
  | .killFocusedPane => w.killFocusedPane fresh
  | .paneExited id => w.paneExited id fresh
  | .reopenClosedTab now => w.reopenClosedTab now fresh
  | .becomeKey => w.focusActive

def keys (w : Window) : List PaneId := w.sessions.flatMap Session.keys

def refs (w : Window) : List Nat := w.sessions.map fun s => s.ref

/-- The pane is in the session that is shown. -/
def shows (w : Window) (id : PaneId) : Bool := w.activeSession.any fun s => s.contains id

/-- The other leaves of the active session, one of which geometry may name. -/
def isNeighbor (w : Window) (id : PaneId) : Bool :=
  w.activeSession.any fun s => (leavesOf s.tree).contains id && !(s.focusedID == some id)

end Window

namespace WindowSnapshot

def leaves (w : WindowSnapshot) : List PaneId := w.sessions.flatMap fun s => s.tree.leaves

def closedIds (w : WindowSnapshot) : List PaneId := History.ids (w.closedPanes.getD [])

def ids (w : WindowSnapshot) : List PaneId := w.leaves ++ w.closedIds

/-- What the restored window has: its history keeps one entry for a terminal of a daemon. -/
def restored (w : WindowSnapshot) : List PaneId :=
  w.leaves ++ (History.ofEntries (w.closedPanes.getD [])).ids

end WindowSnapshot

namespace App

def setWindows (a : App) (windows : List Window) : App := { a with windows := windows }

def setRequests (a : App) (requests : List Request) : App := { a with requests := requests }

def setParked (a : App) (closed : List WindowSnapshot) : App := { a with closedWindows := closed }

def bump (a : App) (n : Nat) : App := { a with nextRef := a.nextRef + n }

def keys (a : App) : List PaneId := a.windows.flatMap Window.keys

def refs (a : App) : List Nat := a.windows.flatMap Window.refs

def closedIds (a : App) : List PaneId := a.windows.flatMap fun w => w.closedPanes.ids

def parkedIds (a : App) : List PaneId := a.closedWindows.flatMap WindowSnapshot.ids

def used (a : App) (id : PaneId) : Bool :=
  a.keys.contains id || a.closedIds.contains id || a.parkedIds.contains id

/-- ARC at the end of an operation: weak references to what is gone read nil. -/
def sweep (a : App) : App :=
  a.setRequests (a.requests.map fun q =>
    ⟨q.pane, q.session.filter fun r => a.refs.contains r, q.alive && a.keys.contains q.pane⟩)

def onWindow (a : App) (k : Nat) (f : Window → Window) : App := a.setWindows (a.windows.modify k f)

/-- The window and the index of a session. -/
def find (a : App) (ref : Nat) : Option (Nat × Nat) :=
  (a.windows.findIdx? fun w => w.refs.contains ref).bind fun k =>
    ((a.windows[k]?).bind fun w => w.sessions.findIdx? fun s => s.ref == ref).map fun i => (k, i)

/-- `closePane`: one request at a time from one session. -/
def closePane (a : App) (k : Nat) (id : PaneId) : App :=
  match a.windows[k]? with
  | none => a
  | some w =>
    match w.owner id with
    | none => a
    | some i =>
      match w.sessions[i]? with
      | none => a
      | some s =>
        if s.closingPanes.contains id then a
        else
          (a.onWindow k fun w => w.edit i fun s => s.setClosing (s.closingPanes ++ [id])).setRequests
            (a.requests ++ [⟨id, some s.ref, true⟩])

/-- What a reply with a deadline does in the window `w` of the session that asked. -/
def closed (w : Window) (id : PaneId) (expiresAt fresh : Nat) : Window :=
  match w.owner id with
  | none => w
  | some i =>
    match (w.sessions[i]?).bind fun s => s.pane? id with
    | none => w
    | some p =>
      (w.setClosed (w.closedPanes.record id ⟨p.pwd, p.target, some p.fontDelta, none⟩ expiresAt)).removePane i id fresh

/-- The completion of request `n`. -/
def reply (a : App) (n : Nat) (expiresAt : Option Nat) : App :=
  match a.requests[n]? with
  | none => a
  | some q =>
    let a := a.setRequests (a.requests.eraseIdx n)
    match q.session.bind a.find with
    | none => a
    | some (k, i) =>
      if q.alive then
        let a := a.onWindow k fun w => w.edit i fun s => s.setClosing (s.closingPanes.filter fun x => !(x == q.pane))
        match expiresAt with
        | none => a
        | some d => a.onWindow k fun w => closed w q.pane d a.nextRef
      else a

def newWindow (a : App) (source : Nat) (id : PaneId) : App :=
  let seed := NewPaneTarget.inherit.seed
    (((a.windows[source]?).bind Window.activeSession).bind Session.focusedPane)
  a.setWindows (a.windows ++ [(Window.new a.nextRef a.nextRef).addInitialPane 0 ⟨id, seed.2, seed.1, 0, false⟩])

/-- The rest of the window a session was moved out of. -/
def without (w : Window) : Window :=
  let w := (w.setResponder none).setSessions (w.sessions.eraseIdx w.active)
  (w.setActive (min w.active (w.sessions.length - 1))).focusActive

def moveSessionToNewWindow (a : App) (k : Nat) : App :=
  match a.windows[k]? with
  | none => a
  | some w =>
    match w.activeSession with
    | none => a
    | some s =>
      if w.sessions.length > 1 ∧ s.tree.isSome then
        (a.onWindow k without).setWindows
          ((a.onWindow k without).windows ++ [(Window.mk a.nextRef [s] 0 [] none).focusActive])
      else a

/-- `windowControllerWillClose`: the layout is parked; the last window ends the app. -/
def closeWindow (a : App) (k : Nat) : App :=
  match a.windows[k]? with
  | none => a
  | some w =>
    let a := (a.setParked (a.closedWindows ++ [w.snapshot])).setWindows (a.windows.eraseIdx k)
    { a with terminating := a.windows.isEmpty }

def exitEvent (a : App) (id : PaneId) (host : Option String) : App :=
  (a.setWindows (a.windows.map fun w => w.setClosed (w.closedPanes.remove id host))).setParked
    (a.closedWindows.map fun w => { w with closedPanes := w.closedPanes.map fun h => History.remove h id host })

def launchWindow (ref : Nat) (saved : WindowSnapshot) : Window :=
  (((Window.new saved.id ref).setClosed (History.ofEntries (saved.closedPanes.getD []))).restoreSessions (ref + 1)
    saved.sessions saved.activeSession)

/-- Windows are built one after the other, each with refs of its own. -/
def launchWindows : Nat → List WindowSnapshot → List Window × Nat
  | ref, [] => ([], ref)
  | ref, saved :: rest =>
    let more := launchWindows (ref + 1 + saved.sessions.length) rest
    (launchWindow ref saved :: more.1, more.2)

def launch (a : App) (saved : List WindowSnapshot) : App :=
  let made := launchWindows a.nextRef saved
  ⟨made.1, [], [], made.2, false⟩

/-! ## Steps -/

def legalAct (a : App) (w : Window) : Act → Bool
  | .newSession id _ => !a.used id
  | .split source id _ _ _ _ => !a.used id && source.all fun p => w.shows p || w.responder == some p
  | .moveFocused _ neighbor => neighbor.all w.isNeighbor
  | .focusDirection target => target.all w.isNeighbor
  | .click id => w.shows id
  | _ => true

def legal (a : App) : Op → Bool
  | .launch saved => !saved.isEmpty && saved.all fun w => w.sessions.all fun s => decide s.tree.leaves.Nodup
  | .window k act => !a.terminating && (a.windows[k]?).any fun w => a.legalAct w act
  | .newWindow _ id => !a.terminating && !a.used id
  | .addRecoverySession panes => !a.terminating && decide (panes.map fun p => p.1).Nodup
  | _ => !a.terminating

/-- What is brought in from outside is not there under another daemon: a recovery has no UUID that
is in use, and a restored file has none twice. -/
def bringsNew (a : App) : Op → Bool
  | .launch saved => decide (saved.flatMap WindowSnapshot.restored).Nodup
  | .addRecoverySession panes => panes.all fun p => !a.used p.1
  | _ => true

def apply (a : App) : Op → App
  | .window k act => (a.onWindow k fun w => w.act a.nextRef act).bump 2
  | .newWindow source id => (a.newWindow source id).bump 1
  | .moveSessionToNewWindow k => (a.moveSessionToNewWindow k).bump 1
  | .closeWindow k => a.closeWindow k
  | .closePane k id => a.closePane k id
  | .reply n expiresAt => (a.reply n expiresAt).bump 1
  | .addRecoverySession panes => (a.onWindow 0 fun w => w.addRecoverySession a.nextRef panes).bump 1
  | .exitEvent id host => a.exitEvent id host
  | .launch saved => a.launch saved

def step (a : App) (op : Op) : Option App :=
  if a.legal op then some (a.apply op).sweep else none

/-- Before the first window. -/
def init : App := ⟨[], [], [], 0, false⟩

end App

end Mux.Tiling
