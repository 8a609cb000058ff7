import Mux.Lib.Run

/-!
# The modes of the keyboard

One mode for the whole app: it decides what a key means, and the window it was entered in shows its bar and its
overlay. Other windows show nothing of it. The canvas leaves with a fade, and is taken down when that has landed.
-/

namespace Mux.PrefixEngine

inductive Mode where
  | normal
  | prefixMode
  | resize
  | help
  | canvas
  | hosts
  | hostsTemplate
deriving DecidableEq, Repr

inductive Direction where
  | left
  | down
  | up
  | right
deriving DecidableEq, Repr

/-- What a key asks the window, its session or the app to do. -/
inductive Action where
  | newSession
  | newWindow
  | moveSession
  | closeWindow
  | reopenClosedTab
  | closeFocusedPane
  | killFocusedPane
  | selectSession (index : Nat)
  | nextSession
  | prevSession
  | split (horizontal before atRoot : Bool)
  | focusDirection (d : Direction)
  | toggleZoom
  | resizeFocused (d : Direction)
  | moveFocused (d : Direction)
  | movePaneToNewSession
  | movePane (toSession : Nat)
  | adjustFontSize (step : Int)
  | adjustAllFontSizes (step : Int)
  | moveCanvas (delta : Int)
  | commitCanvas
  | commitHosts (horizontal before atRoot : Bool)
  | newSessionOnHostsSelection
  | createIXVM
  | moveHosts (delta : Int)
  | copyDigest
  | commitTemplate
  | beep
deriving DecidableEq, Repr

/-- `characters` ignores the modifiers but shift, `unmodified` all of them. -/
structure KeyEvent where
  characters : String
  unmodified : String
  command : Bool
  control : Bool
  option : Bool
  shift : Bool
deriving DecidableEq, Repr

/-! ## Windows -/

/-- `canvas` is whether the overlay is up, `teardowns` how many are scheduled. -/
structure Window where
  isOpen : Bool
  modeBar : Option Mode
  helpOverlay : Bool
  hostsWindow : Bool
  pickingTemplate : Bool
  paneTags : Bool
  resizeOutline : Bool
  canvas : Bool
  canvasOpen : Bool
  canvasClosing : Bool
  teardowns : Nat
deriving DecidableEq, Repr

namespace Window

def new : Window where
  isOpen := true
  modeBar := none
  helpOverlay := false
  hostsWindow := false
  pickingTemplate := false
  paneTags := false
  resizeOutline := false
  canvas := false
  canvasOpen := false
  canvasClosing := false
  teardowns := 0

def hideCanvasOverlay (w : Window) : Window :=
  if w.canvas && !w.canvasClosing then
    { w with canvasClosing := true, canvasOpen := false, teardowns := w.teardowns + 1 }
  else w

def dismissAllChrome (w : Window) : Window :=
  { w.hideCanvasOverlay with
    modeBar := none
    helpOverlay := false
    hostsWindow := false
    paneTags := false
    resizeOutline := false }

def showCanvasOverlay (w : Window) : Window := { w with canvas := true, canvasClosing := false, canvasOpen := true }

/-- The fade has landed. -/
def teardown (w : Window) : Window :=
  let w := { w with teardowns := w.teardowns - 1 }
  if !w.canvasOpen && w.canvasClosing then { w with canvasClosing := false, canvas := false } else w

/-- What a mode puts up; an outline needs a pane to go around. -/
def put (w : Window) (focusedPane : Bool) (newMode : Mode) : Window :=
  let w := { w with modeBar := some newMode }
  match newMode with
  | .normal => w
  | .prefixMode => { w with paneTags := true }
  | .resize => { w with resizeOutline := focusedPane }
  | .help => { w with helpOverlay := true }
  | .canvas => w.showCanvasOverlay
  | .hosts => { w with hostsWindow := true, pickingTemplate := false }
  | .hostsTemplate => { w with hostsWindow := true, pickingTemplate := true }

/-- `themeDidChange` draws the outline again. -/
def theme (w : Window) (focusedPane : Bool) : Window :=
  if w.resizeOutline then { w with resizeOutline := focusedPane } else w

end Window

/-! ## The engine -/

/-- `modeController` is the window the mode was entered in, `key` the window that gets the keys. -/
structure State where
  windows : List Window
  mode : Mode
  modeController : Option Nat
  key : Option Nat
deriving DecidableEq, Repr

def init : State where
  windows := []
  mode := .normal
  modeController := none
  key := none

/-- What the window holds when a key comes: a focused pane, closed panes to reopen, a session that can move, and on the
canvas a card that can be jumped to. -/
structure Env where
  focusedPane : Bool
  closedPanes : Bool
  canMoveSession : Bool
  selection : Bool
deriving DecidableEq, Repr

namespace State

def modify (s : State) (i : Nat) (f : Window → Window) : State := { s with windows := s.windows.modify i f }

/-- Every change of the mode takes down what the old one put up, in the window that has it. -/
def setMode (s : State) (controller : Option Nat) (focusedPane : Bool) (newMode : Mode) : State :=
  let s := { s with mode := newMode }
  let s :=
    match s.modeController with
    | none => s
    | some i => s.modify i Window.dismissAllChrome
  let s := { s with modeController := none }
  match controller with
  | none => s
  | some w =>
    if newMode == .normal then s
    else ({ s with modeController := some w } : State).modify w fun x => x.put focusedPane newMode

def cancel (s : State) : State := s.setMode none false .normal

/-- A new window gets the keys, and the other one loses them. -/
def newWindow (s : State) : State :=
  let s := s.cancel
  { s with windows := s.windows ++ [Window.new], key := some s.windows.length }

def closeWindow (s : State) (i : Nat) : State :=
  let s := (s.cancel).modify i fun w => { w with isOpen := false }
  { s with key := if s.key == some i then none else s.key }

end State

/-! ## Keys -/

def digit (key : String) : Option Nat := ["1", "2", "3", "4", "5", "6", "7", "8", "9"].findIdx? (· == key)

def KeyEvent.plainCommand (e : KeyEvent) : Bool := e.command && !e.control && !e.option && !e.shift

/-- `PaneView.fontZoomStep` -/
def fontZoomStep (e : KeyEvent) : Option (Int × Bool) :=
  if e.command && !e.control && !e.option then
    ([("=", 1), ("+", 1), ("-", -1), ("0", 0)].lookup e.unmodified).map fun step => (step, e.shift)
  else none

inductive WindowShortcut where
  | newSession
  | newWindow
  | moveSession
  | closeWindow
deriving DecidableEq, Repr

def windowShortcut (e : KeyEvent) : Option WindowShortcut :=
  let key := e.characters.toLower
  if key == "n" then
    match e.command, e.shift, e.control, e.option with
    | true, false, false, false => some .newSession
    | true, true, false, false => some .newWindow
    | true, false, false, true => some .moveSession
    | _, _, _, _ => none
  else if key == "w" && e.command && e.shift && !e.control && !e.option then some .closeWindow
  else none

def isCloseTab (e : KeyEvent) : Bool := e.plainCommand && e.characters.toLower == "w"

def isReopenClosedTab (e : KeyEvent) : Bool :=
  e.command && e.shift && !e.control && !e.option && e.characters.toLower == "t"

def resizeKeys : List (String × Action) :=
  [("h", .resizeFocused .left), ("j", .resizeFocused .down), ("k", .resizeFocused .up), ("l", .resizeFocused .right),
    ("H", .moveFocused .left), ("J", .moveFocused .down), ("K", .moveFocused .up), ("L", .moveFocused .right)]

def canvasKeys : List (String × Action) :=
  [("j", .moveCanvas 1), ("l", .moveCanvas 1), ("\uF701", .moveCanvas 1), ("\uF703", .moveCanvas 1),
    ("k", .moveCanvas (-1)), ("h", .moveCanvas (-1)), ("\uF700", .moveCanvas (-1)), ("\uF702", .moveCanvas (-1))]

/-- With control: along a whole edge of the layout. -/
def hostsControlKeys : List (String × Action) :=
  [("h", .commitHosts true true true), ("\u0008", .commitHosts true true true), ("j", .commitHosts false false true),
    ("\u000a", .commitHosts false false true), ("k", .commitHosts false true true),
    ("\u000b", .commitHosts false true true), ("l", .commitHosts true false true),
    ("\u000c", .commitHosts true false true)]

/-- The keys that leave the hosts window. -/
def hostsCommitKeys : List (String × Action) :=
  [("\r", .commitHosts true false false), ("L", .commitHosts true false false), ("H", .commitHosts true true false),
    ("J", .commitHosts false false false), ("K", .commitHosts false true false), ("c", .newSessionOnHostsSelection),
    ("n", .createIXVM)]

def hostsListKeys : List (String × Action) :=
  [("j", .moveHosts 1), ("\uF701", .moveHosts 1), ("k", .moveHosts (-1)), ("\uF700", .moveHosts (-1))]

def prefixKeys : List (String × Action) :=
  [("'", .split true false false), ("-", .split false false false), ("H", .split true true true),
    ("J", .split false false true), ("K", .split false true true), ("L", .split true false true),
    ("h", .focusDirection .left), ("\uF702", .focusDirection .left), ("j", .focusDirection .down),
    ("\uF701", .focusDirection .down), ("k", .focusDirection .up), ("\uF700", .focusDirection .up),
    ("l", .focusDirection .right), ("\uF703", .focusDirection .right), ("z", .toggleZoom), ("x", .closeFocusedPane),
    ("X", .killFocusedPane), ("c", .newSession), ("n", .nextSession), ("p", .prevSession)]

def prefixModes : List (String × Mode) :=
  [("r", .resize), ("t", .hosts), (" ", .canvas), ("f", .canvas), ("?", .help)]

/-- The state, what is to be done, and whether the terminal gets the key. -/
structure Handled where
  state : State
  actions : List Action
  passes : Bool
deriving DecidableEq, Repr

def swallow (s : State) (actions : List Action) : Handled := { state := s, actions := actions, passes := false }

section
variable (s : State) (w : Nat) (env : Env)

def enter (newMode : Mode) : State := s.setMode (some w) env.focusedPane newMode

def runPrefixAction (key : String) : Handled :=
  match prefixKeys.lookup key with
  | some a => swallow s [a]
  | none =>
    match prefixModes.lookup key with
    | some m => swallow (enter s w env m) []
    | none =>
      match digit key with
      | some i => swallow s [.selectSession i]
      | none => swallow s (if key == "\u001b" then [] else [.beep])

def handleResizeKey (key : String) : Handled :=
  match resizeKeys.lookup key with
  | some a => swallow s [a]
  | none =>
    match digit key with
    | some i => swallow s.cancel [.movePane i]
    | none =>
      if key == "c" then swallow s.cancel [.movePaneToNewSession]
      else if key == "?" then swallow (enter s w env .help) []
      else if key == "\u001b" || key == "\r" || key == "q" then swallow s.cancel []
      else swallow s []

def handleCanvasKey (e : KeyEvent) : Handled :=
  match fontZoomStep e with
  | some (step, allPanes) => swallow s [if allPanes then .adjustAllFontSizes step else .adjustFontSize step]
  | none =>
    match canvasKeys.lookup e.characters with
    | some a => swallow s [a]
    | none =>
      if e.characters == "\r" then
        swallow (if env.selection then s.modify w Window.hideCanvasOverlay else s).cancel [.commitCanvas]
      else if e.characters == "\u001b" || e.characters == "q" then swallow s.cancel []
      else swallow s []

def handleHostsKey (key : String) (control : Bool) : Handled :=
  if control then
    match hostsControlKeys.lookup key with
    | some a => swallow s.cancel [a]
    | none => swallow s []
  else
    match hostsListKeys.lookup key with
    | some a => swallow s [a]
    | none =>
      match hostsCommitKeys.lookup key with
      | some a => swallow s.cancel [a]
      | none =>
        if key == "y" then swallow s [.copyDigest]
        else if key == "t" then swallow (enter s w env .hostsTemplate) []
        else if key == "?" then swallow (enter s w env .help) []
        else if key == "\u001b" || key == "q" then swallow s.cancel []
        else swallow s []

def handleTemplateKey (key : String) : Handled :=
  match hostsListKeys.lookup key with
  | some a => swallow s [a]
  | none =>
    if key == "\r" then swallow (enter s w env .hosts) [.commitTemplate]
    else if key == "\u001b" || key == "q" then swallow (enter s w env .hosts) []
    else swallow s []

def handle (e : KeyEvent) : Handled :=
  match (if e.plainCommand then digit e.characters else none) with
  | some i => swallow s.cancel [.selectSession i]
  | none =>
    match s.mode with
    | .normal =>
      if e.control && !e.command && e.characters == "b" then swallow (enter s w env .prefixMode) []
      else { state := s, actions := [], passes := true }
    | .prefixMode =>
      -- The prefix once more is for the terminal.
      if e.control && e.characters == "b" then { state := s.cancel, actions := [], passes := true }
      else runPrefixAction s.cancel w env e.characters
    | .resize => handleResizeKey s w env e.characters
    | .help => swallow s.cancel []
    | .canvas => handleCanvasKey s w env e
    | .hosts => handleHostsKey s w env e.characters e.control
    | .hostsTemplate => handleTemplateKey s w env e.characters

def cyclesWindows (e : KeyEvent) : Bool := e.command && (e.characters == "\x60" || e.characters == "~")

/-- The monitor, for a key that goes to window `w`. -/
def press (e : KeyEvent) : Handled :=
  if cyclesWindows e then { state := s.cancel, actions := [], passes := true }
  else
    match windowShortcut e with
    | some .newSession => swallow s.cancel [.newSession]
    | some .newWindow => swallow s.newWindow [.newWindow]
    | some .moveSession => if env.canMoveSession then swallow s.newWindow [.moveSession] else swallow s []
    | some .closeWindow => swallow (s.closeWindow w) [.closeWindow]
    | none =>
      if isReopenClosedTab e then
        if env.closedPanes then swallow s.cancel [.reopenClosedTab] else swallow s []
      else if isCloseTab e then swallow s.cancel [.closeFocusedPane]
      else handle s w env e

end

/-! ## Steps -/

inductive Label where
  | newWindow
  | closeWindow (i : Nat)
  | becomeKey (i : Nat)
  | resignKey
  | cancel
  | press (env : Env) (e : KeyEvent)
  | click (i : Nat) (jump : Bool)
  | theme (focusedPane : Bool)
  | teardown (i : Nat)
deriving DecidableEq, Repr

/-- `click` is one on the canvas of a window, on a card or beside it; `cancel` is the menu's. -/
def step (s : State) : Label → Option State
  | .newWindow => some s.newWindow
  | .closeWindow i => if s.windows[i]?.any (·.isOpen) then some (s.closeWindow i) else none
  | .becomeKey i => if s.key.isNone && s.windows[i]?.any (·.isOpen) then some { s with key := some i } else none
  | .resignKey => some { s.cancel with key := none }
  | .cancel => some s.cancel
  | .press env e => s.key.map fun w => (press s w env e).state
  | .click i jump =>
    if s.windows[i]?.any (·.canvas) then
      let s := if jump then s.modify i Window.hideCanvasOverlay else s
      some (if s.mode == .canvas then s.cancel else s)
    else none
  | .theme focusedPane => some { s with windows := s.windows.map fun w => w.theme focusedPane }
  | .teardown i => if s.windows[i]?.any (fun w => 0 < w.teardowns) then some (s.modify i Window.teardown) else none

end Mux.PrefixEngine
