import Mux.Lib.Run

/-!
# Clipboard confirmations

The terminal core asks for a confirmation before a program reads or writes the clipboard, or before an unsafe paste.
What it hands over is copied, and the prompt comes later on the main thread, as a sheet of the pane; one pane has one
sheet at a time. A write of OSC 52 that is to be confirmed goes the same way and ends at the pasteboard.
-/

namespace Mux.Clipboard

abbrev Bytes := List UInt8

/-- One representation: a MIME type and its raw bytes. -/
structure Content where
  mime : String
  data : Bytes
deriving DecidableEq, Repr

def Content.string (c : Content) : Option String := String.fromUTF8? ⟨c.data.toArray⟩

inductive Request where
  | paste
  | osc52Read
  | kittyRead
  | list
  | osc52Write
  | kittyWrite
deriving DecidableEq, Repr

inductive Location where
  | standard
  | selection
  | primary
deriving DecidableEq, Repr

/-- What the core hands over with a confirmation. -/
structure Confirm where
  contents : List Content
  available : List String
  name : Option String
  canRemember : Bool
  request : Request
deriving DecidableEq, Repr

structure ClipboardPrompt where
  display : String
  programName : Option String
  canRemember : Bool
  request : Request
deriving DecidableEq, Repr

def summary (c : Content) : String := c.mime ++ " (" ++ toString c.data.length ++ " bytes)"

/-- The text representation when there is one, and otherwise what there is. -/
def display (reps : List Content) : String :=
  ((reps.find? fun c => c.mime == "text/plain").bind Content.string).getD ("\n".intercalate (reps.map summary))

def Confirm.prompt (c : Confirm) : ClipboardPrompt where
  display := display c.contents
  programName := c.name
  canRemember := c.canRemember
  request := c.request

/-- Title, detail, and the names of the two buttons. -/
def texts (p : ClipboardPrompt) : String × String × String × String :=
  let program := (p.programName.map fun name => "\"" ++ name ++ "\"").getD "An application"
  match p.request with
  | .paste =>
    ("Warning: Potentially Unsafe Paste",
      "Pasting this text to the terminal may be dangerous as it looks like some commands may be executed.",
      "Paste", "Cancel")
  | .osc52Read | .kittyRead | .list =>
    ("Authorize Clipboard Access",
      program ++ " is attempting to read from the clipboard. The current clipboard contents are shown below.",
      "Allow", "Deny")
  | _ =>
    ("Authorize Clipboard Access",
      program ++ " is attempting to write to the clipboard. The content to write is shown below.",
      "Allow", "Deny")

/-! ## The state -/

structure View where
  surface : Bool
  clipboardConfirmationActive : Bool
deriving DecidableEq, Repr

/-- A call of `confirmReadClipboard` that has to be answered, in the order of the calls. -/
structure Ask where
  view : Nat
  confirm : Confirm
deriving DecidableEq, Repr

/-- A write that is to be confirmed. -/
structure Write where
  view : Nat
  location : Location
  item : Content
  text : String
deriving DecidableEq, Repr

/-- The number of an ask or of a write. -/
inductive Job where
  | ask (k : Nat)
  | write (k : Nat)
deriving DecidableEq, Repr

structure Sheet where
  view : Nat
  job : Job
  prompt : ClipboardPrompt
deriving DecidableEq, Repr

inductive Answer where
  | complete (contents : List Content) (available : List String) (confirmed remember : Bool)
  | deny
deriving DecidableEq, Repr

/-- `queue` is the main thread's. `approved` are the sheets that were accepted, `answers` what the core was told for
the asks, and `written` what went to a pasteboard, with the write that was confirmed for it. -/
structure State where
  views : List View
  asks : List Ask
  writes : List Write
  queue : List Job
  sheets : List Sheet
  approved : List Sheet
  answers : List (Nat × Answer)
  written : List (Option Nat × Location × List Content)
deriving DecidableEq, Repr

def init : State where
  views := []
  asks := []
  writes := []
  queue := []
  sheets := []
  approved := []
  answers := []
  written := []

namespace State

def surface (s : State) (v : Nat) : Bool := s.views[v]?.any (·.surface)

def active (s : State) (v : Nat) : Bool := s.views[v]?.any (·.clipboardConfirmationActive)

def setActive (s : State) (v : Nat) (b : Bool) : State :=
  { s with views := s.views.modify v fun x => { x with clipboardConfirmationActive := b } }

def answer (s : State) (k : Nat) (a : Answer) : State := { s with answers := s.answers ++ [(k, a)] }

/-- The `confirm` of the core may be a null pointer. -/
def confirmReadClipboard (s : State) (v : Nat) (confirm : Option Confirm) : State :=
  if s.surface v then
    match confirm with
    | none =>
      let none : Confirm := { contents := [], available := [], name := none, canRemember := false, request := .paste }
      ({ s with asks := s.asks ++ [{ view := v, confirm := none }] } : State).answer s.asks.length .deny
    | some c => { s with asks := s.asks ++ [{ view := v, confirm := c }], queue := s.queue ++ [.ask s.asks.length] }
  else s

/-- `NSPasteboard.ghostty`: there is no primary selection. -/
def pasteboard (location : Location) : Bool := location != .primary

def writeClipboard (s : State) (v : Nat) (location : Location) (items : List Content) (confirm : Bool) : State :=
  if pasteboard location && !items.isEmpty then
    if !confirm then { s with written := s.written ++ [(none, location, items)] }
    else
      match items.find? fun c => c.mime == "text/plain" with
      | none => s
      | some textPlain =>
        match textPlain.string with
        | none => s
        | some text =>
          { s with
            writes := s.writes ++ [{ view := v, location := location, item := textPlain, text := text }]
            queue := s.queue ++ [.write s.writes.length] }
  else s

/-- `decide` of a job. -/
def decide (s : State) (job : Job) (confirmed remember : Bool) : State :=
  match job with
  | .ask k =>
    match s.asks[k]? with
    | none => s
    | some a =>
      if s.surface a.view then
        s.answer k (if confirmed then .complete a.confirm.contents a.confirm.available true remember else .deny)
      else s
  | .write k =>
    match s.writes[k]? with
    | none => s
    | some w => if confirmed then { s with written := s.written ++ [(some k, w.location, [w.item])] } else s

def prompt (s : State) : Job → Option (Nat × ClipboardPrompt)
  | .ask k => s.asks[k]?.map fun a => (a.view, a.confirm.prompt)
  | .write k => s.writes[k]?.map fun w =>
    (w.view, { display := w.text, programName := none, canRemember := false, request := .osc52Write })

def presentClipboardConfirmation (s : State) (v : Nat) (prompt : ClipboardPrompt) (job : Job) : State :=
  if s.active v then s.decide job false false
  else ({ s with sheets := s.sheets ++ [{ view := v, job := job, prompt := prompt }] } : State).setActive v true

/-- `accept` is the first button; there is a suppression button only where the choice can be remembered. -/
def finish (s : State) (sheet : Sheet) (accept suppress : Bool) : State :=
  let s := s.setActive sheet.view false
  ({ s with approved := if accept then s.approved ++ [sheet] else s.approved } : State).decide sheet.job accept
    (sheet.prompt.canRemember && suppress)

end State

inductive Label where
  | view
  | destroySurface (v : Nat)
  | confirmRead (v : Nat) (confirm : Option Confirm)
  | write (v : Nat) (location : Location) (items : List Content) (confirm : Bool)
  | main
  | respond (i : Nat) (accept suppress : Bool)
deriving DecidableEq, Repr

def step (s : State) : Label → Option State
  | .view => some { s with views := s.views ++ [{ surface := true, clipboardConfirmationActive := false }] }
  | .destroySurface v => some { s with views := s.views.modify v fun x => { x with surface := false } }
  | .confirmRead v confirm => some (s.confirmReadClipboard v confirm)
  | .write v location items confirm =>
    if v < s.views.length then some (s.writeClipboard v location items confirm) else none
  | .main =>
    match s.queue with
    | [] => none
    | job :: queue =>
      (s.prompt job).map fun (v, p) => ({ s with queue := queue } : State).presentClipboardConfirmation v p job
  | .respond i accept suppress =>
    s.sheets[i]?.map fun sheet => ({ s with sheets := s.sheets.eraseIdx i } : State).finish sheet accept suppress

end Mux.Clipboard
