import Mux.Lib.Run
import Mux.Manager

/-!
# mux-attach

The relay a pane runs: it opens the pane's terminal by name, pumps the connection until the
terminal's process exits, and waits out every daemon that goes away. With `--mirror-foreground`
it is exec'd again under the name of the program in the foreground, on the same socket and with
the same arguments. What the socket, the daemon and the pane do is in the label of a step.
-/

namespace Mux.Pane

open Lib

/-! ## The command line -/

structure Attach where
  target : Option String
  name : String
  cwd : Option String
  cwdFrom : Option String
  command : List String
  expectExisting : Bool
  requireExisting : Bool
  mirror : Bool
  deriving DecidableEq

/-- What the argument loop of `main` has read so far. -/
structure Flags where
  target : Option String
  cwd : Option String
  cwdFrom : Option String
  command : List String
  expectExisting : Bool
  requireExisting : Bool
  mirror : Bool

def Flags.none : Flags := ⟨.none, .none, .none, [], false, false, false⟩

def Flags.read (f : Flags) : List String → Except String Flags
  | [] => .ok f
  | arg :: rest =>
    if arg = "--expect-existing" then { f with expectExisting := true }.read rest
    else if arg = "--mirror-foreground" then { f with mirror := true }.read rest
    else if arg = "--require-existing" then
      { f with requireExisting := true, expectExisting := true }.read rest
    else if arg = "--cwd" then
      match rest with
      | [] => .error "--cwd needs a dir"
      | dir :: rest => { f with cwd := some dir }.read rest
    else if arg = "--cwd-from" then
      match rest with
      | [] => .error "--cwd-from needs a pty name"
      | name :: rest => { f with cwdFrom := some name }.read rest
    else if arg = "--" then .ok { f with command := rest }
    else { f with target := some arg }.read rest

def splitOnce (c : Char) (s : String) : Option (String × String) :=
  match s.toList.span (· ≠ c) with
  | (before, _ :: after) => some (String.ofList before, String.ofList after)
  | (_, []) => none

/-- No target is this machine. -/
def parseTarget (target : String) : Except String (Option String × String) :=
  match splitOnce ':' target with
  | some (host, name) =>
    if host = "local" ∧ name ≠ "" then .ok (none, name)
    else if host ≠ "" ∧ name ≠ "" then .ok (some host, name)
    else .error s!"target must be [host|local]:<name>, got {target.quote}"
  | none => .error s!"target must be [host|local]:<name>, got {target.quote}"

def parseArgs (args : List String) : Except String Attach :=
  match Flags.none.read args with
  | .error e => .error e
  | .ok f =>
    match f.target with
    | none => .error "usage: mux-attach [host|local]:<name>"
    | some target =>
      match parseTarget target with
      | .error e => .error e
      | .ok (host, name) =>
        .ok ⟨host, name, f.cwd, f.cwdFrom, f.command, f.expectExisting, f.requireExisting, f.mirror⟩

/-! ## Requests and frames -/

inductive OpenMode where
  | openTerm (name : String) (cwd : Option String) (command : List String) (cwdFrom : Option String)
  | attach (name : String)
  | reopen (name : String)
  deriving DecidableEq

structure OpenRequest where
  cols : UInt16
  rows : UInt16
  term : Option String
  target : Option String
  mode : OpenMode
  deriving DecidableEq

def openSession (a : Attach) (size : UInt16 × UInt16) (term : Option String) (reopening : Bool) : OpenRequest where
  cols := size.1
  rows := size.2
  term := term
  target := a.target
  mode :=
    if a.requireExisting && reopening then .reopen a.name
    else if a.requireExisting then .attach a.name
    else .openTerm a.name a.cwd a.command a.cwdFrom

/-- A frame from the daemon. `opened` is a reply to some other request, `badEvent` an event that
does not decode, `unknown` a frame on any other lane. -/
inductive Frame where
  | attached (created : Bool)
  | opened (reply : String)
  | refused (detail : String)
  | output (bytes : Bytes)
  | exit (code : Int)
  | foreground (name : String)
  | badEvent
  | unknown (lane : Nat)
  deriving DecidableEq

def outLaneOpened : Nat := 0

def outLaneOutput : Nat := 1

def outLaneEvents : Nat := 2

def Frame.lane : Frame → Nat
  | .attached _ | .opened _ | .refused _ => outLaneOpened
  | .output _ => outLaneOutput
  | .exit _ | .foreground _ | .badEvent => outLaneEvents
  | .unknown lane => lane

/-- `handshake` and the check of its reply; no frame is a connection that has ended. -/
def handshake : Option Frame → Except String Bool
  | none => .error "daemon closed during handshake"
  | some (.attached created) => .ok created
  | some (.opened reply) => .error s!"unexpected reply: {reply}"
  | some (.refused detail) => .error detail
  | some frame => .error s!"unexpected first lane {frame.lane}"

/-! ## The pump -/

/-- Why the relay for one connection ended. -/
inductive Relay where
  | exited (code : Int)
  | daemonGone
  | mirror (name : String)
  deriving DecidableEq

def validAlias (name : String) : Bool :=
  !name.isEmpty && decide (name.utf8ByteSize ≤ 64) && name.toList.head? != some '.' &&
    name.toList.all fun c => c.isAlphanum || c == '.' || c == '_' || c == '+' || c == '-'

/-- One turn of `pump`: none when it goes on reading. -/
def pump (mirror : Bool) (currentAlias : String) (stdout : Bool) : Option Frame → Option Relay
  | none => some .daemonGone
  | some (.output _) => if stdout then none else some (.exited 0)
  | some (.exit code) => some (.exited code)
  | some (.foreground name) =>
    if mirror && validAlias name && name != currentAlias then some (.mirror name) else none
  | some _ => none

/-! ## The process -/

/-- Who waits for the answer to an open: `run_attach`, or the loop of `reconnect`. -/
inductive Caller where
  | runAttach
  | reconnect (reopening : Bool)
  deriving DecidableEq

def Caller.reopening : Caller → Bool
  | .runAttach => true
  | .reconnect reopening => reopening

/-- `checking` is the top of the loop of `reconnect`, `entering` that of `relay_loop`. -/
inductive Phase where
  | dialing (c : Caller)
  | asking (c : Caller)
  | checking (reopening : Bool)
  | entering
  | pumping
  | ended (r : Relay)
  | exited (code : Int)
  deriving DecidableEq

/-- A request, and whether the relay had seen an open succeed when it sent it. -/
structure Sent where
  request : OpenRequest
  opened : Bool
  deriving DecidableEq

/-- The current image of a relay. `inputs` says that the input threads run. `sent` and `opened`
are kept for the statements, over all images: the requests, and that an open was seen to
succeed. -/
structure Image where
  args : List String
  attach : Attach
  currentAlias : String
  phase : Phase
  inputs : Bool
  stdinClosed : Bool
  sent : List Sent
  opened : Bool
  deriving DecidableEq

/-- `main`, up to the first connect or the first turn of `relay_loop`. -/
def main (args : List String) (currentAlias : String) (inherited : Bool) : Option Image :=
  match parseArgs args with
  | .error _ => none
  | .ok attach =>
    some ⟨args, attach, currentAlias, if inherited then .entering else .dialing .runAttach, inherited, false, [], false⟩

namespace Image

/-- A fresh pane fails; a pane that is believed to exist keeps trying, as a reconnect does. -/
def openFailed (i : Image) : Caller → Image
  | .runAttach =>
    if i.attach.expectExisting then { i with phase := .checking true, inputs := true }
    else { i with phase := .exited 1 }
  | .reconnect reopening => { i with phase := .checking reopening }

def openSucceeded (i : Image) : Image := { i with phase := .entering, inputs := true, opened := true }

def connect (i : Image) (stream : Bool) (size : UInt16 × UInt16) (term : Option String) : Option Image :=
  match i.phase with
  | .dialing c =>
    if stream then
      some { i with
        phase := .asking c
        sent := i.sent ++ [⟨openSession i.attach size term c.reopening, i.opened⟩] }
    else some (i.openFailed c)
  | _ => none

def read (i : Image) (frame : Option Frame) (stdout : Bool) : Option Image :=
  match i.phase with
  | .asking c =>
    match handshake frame with
    | .ok _ => some i.openSucceeded
    | .error _ => some (i.openFailed c)
  | .pumping =>
    match pump i.attach.mirror i.currentAlias stdout frame with
    | some r => some { i with phase := .ended r }
    | none => some i
  | _ => none

/-- `relay_loop` duplicates the socket for the input threads. -/
def tryClone (i : Image) (ok : Bool) : Option Image :=
  if i.phase = .entering then some { i with phase := if ok then .pumping else .exited 1 } else none

def relayLoop (i : Image) : Option Image :=
  match i.phase with
  | .ended (.exited code) => some { i with phase := .exited code }
  | .ended .daemonGone => some { i with phase := if i.stdinClosed then .exited 0 else .checking false }
  | _ => none

/-- Returns only when the exec failed; the new image starts from the same arguments. -/
def reexecAs (i : Image) (ok : Bool) : Option Image :=
  match i.phase with
  | .ended (.mirror name) =>
    if ok then (main i.args name true).map fun j => { j with sent := i.sent, opened := i.opened }
    else some { i with phase := .entering }
  | _ => none

def check (i : Image) : Option Image :=
  match i.phase with
  | .checking reopening =>
    some { i with phase := if i.stdinClosed then .exited 0 else .dialing (.reconnect reopening) }
  | _ => none

def exits (i : Image) : Bool :=
  match i.phase with
  | .exited _ => true
  | _ => false

def stdinEof (i : Image) : Option Image :=
  if i.inputs ∧ i.exits = false then some { i with stdinClosed := true } else none

end Image

inductive Label where
  | connect (stream : Bool) (size : UInt16 × UInt16) (term : Option String)
  | read (frame : Option Frame) (stdout : Bool)
  | tryClone (ok : Bool)
  | relayLoop
  | reexecAs (ok : Bool)
  | check
  | stdinEof

def step (i : Image) : Label → Option Image
  | .connect stream size term => i.connect stream size term
  | .read frame stdout => i.read frame stdout
  | .tryClone ok => i.tryClone ok
  | .relayLoop => i.relayLoop
  | .reexecAs ok => i.reexecAs ok
  | .check => i.check
  | .stdinEof => i.stdinEof

end Mux.Pane
