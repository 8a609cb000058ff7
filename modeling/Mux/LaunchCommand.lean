import Mux.KnownHosts
import Mux.Pane
import Mux.Lib.Shell
import Mux.Lib.Uuid

/-!
# The launch command of a pane

What the app tells the relay about a pane's terminal goes through a shell as one string and
comes out at the argument loop of `mux-attach`. Swift compares by Character: a target starts
with `ix:` only where the scalar after the colon is not one that joins it, and which scalars
join others is a parameter. So are the paths that the app finds its helpers at.
-/

namespace Mux.Muxd

open Lib

/-! ## The app -/

/-- A Character ends between the texts: `joins c d` says that adjacent scalars are of one Character. -/
def boundary (joins : Char → Char → Bool) (before after : Text) : Bool :=
  match before.getLast?, after.head? with
  | some c, some d => !joins c d
  | _, _ => true

def hasPrefix (joins : Char → Char → Bool) (p t : Text) : Bool := p.isPrefixOf t && boundary joins p (t.drop p.length)

def hasSuffix (joins : Char → Char → Bool) (p t : Text) : Bool :=
  p.isSuffixOf t && boundary joins (t.take (t.length - p.length)) p

def ixPrefix : Text := ['i', 'x', ':']

/-- `IX.vm(of:)`. -/
def vm (joins : Char → Char → Bool) (target : Option Text) : Option Text :=
  target.bind fun t => if hasPrefix joins ixPrefix t then some (t.drop ixPrefix.length) else none

structure Binaries where
  attachBinary : Text
  ix : Text

structure Attach where
  paneID : Nat
  target : Option Text
  ptyCommand : Option (List Text)
  expectExisting : Bool
  requireExisting : Bool

namespace Attach

variable (joins : Char → Char → Bool) (b : Binaries) (a : Attach)

def address : Text :=
  match a.target with
  | some t =>
    if hasPrefix joins ixPrefix t then "local:".toList ++ (uuidString a.paneID).toList
    else t ++ ':' :: (uuidString a.paneID).toList
  | none => "local:".toList ++ (uuidString a.paneID).toList

def quote (argv : List Text) : Text := [' '].intercalate (argv.map quoted)

def inPty : Option (List Text) := a.ptyCommand.or ((vm joins a.target).map fun name => [b.ix, "shell".toList, name])

def flags : List Text :=
  if a.requireExisting then ["--require-existing".toList]
  else if a.expectExisting then ["--expect-existing".toList]
  else []

def commandLine (cwd : Option Text) (cwdFrom : Option Nat) : Text :=
  let parts := [b.attachBinary, a.address joins] ++ a.flags
  match a.inPty joins b with
  | some command => quote (parts ++ ["--".toList] ++ command)
  | none =>
    match cwdFrom, cwd with
    | some source, _ => quote (parts ++ ["--cwd-from".toList, (uuidString source).toList])
    | none, some dir => quote (parts ++ ["--cwd".toList, dir])
    | none, none => quote parts

end Attach

/-! ## The relay -/

/-- A string ends at its first NUL where C reads it. -/
def cString (t : Text) : Text := t.takeWhile fun c => c != '\x00'

/-- `main` of the program that the shell starts: the words behind its name are the arguments. -/
def launched (line : Text) : Option Pane.Attach :=
  (shellWords (cString line)).bind fun words => (Pane.parseArgs ((words.drop 1).map String.ofList)).toOption

/-! ## What it is for -/

/-- Where a pane's terminal is: here, on a host, or here with the shell of a VM in it. -/
inductive Place where
  | here
  | host (name : KnownHosts.Alias) (remote : name.1 ≠ "local".toList)
  | vm (name : Text)

namespace Place

/-- The target of such a pane. -/
def target : Place → Option Text
  | here => none
  | host name _ => some name.1
  | vm name => some (ixPrefix ++ name)

def relayHost : Place → Option Text
  | host name _ => some name.1
  | _ => none

def shell (b : Binaries) : Place → Option (List Text)
  | vm name => some [b.ix, "shell".toList, name]
  | _ => none

/-- The name of a VM does not begin with a scalar that joins the colon before it. -/
def Separate (joins : Char → Char → Bool) : Place → Prop
  | vm name => boundary joins ixPrefix name = true
  | _ => True

end Place

/-- What the relay of a pane is to attach to, and how. -/
def Attach.relay (b : Binaries) (p : Place) (a : Attach) (cwd : Option Text) (cwdFrom : Option Nat)
    (expectExisting : Bool) : Pane.Attach :=
  let command := a.ptyCommand.or (p.shell b)
  ⟨p.relayHost.map String.ofList, uuidString a.paneID,
    if command.isSome || cwdFrom.isSome then none else cwd.map String.ofList,
    if command.isSome then none else cwdFrom.map uuidString,
    (command.getD []).map String.ofList, expectExisting, a.requireExisting, false⟩

/-- No string holds a NUL. -/
structure Attach.NulFree (b : Binaries) (a : Attach) (cwd : Option Text) : Prop where
  attachBinary : '\x00' ∉ b.attachBinary
  ix : '\x00' ∉ b.ix
  target : ∀ t ∈ a.target, '\x00' ∉ t
  command : ∀ l ∈ a.ptyCommand, ∀ t ∈ l, '\x00' ∉ t
  cwd : ∀ t ∈ cwd, '\x00' ∉ t

end Mux.Muxd
