import Mux.Lib.Text

/-!
# Pins of host keys

`known_hosts` is a text file that people edit too. Reading takes the first line whose first
field is the host; pinning appends a line, whatever the file ends with.
-/

namespace Mux.KnownHosts

open Lib

def isAsciiAlphanumeric (c : Char) : Bool :=
  (('0' ≤ c) && (c ≤ '9')) || (('A' ≤ c) && (c ≤ 'Z')) || (('a' ≤ c) && (c ≤ 'z'))

def checkAlias (host : Text) : Bool :=
  host.head?.any isAsciiAlphanumeric && host.all fun c => isAsciiAlphanumeric c || c == '.' || c == '_' || c == '-'

/-- A name that `check_alias` accepts. -/
def Alias : Type := { a : Text // checkAlias a = true }

/-- The fingerprint of a certificate: any string that is one field. -/
def Fingerprint : Type := { f : Text // IsWord f }

/-- The fields of a line: `split_whitespace`, of which the reader takes two. -/
def names (host : Text) (line : Text) : Bool := decide ((splitWhitespace line).head? = some host)

def pinIn (ls : List Text) (host : Text) : Option Text :=
  (ls.find? (names host)).bind fun line => (splitWhitespace line)[1]?

/-- `none` is a file that is not there. -/
def readPin (file : Option Text) (host : Text) : Option Text :=
  match file with
  | none => none
  | some text => pinIn (lines text) host

def appendPin (file : Option Text) (host fingerprint : Text) : Text :=
  file.getD [] ++ (host ++ ' ' :: fingerprint) ++ ['\n']

structure HostKeyChanged where
  host : Text
  pinned : Text
  presented : Text
  deriving DecidableEq

def HostKeyChanged.message (e : HostKeyChanged) (path : String) : String :=
  let host := String.ofList e.host
  let pinned := String.ofList e.pinned
  let presented := String.ofList e.presented
  s!"host key changed for {host}: pinned {pinned}, presented {presented}. Either someone is impersonating {host} or its key was regenerated; remove the {host} line from {path} to trust the new key"

/-- The answer, with the fingerprint if it is new, and the file afterwards. -/
def checkPin (file : Option Text) (host fingerprint : Text) :
    Except HostKeyChanged (Option Text) × Option Text :=
  match readPin file host with
  | some pinned =>
    if pinned = fingerprint then (.ok none, file) else (.error ⟨host, pinned, fingerprint⟩, file)
  | none => (.ok (some fingerprint), some (appendPin file host fingerprint))

/-- Later calls, one after another. -/
def checkPins (file : Option Text) (calls : List (Alias × Fingerprint)) : Option Text :=
  calls.foldl (fun f c => (checkPin f c.1.1 c.2.1).2) file

/-- A pin holds: what was accepted is what is read from then on, and no other host is touched. -/
def Persists (file : Option Text) (host : Alias) (fingerprint : Fingerprint) : Prop :=
  ∀ stored after, checkPin file host.1 fingerprint.1 = (.ok stored, after) →
    readPin after host.1 = some fingerprint.1 ∧
    (∀ (calls : List (Alias × Fingerprint)) (other : Fingerprint), other ≠ fingerprint →
      ∃ e, (checkPin (checkPins after calls) host.1 other.1).1 = .error e) ∧
    ∀ other, other ≠ host.1 → readPin after other = readPin file other

end Mux.KnownHosts
