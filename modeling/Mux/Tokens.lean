import Mux.Lib.Hex

/-!
# Bearer tokens

A client's token is a file it generates on first use. A host enrols the digest of the token,
one line of a text file, and admits a request whose token has an admitted digest. SHA-256 is
a parameter: any function from texts to digests.
-/

namespace Mux.Tokens

open Lib

/-- `[u8; 32]`. -/
def Digest : Type := { d : List UInt8 // d.length = 32 }

instance : DecidableEq Digest := inferInstanceAs (DecidableEq { d : List UInt8 // d.length = 32 })

def Digest.hex (d : Digest) : Text := hexEncode d.1

def digestPrefix : Text := "sha256:".toList

def line (d : Digest) : Text := digestPrefix ++ d.hex

/-! ## The file of enrolled digests -/

def skipped (line : Text) : Bool := line.isEmpty || line.head? == some '#'

structure OpenRequest where
  token : Option Text
  target : Option Text

inductive ErrorKind where
  | tokenRejected
  | other
  deriving DecidableEq

structure OpenError where
  kind : ErrorKind
  message : String
  deriving DecidableEq

/-- The QUIC connection of `RemoteConnection` plays no part in admission. -/
inductive Policy where
  | local
  | remote (admitted : List Digest)
  | remoteConnection (admitted : List Digest)

/-- A file as `read_to_string` finds it. -/
inductive FileRead where
  | notFound
  | failed
  | text (t : Text)
  deriving DecidableEq

section
variable (sha : Text → Digest)

def admitRemote (admitted : List Digest) (request : OpenRequest) : Except OpenError Unit :=
  if (request.token.map sha).any fun d => admitted.contains d then
    match request.target with
    | some host =>
      let host := (String.ofList host).quote
      .error ⟨.other, s!"target {host} rejected: a remote daemon does not relay"⟩
    | none => .ok ()
  else .error ⟨.tokenRejected, "authentication failed"⟩

def Policy.admits (p : Policy) (request : OpenRequest) : Except OpenError Unit :=
  match p with
  | .local => .ok ()
  | .remote admitted | .remoteConnection admitted => admitRemote sha admitted request

end

/-! ## The client's token -/

inductive TokenError where
  | write
  | read
  | empty
  deriving DecidableEq

/-- `random` are the bytes drawn, and `stored` says whether they could be written, and what the
file is if not. The answer comes with the file afterwards. -/
def generateToken (random : Digest) (stored : Except FileRead Unit) : Except TokenError Text × FileRead :=
  match stored with
  | .ok () => (.ok random.hex, .text random.hex)
  | .error left => (.error .write, left)

def loadOrGenerateToken (file : FileRead) (random : Digest) (stored : Except FileRead Unit) :
    Except TokenError Text × FileRead :=
  match file with
  | .text existing => if (trim existing).isEmpty then generateToken random stored else (.ok (trim existing), file)
  | _ => generateToken random stored

/-- The token for a host: the one the host has handed out, or this client's own. -/
def hostToken (override client : FileRead) (random : Digest) (stored : Except FileRead Unit) :
    Except TokenError Text × FileRead :=
  match override with
  | .notFound => loadOrGenerateToken client random stored
  | .failed => (.error .read, client)
  | .text token => if (trim token).isEmpty then (.error .empty, client) else (.ok (trim token), client)

end Mux.Tokens
