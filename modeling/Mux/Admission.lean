import Mux.KnownHosts
import Mux.Manager
import Mux.Request

/-!
# Admission

`handle_connection` of server.rs reads one request, checks its version, asks the policy of the listener it
came in by, and only then hands it to the broker or to one of the arms that serve it. A daemon serves any
number of connections of either listener while the tasks of its sessions run.
-/

namespace Mux.Admission

open Lib Lib.Postcard Request
open Tokens (Digest)

/-- One for each transport. -/
inductive Policy where
  | local
  | remote (admitted : List Digest)
  | remoteConnection (admitted : List Digest) (connection : Nat)

def Policy.rules : Policy → Tokens.Policy
  | .local => .local
  | .remote admitted => .remote admitted
  | .remoteConnection admitted _ => .remoteConnection admitted

def credentials (r : OpenRequest) : Tokens.OpenRequest where
  token := r.token.map fun s => s.1.toList
  target := r.target.map fun s => s.1.toList

/-! ## Dispatch -/

/-- How a connection is served once its request is read. The audio modes need a connection for their
datagrams; `audioRefused` is the answer where there is none. -/
inductive Arm where
  | mismatch (version : UInt32)
  | rejected (e : Tokens.OpenError)
  | relay (host : Str) (request : OpenRequest)
  | audio (connection : Nat) (mode : OpenMode)
  | audioRefused (mode : OpenMode)
  | connect (path : Str)
  | list
  | kill (name : Str)
  | close (name : Str)
  | watch
  | control (name : Str) (mode : OpenMode)
  | open (mode : OpenMode) (cols rows : UInt16) (term : Option Str) (connection : Option Nat)
deriving DecidableEq

/-- The arms of the match on the mode. -/
def serve (r : OpenRequest) (connection : Option Nat) : Arm :=
  match r.mode with
  | .audioProvider | .audioAcquire _ | .audio _ =>
    match connection with
    | some c => .audio c r.mode
    | none => .audioRefused r.mode
  | .connect path => .connect path
  | .list => .list
  | .kill name => .kill name
  | .close name => .close name
  | .watch => .watch
  | .inspect name | .observe name | .input name _ => .control name r.mode
  | .openTerm .. | .attach _ | .reopen _ => .open r.mode r.cols r.rows r.term connection

def Policy.connection : Policy → Option Nat
  | .remoteConnection _ c => some c
  | _ => none

def Policy.isLocal : Policy → Bool
  | .local => true
  | _ => false

section
variable (sha : Text → Digest)

/-- Admission comes first, for a request that will be relayed too. -/
def dispatch (p : Policy) : Handshake → Arm
  | .error version => .mismatch version
  | .ok r =>
    match p.rules.admits sha (credentials r) with
    | .error e => .rejected e
    | .ok () =>
      match r.target, p.isLocal with
      | some host, true => .relay host r
      | _, _ => serve r p.connection

end

/-! ## A daemon and its connections -/

/-- `relayed` is what was handed to the broker, oldest first. -/
structure Daemon (T : Type) where
  manager : Manager.State T
  relayed : List (Str × OpenRequest)

def Daemon.new {T : Type} (clock : Nat) : Daemon T := ⟨.new clock, []⟩

/-- What an arm does to the session table; an attach looks the session up and checks it later. -/
def Arm.label (spawned : Except String (PtyId × Pid)) (generation : Generation) : Arm → Option Manager.Label
  | .kill name => some (.kill name.1)
  | .close name => some (.closeFor name.1 60000)
  | .open (.openTerm name _ command _) cols rows _ _ =>
    some (.openTerm name.1 (command.1.map Subtype.val) cols rows spawned generation)
  | .open (.reopen name) .. => some (.reopen name.1)
  | .open (.attach name) .. => some (.get name.1)
  | _ => none

/-- A connection with the message it begins with, or a step of a task of the daemon. How a new pty is
spawned is in the label. -/
inductive Label where
  | connection (p : Policy) (buf : Lib.Bytes) (spawned : Except String (PtyId × Pid)) (generation : Generation)
  | task (a : Manager.Label)

/-- The steps that no request takes: the tasks of the sessions, the clock, and a handoff. -/
def background : Manager.Label → Bool
  | .openTerm .. | .get _ | .kill _ | .closeFor .. | .reopen _ => false
  | _ => true

section
variable {T : Type} [Ghostty T] (sha : Text → Digest)

/-- A lookup of a name that is not there changes nothing. -/
def Daemon.perform (s : Daemon T) (a : Manager.Label) : Daemon T :=
  { s with manager := (Manager.step s.manager a).getD s.manager }

def Daemon.arm (s : Daemon T) (spawned : Except String (PtyId × Pid)) (generation : Generation) (a : Arm) : Daemon T :=
  match a with
  | .relay host request => { s with relayed := s.relayed ++ [(host, request)] }
  | a =>
    match a.label spawned generation with
    | some l => s.perform l
    | none => s

/-- A message that cannot be read ends its connection. -/
def step (s : Daemon T) : Label → Option (Daemon T)
  | .connection p buf spawned generation =>
    match handshake buf with
    | .error _ => some s
    | .ok h => some (s.arm spawned generation (dispatch sha p h))
  | .task a => if background a then (Manager.step s.manager a).map fun m => { s with manager := m } else none

end

/-! ## The broker's request -/

/-- What `open_stream` sends to the host that a request names. -/
def relayed (r : OpenRequest) (token : Str) : OpenRequest :=
  { r with version := protocolVersion, target := none, token := some token }

structure RelayError where
  kind : Peer.ErrorKind
  detail : String
deriving DecidableEq

def failed (kind : Peer.ErrorKind) (e : String) : RelayError := ⟨kind, e⟩

def unreachable (host addr : Text) (e : String) : RelayError :=
  let host := String.ofList host
  let addr := String.ofList addr
  ⟨.unreachable, s!"cannot reach {host} at {addr}: {e}"⟩

def checkAlias (host : Text) : Except String Unit :=
  if KnownHosts.checkAlias host then .ok ()
  else
    let host := (String.ofList host).quote
    .error (s!"invalid host alias {host}: letters, digits, " ++ "'.', '_' and '-' only")

/-- The answers on the way to a host: its address in `hosts.json`, the token for it, the connection, cached or dialled,
and the stream, if it could be opened and the request be written to it in time. -/
structure Way where
  hostAddr : Except String Text
  hostToken : Except String Str
  connection : Except RelayError Unit
  opened : Except String Unit

/-- The bytes that have reached the stream that is returned. -/
def openStream (host : Text) (r : OpenRequest) (way : Way) : Except RelayError Lib.Bytes := do
  (checkAlias host).mapError (failed .noHost)
  let addr ← way.hostAddr.mapError (failed .noHost)
  let token ← way.hostToken.mapError (failed .other)
  way.connection
  let payload := openRequest.encode (relayed r token)
  if Frame.maxRequestBytes < payload.length then
    .error ⟨.other, s!"request too large ({payload.length} bytes)"⟩
  else
    way.opened.mapError (unreachable host addr)
    (Frame.encodeMessage payload).mapError fun _ => unreachable host addr "send handshake"

end Mux.Admission
