import Mux.Lib.Reader
import Mux.Lib.Postcard

/-!
# The handoff message

The predecessor sends one `[u32 LE length][postcard MigratePayload]` message whose control
data carries the masters in the order of `ptys`. It goes out in one `sendmsg` and as many writes as
the rest needs. The successor takes what one `recvmsg` gives it, and reads on until it has the
length and then the body. A payload of version 1 has no close deadlines.
-/

namespace Mux.Migrate

open Lib Lib.Postcard

abbrev Fd := Nat

def migrateVersion : UInt32 := 2

def maxMigrateFds : Nat := 256

/-- The most descriptors that Linux takes in one message. -/
def scmMaxFd : Nat := 253

def maxPayloadBytes : Nat := 64 * 1024 * 1024

structure MigratePty where
  name : Str
  command : Vec Str
  childPid : Int32
  cols : UInt16
  rows : UInt16
  screen : Vec UInt8
  closeDeadline : Option UInt64
deriving DecidableEq

structure MigratePayload where
  version : UInt32
  ptys : Vec MigratePty
deriving DecidableEq

structure LegacyPty where
  name : Str
  command : Vec Str
  childPid : Int32
  cols : UInt16
  rows : UInt16
  screen : Vec UInt8
deriving DecidableEq

structure LegacyPayload where
  version : UInt32
  ptys : Vec LegacyPty
deriving DecidableEq

structure Adopted where
  pty : MigratePty
  master : Fd
deriving DecidableEq

inductive Failure where
  | receiving (e : IoError)
  | decoding (e : Error)
  | refused (message : String)

/-! ## Layouts -/

def migratePty : Codec MigratePty :=
  (str.prod <| (vec str).prod <| i32.prod <| u16.prod <| u16.prod <| (vec u8).prod (option u64)).iso
    (fun (name, command, childPid, cols, rows, screen, closeDeadline) =>
      ⟨name, command, childPid, cols, rows, screen, closeDeadline⟩)
    (fun p => (p.name, p.command, p.childPid, p.cols, p.rows, p.screen, p.closeDeadline)) fun _ => rfl

def migratePayload : Codec MigratePayload :=
  (u32.prod (vec migratePty)).iso (fun (version, ptys) => ⟨version, ptys⟩) (fun p => (p.version, p.ptys)) fun _ => rfl

def legacyPty : Codec LegacyPty :=
  (str.prod <| (vec str).prod <| i32.prod <| u16.prod <| u16.prod (vec u8)).iso
    (fun (name, command, childPid, cols, rows, screen) => ⟨name, command, childPid, cols, rows, screen⟩)
    (fun p => (p.name, p.command, p.childPid, p.cols, p.rows, p.screen)) fun _ => rfl

def legacyPayload : Codec LegacyPayload :=
  (u32.prod (vec legacyPty)).iso (fun (version, ptys) => ⟨version, ptys⟩) (fun p => (p.version, p.ptys)) fun _ => rfl

def LegacyPty.toPty (p : LegacyPty) : MigratePty where
  name := p.name
  command := p.command
  childPid := p.childPid
  cols := p.cols
  rows := p.rows
  screen := p.screen
  closeDeadline := none

def decoded {α : Type} (r : Except Error α) : Except Failure α := r.mapError .decoding

def decodePayload (bytes : Bytes) : Except Failure MigratePayload := do
  let version ← decoded (fromBytes u32 bytes)
  if version ≠ 1 then decoded (fromBytes migratePayload bytes)
  else
    let legacy ← decoded (fromBytes legacyPayload bytes)
    return ⟨migrateVersion, legacy.ptys.1.map LegacyPty.toPty, by rw [List.length_map]; exact legacy.ptys.2⟩

/-! ## The successor -/

/-- What a receive on the handoff socket returns: nothing yet, a piece of the stream with the
descriptors that ride it, or an error. -/
inductive Recv where
  | wouldBlock
  | data (b : UInt8) (bs : Bytes) (fds : List Fd)
  | fail (e : IoError)

/-- The same receive through a plain read, which leaves the descriptors. -/
def Recv.plain : Recv → Option Event
  | .wouldBlock => none
  | .data b bs _ => some (.data b bs)
  | .fail e => some (.fail e)

def recvBuffer : Nat := 64 * 1024

/-- One `recvmsg`, tried until it returns. Its control buffer has room for `MAX_MIGRATE_FDS`
descriptors; control data cut short is an error. -/
def recvWithFds : List Recv → Except Failure (Bytes × List Fd × List (Option Event))
  | [] => .ok ([], [], [])
  | .wouldBlock :: src => recvWithFds src
  | .fail e :: _ => .error (.receiving e)
  | .data b bs fds :: src =>
    if maxMigrateFds < fds.length then .error (.receiving .other)
    else .ok ((b :: bs).take recvBuffer, fds, (Event.rest ((b :: bs).drop recvBuffer)).map some ++ src.map Recv.plain)

def fill (n : Nat) (buf : Bytes) (src : List (Option Event)) : Except Failure (Bytes × List (Option Event)) :=
  if buf.length < n then
    match Reader.tokio.readExact (n - buf.length) src with
    | (.error e, _) => .error (.receiving e)
    | (.ok more, src) => .ok (buf ++ more.1, src)
  else .ok (buf, src)

def accept (body : Bytes) (fds : List Fd) : Except Failure (List Adopted) := do
  let payload ← decodePayload body
  if payload.version ≠ migrateVersion then
    .error (.refused s!"handoff version {payload.version} != {migrateVersion}")
  else if payload.ptys.1.length ≠ fds.length then
    .error (.refused s!"handoff carried {payload.ptys.1.length} ptys but {fds.length} fds")
  else return List.zipWith Adopted.mk payload.ptys.1 fds

def receive (src : List Recv) : Except Failure (List Adopted) := do
  let (buf, fds, src) ← recvWithFds src
  let (buf, src) ← fill 4 buf src
  let len := leValue (buf.take 4)
  if len = 0 ∨ maxPayloadBytes < len then .error (.refused s!"bad handoff payload length {len}")
  else
    let (body, _) ← fill len (buf.drop 4) src
    accept (body.take len) fds

/-! ## The predecessor -/

/-- A live session as the handoff finds it, with the duplicate of its master where one can be made. -/
structure Live where
  name : Str
  command : Vec Str
  child : Int32
  cols : UInt16
  rows : UInt16
  screen : Vec UInt8
  closeDeadline : Option UInt64
  master : Option Fd

def Live.toPty (s : Live) : MigratePty where
  name := s.name
  command := s.command
  childPid := s.child
  cols := s.cols
  rows := s.rows
  screen := s.screen
  closeDeadline := s.closeDeadline

/-- `[u32 LE length][body]`. -/
def frameMessage (body : Bytes) : Except Failure Bytes :=
  if body.length < 2 ^ 32 then .ok (leBytes 4 body.length ++ body) else .error (.refused "payload too large")

/-- The message and the descriptors that `sendmsg` has taken. The system refuses more than `fdLimit` descriptors; no
byte of the message is sent then. -/
def handOff (fdLimit : Nat) (sessions : List Live) : Except Failure (Bytes × List Fd) :=
  if h : maxMigrateFds < sessions.length then
    .error (.refused s!"{sessions.length} ptys exceeds the {maxMigrateFds} fd handoff cap")
  else
    match sessions.mapM Live.master with
    | none => .error (.refused "dup pty master")
    | some fds =>
      let ptys : Vec MigratePty := ⟨sessions.map Live.toPty, by
        rw [List.length_map]
        exact Nat.lt_of_le_of_lt (Nat.le_of_not_lt h) (by decide)⟩
      (frameMessage (migratePayload.encode ⟨migrateVersion, ptys⟩)).bind fun message =>
        if fdLimit < fds.length then .error (.refused "sendmsg handoff") else .ok (message, fds)

/-- The pieces in which the writes take a message; `cuts` are what they return, the last one
takes what is left. -/
def writeAll : List Nat → Bytes → List Bytes
  | [], m => [m]
  | n :: cuts, m => m.take n :: writeAll cuts (m.drop n)

/-- The descriptors ride the first piece, of `sent` bytes. -/
def sendWithFds (message : Bytes) (fds : List Fd) (sent : Nat) (cuts : List Nat) : List (Bytes × List Fd) :=
  (message.take sent, fds) :: (writeAll cuts (message.drop sent)).map fun piece => (piece, [])

end Mux.Migrate
