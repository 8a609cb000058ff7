import Mux.Frame
import Mux.Peer
import Mux.Tokens

/-!
# Requests of the peer protocol

A connection begins with one message, an `OpenRequest`. Its first field is the client's version, so that a
daemon that cannot decode the rest still answers with the version it read. Every mode was added in some
version, and a request must carry at least that one.
-/

namespace Mux.Request

open Lib Lib.Postcard Peer

def protocolVersion : UInt32 := 13

structure PtyInput where
  generation : Str
  revision : UInt64
  inputRevision : UInt64
  foregroundPgid : Int32
  data : Vec UInt8
deriving DecidableEq

/-- `audio::Request` -/
structure AudioRequest where
  id : UInt64
  name : Str
  attachment : UInt64
deriving DecidableEq

inductive OpenMode where
  | openTerm (name : Str) (cwd : Option Str) (command : Vec Str) (cwdFrom : Option Str)
  | list
  | kill (name : Str)
  | watch
  | attach (name : Str)
  | inspect (name : Str)
  | observe (name : Str)
  | input (name : Str) (input : PtyInput)
  | close (name : Str)
  | reopen (name : Str)
  | connect (path : Str)
  | audio (name : Str)
  | audioProvider
  | audioAcquire (request : AudioRequest)
deriving DecidableEq

structure OpenRequest where
  version : UInt32
  cols : UInt16
  rows : UInt16
  term : Option Str
  token : Option Str
  target : Option Str
  mode : OpenMode
deriving DecidableEq

/-! ## Layouts -/

def ptyInput : Codec PtyInput :=
  (str.prod <| u64.prod <| u64.prod <| i32.prod (vec u8)).iso
    (fun (generation, revision, inputRevision, foregroundPgid, data) =>
      ⟨generation, revision, inputRevision, foregroundPgid, data⟩)
    (fun i => (i.generation, i.revision, i.inputRevision, i.foregroundPgid, i.data)) fun _ => rfl

def audioRequest : Codec AudioRequest :=
  (u64.prod <| str.prod u64).iso (fun (id, name, attachment) => ⟨id, name, attachment⟩)
    (fun r => (r.id, r.name, r.attachment)) fun _ => rfl

/-- What an `Open` carries. -/
def openFields : Codec (Str × Option Str × Vec Str × Option Str) :=
  str.prod <| (option str).prod <| (vec str).prod (option str)

def encodeMode : OpenMode → Lib.Bytes
  | .openTerm name cwd command cwdFrom => variant 0 (openFields.encode (name, cwd, command, cwdFrom))
  | .list => variant 1 []
  | .kill name => variant 2 (str.encode name)
  | .watch => variant 3 []
  | .attach name => variant 4 (str.encode name)
  | .inspect name => variant 5 (str.encode name)
  | .observe name => variant 6 (str.encode name)
  | .input name input => variant 7 ((str.prod ptyInput).encode (name, input))
  | .close name => variant 8 (str.encode name)
  | .reopen name => variant 9 (str.encode name)
  | .connect path => variant 10 (str.encode path)
  | .audio name => variant 11 (str.encode name)
  | .audioProvider => variant 12 []
  | .audioAcquire request => variant 13 (audioRequest.encode request)

def decodeMode (l : Lib.Bytes) : Except Error (OpenMode × Lib.Bytes) := do
  let (i, l) ← u32.decode l
  match i.toNat with
  | 0 => (openFields.decode l).map fun r => (.openTerm r.1.1 r.1.2.1 r.1.2.2.1 r.1.2.2.2, r.2)
  | 1 => .ok (.list, l)
  | 2 => (str.decode l).map fun r => (.kill r.1, r.2)
  | 3 => .ok (.watch, l)
  | 4 => (str.decode l).map fun r => (.attach r.1, r.2)
  | 5 => (str.decode l).map fun r => (.inspect r.1, r.2)
  | 6 => (str.decode l).map fun r => (.observe r.1, r.2)
  | 7 => ((str.prod ptyInput).decode l).map fun r => (.input r.1.1 r.1.2, r.2)
  | 8 => (str.decode l).map fun r => (.close r.1, r.2)
  | 9 => (str.decode l).map fun r => (.reopen r.1, r.2)
  | 10 => (str.decode l).map fun r => (.connect r.1, r.2)
  | 11 => (str.decode l).map fun r => (.audio r.1, r.2)
  | 12 => .ok (.audioProvider, l)
  | 13 => (audioRequest.decode l).map fun r => (.audioAcquire r.1, r.2)
  | _ => .error .badVariant

theorem decodeMode_encodeMode (m : OpenMode) (rest : Lib.Bytes) : decodeMode (encodeMode m ++ rest) = .ok (m, rest) := by
  unfold decodeMode
  cases m <;> simp only [encodeMode, decode_variant, bind, Except.bind, UInt32.reduceToNat, Codec.decode_encode, Except.map,
    List.nil_append]

def openMode : Codec OpenMode where
  encode := encodeMode
  decode := decodeMode
  size m := (encodeMode m).length
  decode_encode := decodeMode_encodeMode
  encode_length _ := rfl

/-- The version goes first. -/
def openRequest : Codec OpenRequest :=
  (u32.prod <| u16.prod <| u16.prod <| (option str).prod <| (option str).prod <| (option str).prod openMode).iso
    (fun (version, cols, rows, term, token, target, mode) => ⟨version, cols, rows, term, token, target, mode⟩)
    (fun r => (r.version, r.cols, r.rows, r.term, r.token, r.target, r.mode)) fun _ => rfl

/-! ## The version a request must carry -/

def OpenMode.minimum : OpenMode → UInt32
  | .openTerm .. | .list | .kill _ | .watch => 7
  | .attach _ => 8
  | .close _ | .reopen _ => 10
  | .inspect _ | .observe _ | .input .. => 9
  | .connect _ => 11
  | .audio _ => 12
  | .audioProvider | .audioAcquire _ => 13

/-- `7..=PROTOCOL_VERSION` -/
def spoken (version : UInt32) : Bool := decide (7 ≤ version ∧ version ≤ protocolVersion)

/-- A request, or the version of a client this daemon cannot speak to. -/
abbrev Handshake := Except UInt32 OpenRequest

/-- `read_request` on the bytes of the message. -/
def handshake (buf : Lib.Bytes) : Except Error Handshake :=
  match fromBytes u32 buf with
  | .error e => .error e
  | .ok version =>
    if spoken version then
      match fromBytes openRequest buf with
      | .error e => .error e
      | .ok request => if version < request.mode.minimum then .ok (.error version) else .ok (.ok request)
    else .ok (.error version)

inductive ReadError where
  | io (e : IoError)
  | postcard (e : Error)
deriving DecidableEq

def readRequest {σ : Type} (R : Reader σ) (src : σ) : Except ReadError Handshake × σ :=
  match Frame.readMessageOf R src with
  | (.error e, src) => (.error (.io e), src)
  | (.ok buf, src) =>
    match handshake buf with
    | .error e => (.error (.postcard e), src)
    | .ok h => (.ok h, src)

/-! ## The answer to a version this daemon does not speak -/

def outLaneOpened : UInt8 := 0

def mismatch (version : UInt32) : String :=
  s!"protocol version mismatch: daemon v{protocolVersion.toNat}, client v{version.toNat} - upgrade or restart the daemon (muxd --upgrade)"

/-- The text of version 5 goes first, for a client of that version. -/
theorem mismatch_eq (version : UInt32) : mismatch version = v5VersionMismatch ++
    (": daemon v13, client v" ++ version.toNat.repr ++ " - upgrade or restart the daemon (muxd --upgrade)") := by
  have h : "protocol version mismatch: daemon v" ++ protocolVersion.toNat.repr ++ ", client v" =
      v5VersionMismatch ++ ": daemon v13, client v" := by decide +kernel
  show "protocol version mismatch: daemon v" ++ protocolVersion.toNat.repr ++ ", client v" ++ version.toNat.repr ++
    " - upgrade or restart the daemon (muxd --upgrade)" = _
  rw [h]
  simp only [String.append_assoc]

theorem repr_size (n : UInt32) : n.toNat.repr.utf8ByteSize ≤ 40 := by
  have hl : n.toNat.repr.length ≤ 10 :=
    (Nat.length_repr_le_iff (by decide)).mpr (Nat.lt_of_lt_of_le n.toNat_lt (by decide))
  have := utf8ByteSize_le n.toNat.repr
  omega

theorem mismatch_size (version : UInt32) : (mismatch version).utf8ByteSize ≤ 140 := by
  have h := repr_size version
  have e : v5VersionMismatch.utf8ByteSize + (": daemon v13, client v".utf8ByteSize +
    " - upgrade or restart the daemon (muxd --upgrade)".utf8ByteSize) ≤ 100 := by decide +kernel
  rw [mismatch_eq, String.utf8ByteSize_append, String.utf8ByteSize_append, String.utf8ByteSize_append]
  omega

def mismatchError (version : UInt32) : OpenError :=
  .new .versionMismatch ⟨mismatch version, by have := mismatch_size version; omega⟩

/-- `reply` on the opened lane. -/
def reply (r : OpenReply) : Except IoError Lib.Bytes := Frame.encode outLaneOpened (openReply.encode r)

end Mux.Request
