import Mux.Lib.Postcard

/-!
# Replies of the peer protocol

A daemon answers a handshake with `Result<Opened, OpenError>`. Version 5 answered
`Result<Opened, String>`. `OpenError` puts its text first, so that a client of version 5 reads it and leaves
the kind; `decode_open_reply` reads both forms, the older one where the newer one does not decode.
-/

namespace Mux.Peer

open Lib Lib.Postcard

structure AgentInfo where
  agent : Str
  state : Str
  topic : Str
deriving DecidableEq

structure PtyInfo where
  name : Str
  command : Vec Str
  attached : Bool
  exited : Bool
  cwd : Option Str
  agent : Option AgentInfo
deriving DecidableEq

structure PtySnapshot where
  name : Str
  generation : Str
  revision : UInt64
  inputRevision : UInt64
  pid : Int32
  foregroundPgid : Option Int32
  cols : UInt16
  rows : UInt16
  cursorRow : UInt16
  cursorCol : UInt16
  text : Vec Str
  cwd : Option Str
  agent : Option AgentInfo
  exited : Bool
deriving DecidableEq

inductive Opened where
  | attached (name : Str) (created : Bool)
  | listed (ptys : Vec PtyInfo)
  | killed (existed : Bool)
  | watching
  | inspected (snapshot : PtySnapshot)
  | observing
  | inputWritten (bytes inputRevision : UInt64)
  | closed (expiresAtMs : UInt64)
  | connected
  | audio (token : UInt64)
  | audioProvider
deriving DecidableEq

inductive ErrorKind where
  | unreachable
  | pinMismatch
  | tokenRejected
  | versionMismatch
  | noHost
  | other
deriving DecidableEq, Repr

structure OpenError where
  detail : Str
  kind : ErrorKind
deriving DecidableEq

abbrev OpenReply := Except OpenError Opened

abbrev V5Reply := Except Str Opened

def v5VersionMismatch : String := "protocol version mismatch"

/-! ## Layouts -/

def agentInfo : Codec AgentInfo :=
  (str.prod <| str.prod str).iso (fun (agent, state, topic) => ⟨agent, state, topic⟩)
    (fun a => (a.agent, a.state, a.topic)) fun _ => rfl

def ptyInfo : Codec PtyInfo :=
  (str.prod <| (vec str).prod <| bool.prod <| bool.prod <| (option str).prod (option agentInfo)).iso
    (fun (name, command, attached, exited, cwd, agent) => ⟨name, command, attached, exited, cwd, agent⟩)
    (fun p => (p.name, p.command, p.attached, p.exited, p.cwd, p.agent)) fun _ => rfl

def ptySnapshot : Codec PtySnapshot :=
  (str.prod <| str.prod <| u64.prod <| u64.prod <| i32.prod <| (option i32).prod <| u16.prod <| u16.prod <| u16.prod <|
    u16.prod <| (vec str).prod <| (option str).prod <| (option agentInfo).prod bool).iso
    (fun (name, generation, revision, inputRevision, pid, foregroundPgid, cols, rows, cursorRow, cursorCol, text, cwd, agent,
      exited) => ⟨name, generation, revision, inputRevision, pid, foregroundPgid, cols, rows, cursorRow, cursorCol, text, cwd,
      agent, exited⟩)
    (fun p => (p.name, p.generation, p.revision, p.inputRevision, p.pid, p.foregroundPgid, p.cols, p.rows, p.cursorRow,
      p.cursorCol, p.text, p.cwd, p.agent, p.exited)) fun _ => rfl

def encodeOpened : Opened → Bytes
  | .attached name created => variant 0 ((str.prod bool).encode (name, created))
  | .listed ptys => variant 1 ((vec ptyInfo).encode ptys)
  | .killed existed => variant 2 (bool.encode existed)
  | .watching => variant 3 []
  | .inspected snapshot => variant 4 (ptySnapshot.encode snapshot)
  | .observing => variant 5 []
  | .inputWritten bytes inputRevision => variant 6 ((u64.prod u64).encode (bytes, inputRevision))
  | .closed expiresAtMs => variant 7 (u64.encode expiresAtMs)
  | .connected => variant 8 []
  | .audio token => variant 9 (u64.encode token)
  | .audioProvider => variant 10 []

def decodeOpened (l : Bytes) : Except Error (Opened × Bytes) := do
  let (i, l) ← u32.decode l
  match i.toNat with
  | 0 => ((str.prod bool).decode l).map fun r => (.attached r.1.1 r.1.2, r.2)
  | 1 => ((vec ptyInfo).decode l).map fun r => (.listed r.1, r.2)
  | 2 => (bool.decode l).map fun r => (.killed r.1, r.2)
  | 3 => .ok (.watching, l)
  | 4 => (ptySnapshot.decode l).map fun r => (.inspected r.1, r.2)
  | 5 => .ok (.observing, l)
  | 6 => ((u64.prod u64).decode l).map fun r => (.inputWritten r.1.1 r.1.2, r.2)
  | 7 => (u64.decode l).map fun r => (.closed r.1, r.2)
  | 8 => .ok (.connected, l)
  | 9 => (u64.decode l).map fun r => (.audio r.1, r.2)
  | 10 => .ok (.audioProvider, l)
  | _ => .error .badVariant

theorem decodeOpened_encodeOpened (o : Opened) (rest : Bytes) :
    decodeOpened (encodeOpened o ++ rest) = .ok (o, rest) := by
  unfold decodeOpened
  cases o <;> simp only [encodeOpened, decode_variant, bind, Except.bind, UInt32.reduceToNat, Codec.decode_encode, Except.map,
    List.nil_append]

def opened : Codec Opened where
  encode := encodeOpened
  decode := decodeOpened
  size o := (encodeOpened o).length
  decode_encode := decodeOpened_encodeOpened
  encode_length _ := rfl

def ErrorKind.index : ErrorKind → UInt32
  | .unreachable => 0
  | .pinMismatch => 1
  | .tokenRejected => 2
  | .versionMismatch => 3
  | .noHost => 4
  | .other => 5

def decodeErrorKind (l : Bytes) : Except Error (ErrorKind × Bytes) := do
  let (i, l) ← u32.decode l
  match i.toNat with
  | 0 => .ok (.unreachable, l)
  | 1 => .ok (.pinMismatch, l)
  | 2 => .ok (.tokenRejected, l)
  | 3 => .ok (.versionMismatch, l)
  | 4 => .ok (.noHost, l)
  | 5 => .ok (.other, l)
  | _ => .error .badVariant

def errorKind : Codec ErrorKind where
  encode k := variant k.index []
  decode := decodeErrorKind
  size k := u32.size k.index
  decode_encode k rest := by
    unfold decodeErrorKind
    cases k <;> simp only [decode_variant, bind, Except.bind, ErrorKind.index, UInt32.reduceToNat, List.nil_append]
  encode_length k := by
    rw [variant, List.append_nil, u32.encode_length]

/-- The text goes first. -/
def openError : Codec OpenError :=
  (str.prod errorKind).iso (fun (detail, kind) => ⟨detail, kind⟩) (fun e => (e.detail, e.kind)) fun _ => rfl

def openReply : Codec OpenReply := result opened openError

def v5Reply : Codec V5Reply := result opened str

/-! ## Decoding a reply -/

def OpenError.new (kind : ErrorKind) (detail : Str) : OpenError := ⟨detail, kind⟩

def decodeOpenReply (bytes : Bytes) : Except Error OpenReply :=
  match fromBytes openReply bytes with
  | .ok reply => .ok reply
  | .error e =>
    match fromBytes v5Reply bytes with
    | .ok (.error detail) =>
      let kind := if detail.1.startsWith v5VersionMismatch then ErrorKind.versionMismatch else .other
      .ok (.error (.new kind detail))
    | _ => .error e

theorem decodeOpenReply_encode (r : OpenReply) : decodeOpenReply (openReply.encode r) = .ok r := by
  rw [decodeOpenReply, fromBytes_self]

/-- The bytes of a v5 rejection end where the kind should be. -/
theorem openReply_v5_rejection (s : Str) :
    fromBytes openReply (v5Reply.encode (.error s)) = .error .unexpectedEnd := by
  have hs := str.decode_encode s []
  rw [List.append_nil] at hs
  have hv := decode_variant 1 (str.encode s) []
  simp only [List.append_nil] at hv
  have hk : decodeErrorKind [] = .error .unexpectedEnd := rfl
  simp only [fromBytes, openReply, v5Reply, result, hv, bind, Except.bind]
  rw [if_neg (by decide), if_pos trivial]
  simp only [openError, Codec.iso, Codec.prod, hs, bind, Except.bind, errorKind, hk, Except.map]

theorem decodeOpenReply_v5_rejection (s : Str) : decodeOpenReply (v5Reply.encode (.error s)) =
    .ok (.error (.new (if s.1.startsWith v5VersionMismatch then .versionMismatch else .other) s)) := by
  rw [decodeOpenReply, openReply_v5_rejection, fromBytes_self]

/-- A v5 client reads the text and leaves the kind. -/
theorem v5_reads_detail (e : OpenError) :
    fromBytes v5Reply (openReply.encode (.error e)) = .ok (.error e.detail) := by
  have : openReply.encode (.error e) = v5Reply.encode (.error e.detail) ++ errorKind.encode e.kind := by
    simp only [openReply, v5Reply, result, openError, Codec.iso, Codec.prod, variant, List.append_assoc]
  rw [this, fromBytes_encode]

theorem cross_version_replies :
    (∀ r : OpenReply, decodeOpenReply (openReply.encode r) = .ok r) ∧
    (∀ s : Str, ∃ kind, decodeOpenReply (v5Reply.encode (.error s)) = .ok (.error ⟨s, kind⟩) ∧
      (v5VersionMismatch.toList <+: s.1.toList → kind = .versionMismatch) ∧
      (¬ v5VersionMismatch.toList <+: s.1.toList → kind = .other)) ∧
    ∀ e : OpenError, fromBytes v5Reply (openReply.encode (.error e)) = .ok (.error e.detail) := by
  refine ⟨decodeOpenReply_encode, ?_, v5_reads_detail⟩
  intro s
  refine ⟨_, decodeOpenReply_v5_rejection s, ?_, ?_⟩
  · intro h
    rw [if_pos (String.startsWith_string_iff.mpr h)]
  · intro h
    rw [if_neg (fun hs => h (String.startsWith_string_iff.mp hs))]

end Mux.Peer
