import Mux.Lib.Reader

/-!
# The two envelopes on the wire

A lane frame is `[u32 LE length][u8 lane][payload]`, where the length counts the lane byte and
the payload. A message is `[u32 LE length][bytes]`, the envelope of the handshake. The readers
are one text over `Lib.Reader`: the blocking ones over the standard library's loop, those of
`aio` over tokio's.
-/

namespace Mux.Frame

open Lib

def maxFrameSize : Nat := 64 * 1024 * 1024

def maxRequestBytes : Nat := 1024 * 1024

def headerLen : Nat := 5

def u32TryFrom (n : Nat) : Option Nat := if n < 2 ^ 32 then some n else none

def u32CheckedAdd (a b : Nat) : Option Nat := if a + b < 2 ^ 32 then some (a + b) else none

def encode (lane : UInt8) (payload : Bytes) : Except IoError Bytes :=
  match ((u32TryFrom payload.length).bind fun n => u32CheckedAdd n 1).filter fun n => n ≤ maxFrameSize with
  | some len => .ok (leBytes 4 len ++ lane :: payload)
  | none => .error (.invalidData s!"frame payload {payload.length} exceeds {maxFrameSize}")

def parseHeader (bytes : Block headerLen) : Except IoError (UInt8 × Nat) :=
  let len := leValue (bytes.1.take 4)
  if len = 0 then .error (.invalidData "zero-length frame (missing lane byte)")
  else if maxFrameSize < len then .error (.invalidData s!"frame length {len} exceeds {maxFrameSize}")
  else .ok (bytes.1.get ⟨4, by rw [bytes.2]; decide⟩, len - 1)

def encodeMessage (bytes : Bytes) : Except IoError Bytes :=
  match (u32TryFrom bytes.length).filter fun n => 0 < n ∧ n ≤ maxRequestBytes with
  | some len => .ok (leBytes 4 len ++ bytes)
  | none => .error (.invalidData s!"bad message length {bytes.length}")

def parseMessageLen (bytes : Block 4) : Except IoError Nat :=
  let len := leValue bytes.1
  if len = 0 ∨ maxRequestBytes < len then .error (.invalidData s!"bad message length {len}") else .ok len

/-! ## Writers

The blocking writers and those of `aio` both hand the encoding to `write_all`; on a buffer it
is appended. -/

def writeLane (w : Bytes) (lane : UInt8) (payload : Bytes) : Except IoError Bytes :=
  (encode lane payload).map (w ++ ·)

def writeMessage (w : Bytes) (bytes : Bytes) : Except IoError Bytes := (encodeMessage bytes).map (w ++ ·)

/-! ## Readers -/

section
variable {σ : Type} (R : Reader σ)

def readLaneOf (src : σ) : Except IoError (Option (UInt8 × Bytes)) × σ :=
  match R.readExact headerLen src with
  -- the end of the stream, wherever in the header it falls
  | (.error .unexpectedEof, src) => (.ok none, src)
  | (.error e, src) => (.error e, src)
  | (.ok header, src) =>
    match parseHeader header with
    | .error e => (.error e, src)
    | .ok (lane, len) =>
      match R.readExact len src with
      | (.error e, src) => (.error e, src)
      | (.ok payload, src) => (.ok (some (lane, payload.1)), src)

def readMessageOf (src : σ) : Except IoError Bytes × σ :=
  match R.readExact 4 src with
  | (.error e, src) => (.error e, src)
  | (.ok pre, src) =>
    match parseMessageLen pre with
    | .error e => (.error e, src)
    | .ok len =>
      match R.readExact len src with
      | (.error e, src) => (.error e, src)
      | (.ok body, src) => (.ok body.1, src)

end

def readLane (src : List Event) : Except IoError (Option (UInt8 × Bytes)) × List Event := readLaneOf Reader.std src

def readMessage (src : List Event) : Except IoError Bytes × List Event := readMessageOf Reader.std src

namespace Aio

def readLane (src : List (Option Event)) : Except IoError (Option (UInt8 × Bytes)) × List (Option Event) :=
  readLaneOf Reader.tokio src

def readMessage (src : List (Option Event)) : Except IoError Bytes × List (Option Event) :=
  readMessageOf Reader.tokio src

end Aio

/-! ## A conversation

Frames and messages in any order, written one after the other and read back in that order. -/

inductive Item where
  | lane (lane : UInt8) (payload : Bytes)
  | message (bytes : Bytes)
deriving DecidableEq, Repr

inductive Kind where
  | lane
  | message
deriving DecidableEq, Repr

def Item.kind : Item → Kind
  | .lane .. => .lane
  | .message _ => .message

def Item.encode : Item → Except IoError Bytes
  | .lane n payload => Frame.encode n payload
  | .message bytes => encodeMessage bytes

def Item.write (w : Bytes) : Item → Except IoError Bytes
  | .lane n payload => writeLane w n payload
  | .message bytes => writeMessage w bytes

def Item.Fits : Item → Prop
  | .lane _ payload => 1 + payload.length ≤ maxFrameSize
  | .message bytes => 1 ≤ bytes.length ∧ bytes.length ≤ maxRequestBytes

def writeItems (items : List Item) : Except IoError Bytes := items.foldlM Item.write []

section
variable {σ : Type} (R : Reader σ)

def readItem (src : σ) : Kind → Except IoError (Option Item) × σ
  | .lane => ((readLaneOf R src).1.map fun r => r.map fun f => .lane f.1 f.2, (readLaneOf R src).2)
  | .message => ((readMessageOf R src).1.map fun m => some (.message m), (readMessageOf R src).2)

def readItems (src : σ) : List Kind → List (Except IoError (Option Item)) × σ
  | [] => ([], src)
  | k :: ks =>
    let (r, src) := readItem R src k
    let (rs, src) := readItems src ks
    (r :: rs, src)

end

end Mux.Frame
