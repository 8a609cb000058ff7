import Mux.FrameSound
import Mux.Pane
import Mux.Request

/-!
# The lanes of an attached session

After the handshake both sides write lane frames. The daemon performs the input and the resizes it reads and
logs any other frame; the relay prints the output, acts on the events it can decode and skips the rest. A
connection may end at any byte.
-/

namespace Mux.Lanes

open Lib Lib.Postcard

abbrev LaneFrame := UInt8 × Lib.Bytes

def inLaneInput : UInt8 := 0

def inLaneControl : UInt8 := 1

def outLaneOutput : UInt8 := 1

def outLaneEvents : UInt8 := 2

/-! ## Lane values -/

inductive ClientControl where
  | resize (cols rows : UInt16)
deriving DecidableEq, Repr

inductive ServerEvent where
  | exit (code : Int32)
  | foreground (name : Str)
deriving DecidableEq

def clientControl : Codec ClientControl where
  encode
    | .resize cols rows => variant 0 ((u16.prod u16).encode (cols, rows))
  decode l := do
    let (i, l) ← u32.decode l
    if i = 0 then ((u16.prod u16).decode l).map fun r => (.resize r.1.1 r.1.2, r.2) else .error .badVariant
  size
    | .resize cols rows => (variant 0 ((u16.prod u16).encode (cols, rows))).length
  decode_encode c rest := by
    cases c
    simp only [decode_variant, bind, Except.bind, if_true, Codec.decode_encode, Except.map]
  encode_length c := by
    cases c
    rfl

def encodeEvent : ServerEvent → Lib.Bytes
  | .exit code => variant 0 (i32.encode code)
  | .foreground name => variant 1 (str.encode name)

def decodeEvent (l : Lib.Bytes) : Except Error (ServerEvent × Lib.Bytes) := do
  let (i, l) ← u32.decode l
  match i.toNat with
  | 0 => (i32.decode l).map fun r => (.exit r.1, r.2)
  | 1 => (str.decode l).map fun r => (.foreground r.1, r.2)
  | _ => .error .badVariant

def serverEvent : Codec ServerEvent where
  encode := encodeEvent
  decode := decodeEvent
  size e := (encodeEvent e).length
  decode_encode e rest := by
    unfold decodeEvent
    cases e <;> simp only [encodeEvent, decode_variant, bind, Except.bind, UInt32.reduceToNat, Codec.decode_encode,
      Except.map]
  encode_length _ := rfl

/-! ## Reading a stream of frames -/

/-- Why a loop over `read_lane` stopped; `unread` is a bound on the frames that was reached. -/
inductive Ending where
  | closed
  | failed (e : IoError)
  | unread
deriving DecidableEq

section
variable {σ : Type} (R : Reader σ)

/-- At most `fuel` frames. -/
def readLanes : Nat → σ → List LaneFrame × Ending
  | 0, _ => ([], .unread)
  | fuel + 1, src =>
    match Frame.readLaneOf R src with
    | (.ok none, _) => ([], .closed)
    | (.error e, _) => ([], .failed e)
    | (.ok (some f), src) => ((f :: (readLanes fuel src).1), (readLanes fuel src).2)

/-! ## What the daemon does -/

/-- What the input threads of a relay send, and what a daemon performs. -/
inductive Sent where
  | input (payload : Lib.Bytes)
  | resize (cols rows : UInt16)
deriving DecidableEq, Repr

def Sent.frame : Sent → LaneFrame
  | .input payload => (inLaneInput, payload)
  | .resize cols rows => (inLaneControl, clientControl.encode (.resize cols rows))

/-- `none` is a frame that is only logged: a control value that does not decode, a lane it does not know. -/
def perform (f : LaneFrame) : Option Sent :=
  if f.1 = inLaneInput then some (.input f.2)
  else if f.1 = inLaneControl then
    match fromBytes clientControl f.2 with
    | .ok (.resize cols rows) => some (.resize cols rows)
    | .error _ => none
  else none

/-- `receive` of `handle_open`, with every write to the pty going through. -/
def receive (fuel : Nat) (src : σ) : List Sent := (readLanes R fuel src).1.filterMap perform

/-! ## What the relay does -/

/-- What a daemon forwards to an attached client. -/
inductive Message where
  | output (bytes : Lib.Bytes)
  | exit (code : Int32)
  | foreground (name : Str)
deriving DecidableEq

def Message.frame : Message → LaneFrame
  | .output bytes => (outLaneOutput, bytes)
  | .exit code => (outLaneEvents, serverEvent.encode (.exit code))
  | .foreground name => (outLaneEvents, serverEvent.encode (.foreground name))

/-- `none` is a frame that is skipped. -/
def understand (f : LaneFrame) : Option Message :=
  if f.1 = outLaneOutput then some (.output f.2)
  else if f.1 = outLaneEvents then
    match fromBytes serverEvent f.2 with
    | .ok (.exit code) => some (.exit code)
    | .ok (.foreground name) => some (.foreground name)
    | .error _ => none
  else none

def Message.paneFrame : Message → Pane.Frame
  | .output bytes => .output bytes
  | .exit code => .exit code.toInt
  | .foreground name => .foreground name.1

/-- A frame as `pump` sees it. -/
def paneFrame (f : LaneFrame) : Pane.Frame :=
  match understand f with
  | some m => m.paneFrame
  | none => if f.1 = outLaneEvents then .badEvent else .unknown f.1.toNat

/-- `pump` over the frames of a connection, with a terminal that takes what is printed: why it returns, and
what it has printed by then. -/
def pump (mirror : Bool) (currentAlias : String) : List Pane.Frame → Pane.Relay × Lib.Bytes
  | [] => (.daemonGone, [])
  | f :: fs =>
    match Pane.pump mirror currentAlias true (some f) with
    | some r => (r, [])
    | none =>
      let printed := match f with
        | .output bytes => bytes
        | _ => []
      ((pump mirror currentAlias fs).1, printed ++ (pump mirror currentAlias fs).2)

def pumpFrom (mirror : Bool) (currentAlias : String) (fuel : Nat) (src : σ) : Pane.Relay × Lib.Bytes :=
  pump mirror currentAlias ((readLanes R fuel src).1.map paneFrame)

end

/-! ## Frames on the wire -/

/-- The frames that were written, one after the other. -/
def wireOf : List LaneFrame → Except IoError Lib.Bytes
  | [] => .ok []
  | f :: fs =>
    match Frame.encode f.1 f.2 with
    | .error e => .error e
    | .ok piece => (wireOf fs).map (piece ++ ·)

theorem wireOf_cons {f : LaneFrame} {fs : List LaneFrame} {wire : Lib.Bytes} (h : wireOf (f :: fs) = .ok wire) :
    ∃ piece rest, Frame.encode f.1 f.2 = .ok piece ∧ wireOf fs = .ok rest ∧ wire = piece ++ rest := by
  rw [wireOf] at h
  cases hp : Frame.encode f.1 f.2 with
  | error e => rw [hp] at h; cases h
  | ok piece =>
    rw [hp] at h
    cases hr : wireOf fs with
    | error e => simp only [hr, Except.map] at h; cases h
    | ok rest =>
      simp only [hr, Except.map, Except.ok.injEq] at h
      exact ⟨piece, rest, rfl, rfl, h.symm⟩

section
variable {σ : Type} {R : Reader σ}

theorem readLanes_frame {src : σ} {f : LaneFrame} {piece rest : Lib.Bytes} (hp : Frame.encode f.1 f.2 = .ok piece)
    (hd : R.Delivers src (piece ++ rest)) (fuel : Nat) :
    ∃ src', readLanes R (fuel + 1) src = (f :: (readLanes R fuel src').1, (readLanes R fuel src').2) ∧
      R.Delivers src' rest := by
  obtain ⟨hm, rfl⟩ := Frame.encode_eq_ok hp
  obtain ⟨src', hr, hd'⟩ := Frame.readLane_frame hm hd
  exact ⟨src', by simp only [readLanes, hr], hd'⟩

/-- A frame that is not there whole ends the loop. -/
theorem readLanes_torn {src : σ} {f : LaneFrame} {piece : Lib.Bytes} {k : Nat} (hp : Frame.encode f.1 f.2 = .ok piece)
    (hk : k < piece.length) (hd : R.Delivers src (piece.take k)) (fuel : Nat) :
    (readLanes R (fuel + 1) src).1 = [] := by
  by_cases hh : Frame.headerLen ≤ k
  · have hr := Frame.readLane_torn hp hh hk hd
    generalize hx : Frame.readLaneOf R src = x at hr
    obtain ⟨r, src'⟩ := x
    cases hr
    simp only [readLanes, hx]
  · have hl : (piece.take k).length < Frame.headerLen := by
      rw [List.length_take]
      omega
    have hr := (Frame.readLane_none_iff hd).mpr hl
    generalize hx : Frame.readLaneOf R src = x at hr
    obtain ⟨r, src'⟩ := x
    cases hr
    simp only [readLanes, hx]

theorem readLanes_end {src : σ} (hd : R.Delivers src []) (fuel : Nat) : (readLanes R (fuel + 1) src).1 = [] := by
  have hr := (Frame.readLane_none_iff hd).mpr (by decide)
  generalize hx : Frame.readLaneOf R src = x at hr
  obtain ⟨r, src'⟩ := x
  cases hr
  simp only [readLanes, hx]

/-- Of a stream that is cut at any byte, the frames that are there whole are read, in order. -/
theorem readLanes_cut {fs : List LaneFrame} {wire : Lib.Bytes} {k fuel : Nat} {src : σ} (hw : wireOf fs = .ok wire)
    (hf : fs.length < fuel) (hd : R.Delivers src (wire.take k)) :
    ∃ n, (readLanes R fuel src).1 = fs.take n ∧ (wire.length ≤ k → n = fs.length) := by
  induction fs generalizing wire k fuel src with
  | nil =>
    cases hw
    obtain ⟨fuel, rfl⟩ := Nat.exists_eq_succ_of_ne_zero (Nat.ne_of_gt hf)
    rw [List.take_nil] at hd
    exact ⟨0, by rw [readLanes_end hd, List.take_nil], fun _ => rfl⟩
  | cons f fs ih =>
    obtain ⟨fuel, rfl⟩ := Nat.exists_eq_succ_of_ne_zero (Nat.ne_of_gt (Nat.zero_lt_of_lt hf))
    obtain ⟨piece, rest, hp, hr, rfl⟩ := wireOf_cons hw
    by_cases hk : k < piece.length
    · rw [List.take_append_of_le_length (Nat.le_of_lt hk)] at hd
      refine ⟨0, by rw [readLanes_torn hp hk hd, List.take_zero], ?_⟩
      intro hle
      rw [List.length_append] at hle
      omega
    · rw [List.take_append, List.take_of_length_le (Nat.le_of_not_lt hk)] at hd
      obtain ⟨src', hread, hd'⟩ := readLanes_frame hp hd fuel
      obtain ⟨n, hn, hall⟩ := ih hr (by simpa using hf) hd'
      refine ⟨n + 1, by rw [hread, List.take_succ_cons, hn], ?_⟩
      intro hle
      rw [List.length_append] at hle
      rw [hall (by omega), List.length_cons]

end

/-! ## What each side makes of the other's frames -/

theorem perform_frame (s : Sent) : perform s.frame = some s := by
  cases s with
  | input payload => rfl
  | resize cols rows =>
    have h : fromBytes clientControl (clientControl.encode (.resize cols rows)) = .ok (.resize cols rows) :=
      fromBytes_self _ _
    simp only [perform, Sent.frame, h]
    rfl

theorem understand_frame (m : Message) : understand m.frame = some m := by
  cases m with
  | output bytes => rfl
  | exit code =>
    have h : fromBytes serverEvent (serverEvent.encode (.exit code)) = .ok (.exit code) := fromBytes_self _ _
    simp only [understand, Message.frame, h]
    rfl
  | foreground name =>
    have h : fromBytes serverEvent (serverEvent.encode (.foreground name)) = .ok (.foreground name) :=
      fromBytes_self _ _
    simp only [understand, Message.frame, h]
    rfl

/-- What is left of a list when the elements that mean nothing are passed over. -/
theorem filterMap_take_known {α β : Type} (p : α → Option β) (g : β → α) (hg : ∀ b, p (g b) = some b) {l : List α}
    {bs : List β} (h : l.filter (fun x => (p x).isSome) = bs.map g) (n : Nat) :
    ∃ j, (l.take n).filterMap p = bs.take j ∧ (n = l.length → j = bs.length) := by
  have hall : l.filterMap p = bs := by
    have h1 : l.filterMap p = (l.filter fun x => (p x).isSome).filterMap p := by
      rw [List.filterMap_filter]
      congr 1
      funext x
      cases p x <;> simp
    rw [h1, h, List.filterMap_map]
    have h2 : p ∘ g = some := funext hg
    rw [h2, List.filterMap_some]
  have hpre : (l.take n).filterMap p <+: bs := by
    rw [← hall]
    exact (List.take_prefix n l).filterMap p
  refine ⟨((l.take n).filterMap p).length, List.prefix_iff_eq_take.mp hpre, ?_⟩
  rintro rfl
  rw [List.take_length, hall]

theorem pump_skip (mirror : Bool) (currentAlias : String) {f : LaneFrame} (h : understand f = none)
    (fs : List Pane.Frame) : pump mirror currentAlias (paneFrame f :: fs) = pump mirror currentAlias fs := by
  have hf : paneFrame f = .badEvent ∨ paneFrame f = .unknown f.1.toNat := by
    simp only [paneFrame, h]
    by_cases he : f.1 = outLaneEvents <;> simp [he]
  rcases hf with hf | hf <;> rw [hf] <;> rfl

/-- The frames that mean nothing to the relay do not show in what it does. -/
theorem pump_frames (mirror : Bool) (currentAlias : String) (fs : List LaneFrame) :
    pump mirror currentAlias (fs.map paneFrame) =
      pump mirror currentAlias ((fs.filterMap understand).map Message.paneFrame) := by
  induction fs with
  | nil => rfl
  | cons f fs ih =>
    rw [List.map_cons, List.filterMap_cons]
    cases h : understand f with
    | none => rw [pump_skip mirror currentAlias h, ih]
    | some m =>
      have hf : paneFrame f = m.paneFrame := by simp only [paneFrame, h]
      simp only [hf, List.map_cons, pump, ih]

/-! ## A session over any connection -/

/-- The two directions of a session. Among the frames `fs` of each are the ones this version knows, in order;
the others are of a version that knows more. -/
structure Session {σ : Type} (R : Reader σ) : Prop where
  receives : ∀ (sends : List Sent) (fs : List LaneFrame) (wire : Lib.Bytes), wireOf fs = .ok wire →
    fs.filter (fun f => (perform f).isSome) = sends.map Sent.frame →
      ∀ (k fuel : Nat) (src : σ), fs.length < fuel → R.Delivers src (wire.take k) →
        ∃ n, receive R fuel src = sends.take n ∧ (wire.length ≤ k → n = sends.length)
  relays : ∀ (messages : List Message) (fs : List LaneFrame) (wire : Lib.Bytes), wireOf fs = .ok wire →
    fs.filter (fun f => (understand f).isSome) = messages.map Message.frame →
      ∀ (mirror : Bool) (currentAlias : String) (k fuel : Nat) (src : σ), fs.length < fuel →
        R.Delivers src (wire.take k) → ∃ n, pumpFrom R mirror currentAlias fuel src =
          pump mirror currentAlias ((messages.take n).map Message.paneFrame) ∧ (wire.length ≤ k → n = messages.length)

theorem session_lanes {σ : Type} (R : Reader σ) : Session R where
  receives := by
    intro sends fs wire hw hk k fuel src hf hd
    obtain ⟨n, hn, hall⟩ := readLanes_cut hw hf hd
    obtain ⟨j, hj, hlen⟩ := filterMap_take_known perform Sent.frame perform_frame hk n
    refine ⟨j, ?_, fun hle => hlen (hall hle)⟩
    rw [receive, hn, hj]
  relays := by
    intro messages fs wire hw hk mirror currentAlias k fuel src hf hd
    obtain ⟨n, hn, hall⟩ := readLanes_cut hw hf hd
    obtain ⟨j, hj, hlen⟩ := filterMap_take_known understand Message.frame understand_frame hk n
    refine ⟨j, ?_, fun hle => hlen (hall hle)⟩
    rw [pumpFrom, hn, pump_frames, hj]

end Mux.Lanes
