import Mux.Geometry
import Mux.Lib.Uuid
import Mux.Window

/-!
# The state file

What `Codable` writes for a snapshot and reads back from a file. A document is a JSON value;
its text is Foundation's, given by `JsonText`. Keyed containers are written in the order of
their keys, a dictionary of panes as a flat array in whatever order it is iterated.
-/

namespace Mux.Tiling

open Lib

inductive Json where
  | null
  | bool (b : Bool)
  | num (n : Rat)
  | str (s : String)
  | arr (l : List Json)
  | obj (fields : List (String × Json))

namespace Json

def field (j : Json) (key : String) : Option Json :=
  match j with
  | .obj fields => fields.lookup key
  | _ => none

/-- `decodeIfPresent`: absent and null are the same. -/
def present (j : Json) (key : String) : Option Json :=
  match j.field key with
  | some .null => none
  | other => other

def asString : Json → Option String
  | .str s => some s
  | _ => none

def asUuid (j : Json) : Option Nat := j.asString.bind uuidOf

def asBool : Json → Option Bool
  | .bool b => some b
  | _ => none

def asDouble : Json → Option Rat
  | .num n => some n
  | _ => none

def asInt : Json → Option Int
  | .num n => if n.den = 1 then some n.num else none
  | _ => none

/-- A date is read down to a whole tick. -/
def asDate : Json → Option Nat
  | .num n => some n.floor.toNat
  | _ => none

def asArray : Json → Option (List Json)
  | .arr l => some l
  | _ => none

/-- A value that may be missing, and that has to be well formed where it is not. -/
def optional {α : Type} (read : Json → Option α) (j : Json) (key : String) : Option (Option α) :=
  match j.present key with
  | none => some none
  | some v => (read v).map some

theorem sizeOf_field {j v : Json} {key : String} (h : j.field key = some v) : sizeOf v < sizeOf j := by
  cases j with
  | obj fields =>
    obtain ⟨l₁, l₂, hsplit, -⟩ := List.lookup_eq_some_iff.mp h
    have hmem : (key, v) ∈ fields := by simp [hsplit]
    have h1 := List.sizeOf_lt_of_mem hmem
    simp only [Prod.mk.sizeOf_spec] at h1
    simp only [obj.sizeOf_spec]
    omega
  | _ => cases h

end Json

/-! ## Trees -/

def SplitDirection.rawValue : SplitDirection → String
  | .horizontal => "horizontal"
  | .vertical => "vertical"

def SplitDirection.ofRaw (s : String) : Option SplitDirection :=
  if s = "horizontal" then some .horizontal else if s = "vertical" then some .vertical else none

def SplitNode.encode : SplitNode → Json
  | .leaf id => .obj [("leaf", .obj [("_0", .str (uuidString id))])]
  | .split d r first second =>
    .obj [("split", .obj [("_0", .obj [("direction", .str d.rawValue), ("first", first.encode), ("ratio", .num r),
      ("second", second.encode)])])]

/-- An enum is an object with the one key of its case. -/
def SplitNode.decode (j : Json) : Option SplitNode :=
  match j.field "leaf", _hs : j.field "split" with
  | some l, none => (((l.field "_0").bind Json.asUuid).map SplitNode.leaf)
  | none, some s =>
    match _hb : s.field "_0" with
    | none => none
    | some b =>
      match _hf : b.field "first", _hn : b.field "second" with
      | some f, some n => do
        let d ← ((b.field "direction").bind Json.asString).bind SplitDirection.ofRaw
        let r ← (b.field "ratio").bind Json.asDouble
        let first ← SplitNode.decode f
        let second ← SplitNode.decode n
        return .split d r first second
      | _, _ => none
  | _, _ => none
termination_by sizeOf j
decreasing_by
  · have := Json.sizeOf_field _hs
    have := Json.sizeOf_field _hb
    have := Json.sizeOf_field _hf
    omega
  · have := Json.sizeOf_field _hs
    have := Json.sizeOf_field _hb
    have := Json.sizeOf_field _hn
    omega

/-! ## Panes and sessions -/

/-- `encodeIfPresent`. -/
def optionalField {α : Type} (key : String) (write : α → Json) (v : Option α) : List (String × Json) :=
  match v with
  | some a => [(key, write a)]
  | none => []

def uuidJson (id : Nat) : Json := .str (uuidString id)

def intJson (n : Int) : Json := .num (Rat.ofInt n)

def dateJson (n : Nat) : Json := .num (Rat.ofInt (Int.ofNat n))

def PaneSnapshot.encode (p : PaneSnapshot) : Json :=
  .obj (optionalField "cwd" Json.str p.cwd ++ optionalField "fontDelta" intJson p.fontDelta ++
    optionalField "requireExisting" Json.bool p.requireExisting ++ optionalField "target" Json.str p.target)

def PaneSnapshot.decode (j : Json) : Option PaneSnapshot :=
  match j with
  | .obj _ => do
    let cwd ← j.optional Json.asString "cwd"
    let target ← j.optional Json.asString "target"
    let fontDelta ← j.optional Json.asInt "fontDelta"
    let requireExisting ← j.optional Json.asBool "requireExisting"
    return ⟨cwd, target, fontDelta, requireExisting⟩
  | _ => none

/-- Keys and values in turn. -/
def encodePanes (panes : List (PaneId × PaneSnapshot)) : Json :=
  .arr (panes.flatMap fun e => [uuidJson e.1, e.2.encode])

def decodePairs : List Json → Option (List (PaneId × PaneSnapshot))
  | [] => some []
  | [_] => none
  | k :: v :: rest => do
    let id ← k.asUuid
    let pane ← PaneSnapshot.decode v
    let more ← decodePairs rest
    return (id, pane) :: more

/-- A later value for a key takes the place of an earlier one. -/
def toDictionary (pairs : List (PaneId × PaneSnapshot)) : List (PaneId × PaneSnapshot) :=
  pairs.foldl (fun d e => d.filter (fun q => !(q.1 == e.1)) ++ [e]) []

def decodePanes (j : Json) : Option (List (PaneId × PaneSnapshot)) :=
  j.asArray.bind fun l => (decodePairs l).map toDictionary

def SessionSnapshot.encode (s : SessionSnapshot) : Json :=
  .obj (optionalField "focused" uuidJson s.focused ++ [("panes", encodePanes s.panes), ("tree", s.tree.encode)] ++
    optionalField "zoomed" uuidJson s.zoomed)

def SessionSnapshot.decode (j : Json) : Option SessionSnapshot := do
  let tree ← (j.field "tree").bind SplitNode.decode
  let panes ← (j.field "panes").bind decodePanes
  let focused ← j.optional Json.asUuid "focused"
  let zoomed ← j.optional Json.asUuid "zoomed"
  return ⟨tree, panes, focused, zoomed⟩

def Entry.encode (e : Entry) : Json :=
  .obj (optionalField "expiresAt" dateJson e.expiresAt ++
    [("id", uuidJson e.id), ("pane", e.pane.encode)])

def Entry.decode (j : Json) : Option Entry := do
  let id ← (j.field "id").bind Json.asUuid
  let pane ← (j.field "pane").bind PaneSnapshot.decode
  let expiresAt ← j.optional Json.asDate "expiresAt"
  return ⟨id, pane, expiresAt⟩

/-! ## Windows -/

/-- A window's snapshot with the frame, which only the file has. -/
structure SavedWindow where
  frame : List Rat
  window : WindowSnapshot
deriving DecidableEq

def decodeList {α : Type} (read : Json → Option α) (j : Json) : Option (List α) := j.asArray.bind fun l => l.mapM read

def SavedWindow.encode (w : SavedWindow) : Json :=
  .obj ([("activeSession", intJson w.window.activeSession)] ++
    optionalField "closedPanes" (fun l : List Entry => .arr (l.map Entry.encode)) w.window.closedPanes ++
    [("frame", .arr (w.frame.map Json.num)), ("id", uuidJson w.window.id),
      ("sessions", .arr (w.window.sessions.map SessionSnapshot.encode))])

/-- `draw` is the id of a window that has none. -/
def SavedWindow.decode (draw : Nat) (j : Json) : Option SavedWindow := do
  let id ← j.optional Json.asUuid "id"
  let frame ← (j.field "frame").bind (decodeList Json.asDouble)
  let sessions ← (j.field "sessions").bind (decodeList SessionSnapshot.decode)
  let activeSession ← (j.field "activeSession").bind Json.asInt
  let closedPanes ← j.optional (decodeList Entry.decode) "closedPanes"
  return ⟨frame, ⟨id.getD draw, sessions, activeSession, closedPanes⟩⟩

def decodeWindows (draw : Nat → Nat) : Nat → List Json → Option (List SavedWindow)
  | _, [] => some []
  | i, j :: rest => do
    let w ← SavedWindow.decode (draw i) j
    let more ← decodeWindows draw (i + 1) rest
    return w :: more

structure AppSnapshot where
  windows : List SavedWindow
  activeWindow : Option Nat
deriving DecidableEq

namespace AppSnapshot

def currentVersion : Int := 4

def encode (s : AppSnapshot) : Json :=
  .obj (optionalField "activeWindow" uuidJson s.activeWindow ++
    [("version", intJson currentVersion), ("windows", .arr (s.windows.map SavedWindow.encode))])

def firstId (windows : List SavedWindow) : Option Nat := windows.head?.map fun w => w.window.id

def decode (draw : Nat → Nat) (j : Json) : Option AppSnapshot := do
  let version ← (j.field "version").bind Json.asInt
  if version = 2 ∨ version = currentVersion then
    let windows ← ((j.field "windows").bind Json.asArray).bind (decodeWindows draw 0)
    let activeWindow ← j.optional Json.asUuid "activeWindow"
    return ⟨windows, activeWindow.or (firstId windows)⟩
  else if version = 3 then
    -- the former single-window format
    let w ← SavedWindow.decode (draw 0) j
    return ⟨[w], some w.window.id⟩
  else none

end AppSnapshot

/-! ## Reading back -/

/-- An id is a number of 128 bits. -/
def IsUuid (n : Nat) : Prop := n < 2 ^ 128

theorem asUuid_uuidJson {n : Nat} (h : IsUuid n) : (uuidJson n).asUuid = some n := by
  unfold IsUuid at h
  rw [uuidJson, Json.asUuid, Json.asString, Option.bind_some, uuidOf_uuidString h]

theorem ofRaw_rawValue (d : SplitDirection) : SplitDirection.ofRaw d.rawValue = some d := by cases d <;> rfl

theorem SplitNode.decode_encode {t : SplitNode} (h : ∀ id ∈ t.leaves, IsUuid id) : decode t.encode = some t := by
  induction t with
  | leaf id =>
    have hid := asUuid_uuidJson (h id (by simp [leaves]))
    rw [SplitNode.decode, encode]
    simpa [Json.field, uuidJson, List.lookup_cons] using hid
  | split d r first second ih1 ih2 =>
    have h1 := ih1 fun id hid => h id (List.mem_append_left _ hid)
    have h2 := ih2 fun id hid => h id (List.mem_append_right _ hid)
    rw [SplitNode.decode, encode]
    simp [Json.field, List.lookup_cons, Json.asString, ofRaw_rawValue, Json.asDouble, h1, h2]

section
variable {α : Type} {key : String} {write : α → Json} {v : Option α}

@[simp] theorem lookup_optionalField_self : (optionalField key write v).lookup key = v.map write := by
  cases v <;> simp [optionalField]

@[simp] theorem lookup_optionalField_ne {k : String} (h : k ≠ key) : (optionalField key write v).lookup k = none := by
  have hb : (k == key) = false := by simpa using h
  cases v <;> simp [optionalField, List.lookup_cons, hb]

variable (write) in
theorem optional_of_lookup {read : Json → Option α} {fields : List (String × Json)}
    (hl : fields.lookup key = v.map write) (hr : ∀ a ∈ v, read (write a) = some a) (hn : ∀ a, write a ≠ .null) :
    (Json.obj fields).optional read key = some v := by
  cases v with
  | none => simp [Json.optional, Json.present, Json.field, hl]
  | some a =>
    have hp : (Json.obj fields).present key = some (write a) := by
      rw [Json.present, Json.field, hl, Option.map_some]
      cases hw : write a with
      | null => exact absurd hw (hn a)
      | _ => rfl
    rw [Json.optional, hp]
    simp [hr a rfl]

end

theorem asInt_intJson (n : Int) : (intJson n).asInt = some n := by simp [intJson, Json.asInt]

theorem asDate_dateJson (n : Nat) : (dateJson n).asDate = some n := by simp [dateJson, Json.asDate, Rat.floor]

theorem PaneSnapshot.decode_encode (p : PaneSnapshot) : decode p.encode = some p := by
  generalize hf : optionalField "cwd" Json.str p.cwd ++ optionalField "fontDelta" intJson p.fontDelta ++
    optionalField "requireExisting" Json.bool p.requireExisting ++ optionalField "target" Json.str p.target = fields
  have h1 : (Json.obj fields).optional Json.asString "cwd" = some p.cwd :=
    optional_of_lookup Json.str (by simp [← hf, List.lookup_append]) (fun _ _ => rfl) (by simp)
  have h2 : (Json.obj fields).optional Json.asString "target" = some p.target :=
    optional_of_lookup Json.str (by simp [← hf, List.lookup_append]) (fun _ _ => rfl) (by simp)
  have h3 : (Json.obj fields).optional Json.asInt "fontDelta" = some p.fontDelta :=
    optional_of_lookup intJson (by simp [← hf, List.lookup_append]) (fun n _ => asInt_intJson n) (by simp [intJson])
  have h4 : (Json.obj fields).optional Json.asBool "requireExisting" = some p.requireExisting :=
    optional_of_lookup Json.bool (by simp [← hf, List.lookup_append]) (fun _ _ => rfl) (by simp)
  rw [encode, hf, decode, h1, h2, h3, h4]
  rfl

theorem decodePairs_encode {panes : List (PaneId × PaneSnapshot)} (h : ∀ e ∈ panes, IsUuid e.1) :
    decodePairs (panes.flatMap fun e => [uuidJson e.1, e.2.encode]) = some panes := by
  induction panes with
  | nil => rfl
  | cons e panes ih =>
    have hrest := ih fun q hq => h q (List.mem_cons_of_mem _ hq)
    have hid := asUuid_uuidJson (h e List.mem_cons_self)
    rw [List.flatMap_cons]
    simp only [List.cons_append, List.nil_append, decodePairs, hid, PaneSnapshot.decode_encode, hrest]
    rfl

/-- Distinct keys are all kept, in their order. -/
theorem toDictionary_of_nodup {panes : List (PaneId × PaneSnapshot)} (h : (panes.map fun e => e.1).Nodup) :
    toDictionary panes = panes := by
  have hfold : ∀ (l d : List (PaneId × PaneSnapshot)), ((d ++ l).map fun e => e.1).Nodup →
      l.foldl (fun d e => d.filter (fun q => !(q.1 == e.1)) ++ [e]) d = d ++ l := by
    intro l
    induction l with
    | nil => intro d _; simp
    | cons e l ih =>
      intro d hd
      have hkeep : d.filter (fun q => !(q.1 == e.1)) = d := by
        rw [List.filter_eq_self]
        intro q hq
        rw [List.map_append, List.nodup_append] at hd
        have hne := hd.2.2 q.1 (List.mem_map_of_mem hq) e.1 (by simp)
        simpa using hne
      rw [List.foldl_cons, hkeep, ih (d ++ [e]) (by simpa using hd), List.append_assoc]
      rfl
  exact hfold panes [] h

theorem decodePanes_encode {panes : List (PaneId × PaneSnapshot)} (h : ∀ e ∈ panes, IsUuid e.1)
    (hn : (panes.map fun e => e.1).Nodup) : decodePanes (encodePanes panes) = some panes := by
  rw [decodePanes, encodePanes, Json.asArray, Option.bind_some, decodePairs_encode h, Option.map_some,
    toDictionary_of_nodup hn]

/-- The ids of a session are UUIDs, and its panes are a dictionary. -/
structure SessionSnapshot.Wf (s : SessionSnapshot) : Prop where
  leaves : ∀ id ∈ s.tree.leaves, IsUuid id
  panes : ∀ e ∈ s.panes, IsUuid e.1
  keys : (s.panes.map fun e => e.1).Nodup
  focused : ∀ id ∈ s.focused, IsUuid id
  zoomed : ∀ id ∈ s.zoomed, IsUuid id

theorem SessionSnapshot.decode_encode {s : SessionSnapshot} (h : s.Wf) : decode s.encode = some s := by
  generalize hf : optionalField "focused" uuidJson s.focused ++
    [("panes", encodePanes s.panes), ("tree", s.tree.encode)] ++
    optionalField "zoomed" uuidJson s.zoomed = fields
  have h1 : (Json.obj fields).field "tree" = some s.tree.encode := by
    simp [Json.field, ← hf, List.lookup_append, List.lookup_cons]
  have h2 : (Json.obj fields).field "panes" = some (encodePanes s.panes) := by
    simp [Json.field, ← hf, List.lookup_append]
  have h3 : (Json.obj fields).optional Json.asUuid "focused" = some s.focused :=
    optional_of_lookup uuidJson (by simp [← hf, List.lookup_append, List.lookup_cons])
      (fun id hid => asUuid_uuidJson (h.focused id hid))
      (by simp [uuidJson])
  have h4 : (Json.obj fields).optional Json.asUuid "zoomed" = some s.zoomed :=
    optional_of_lookup uuidJson (by simp [← hf, List.lookup_append, List.lookup_cons])
      (fun id hid => asUuid_uuidJson (h.zoomed id hid))
      (by simp [uuidJson])
  rw [encode, hf, decode, h1, h2, h3, h4, Option.bind_some, Option.bind_some, SplitNode.decode_encode h.leaves,
    decodePanes_encode h.panes h.keys]
  rfl

theorem Entry.decode_encode {e : Entry} (h : IsUuid e.id) : decode e.encode = some e := by
  generalize hf : optionalField "expiresAt" dateJson e.expiresAt ++ [("id", uuidJson e.id), ("pane", e.pane.encode)] =
    fields
  have h1 : (Json.obj fields).field "id" = some (uuidJson e.id) := by
    simp [Json.field, ← hf, List.lookup_append]
  have h2 : (Json.obj fields).field "pane" = some e.pane.encode := by
    simp [Json.field, ← hf, List.lookup_append, List.lookup_cons]
  have h3 : (Json.obj fields).optional Json.asDate "expiresAt" = some e.expiresAt :=
    optional_of_lookup dateJson (by simp [← hf, List.lookup_append, List.lookup_cons]) (fun n _ => asDate_dateJson n)
      (by simp [dateJson])
  rw [encode, hf, decode, h1, h2, h3, Option.bind_some, Option.bind_some, asUuid_uuidJson h, PaneSnapshot.decode_encode]
  rfl

theorem decodeList_map {α : Type} {read : Json → Option α} {write : α → Json} {l : List α}
    (h : ∀ a ∈ l, read (write a) = some a) : decodeList read (.arr (l.map write)) = some l := by
  rw [decodeList, Json.asArray, Option.bind_some]
  induction l with
  | nil => rfl
  | cons a l ih =>
    rw [List.map_cons, List.mapM_cons, h a List.mem_cons_self, ih fun b hb => h b (List.mem_cons_of_mem _ hb)]
    rfl

structure SavedWindow.Wf (w : SavedWindow) : Prop where
  id : IsUuid w.window.id
  sessions : ∀ s ∈ w.window.sessions, s.Wf
  closedPanes : ∀ l ∈ w.window.closedPanes, ∀ e ∈ l, IsUuid e.id

theorem SavedWindow.decode_encode {w : SavedWindow} (h : w.Wf) (draw : Nat) : decode draw w.encode = some w := by
  generalize hf : [("activeSession", intJson w.window.activeSession)] ++
    optionalField "closedPanes" (fun l : List Entry => .arr (l.map Entry.encode)) w.window.closedPanes ++
    [("frame", .arr (w.frame.map Json.num)), ("id", uuidJson w.window.id),
      ("sessions", .arr (w.window.sessions.map SessionSnapshot.encode))] = fields
  have h1 : (Json.obj fields).optional Json.asUuid "id" = some (some w.window.id) :=
    optional_of_lookup uuidJson (by simp [← hf, List.lookup_append, List.lookup_cons])
      (fun id hid => by cases hid; exact asUuid_uuidJson h.id) (by simp [uuidJson])
  have h2 : (Json.obj fields).field "frame" = some (.arr (w.frame.map Json.num)) := by
    simp [Json.field, ← hf, List.lookup_append, List.lookup_cons]
  have h3 : (Json.obj fields).field "sessions" = some (.arr (w.window.sessions.map SessionSnapshot.encode)) := by
    simp [Json.field, ← hf, List.lookup_append, List.lookup_cons]
  have h4 : (Json.obj fields).field "activeSession" = some (intJson w.window.activeSession) := by
    simp [Json.field, ← hf]
  have h5 : (Json.obj fields).optional (decodeList Entry.decode) "closedPanes" = some w.window.closedPanes :=
    optional_of_lookup (fun l : List Entry => .arr (l.map Entry.encode))
      (by simp [← hf, List.lookup_append, List.lookup_cons])
      (fun l hl => decodeList_map fun e he => Entry.decode_encode (h.closedPanes l hl e he)) (by simp)
  have hframe : decodeList Json.asDouble (.arr (w.frame.map Json.num)) = some w.frame := decodeList_map fun _ _ => rfl
  have hsessions := decodeList_map fun s hs => SessionSnapshot.decode_encode (h.sessions s hs)
  rw [encode, hf, decode, h1, h2, h3, h4, h5]
  simp only [Option.bind_some, hframe, hsessions, asInt_intJson]
  rfl

theorem decodeWindows_encode {windows : List SavedWindow} (h : ∀ w ∈ windows, w.Wf) (draw : Nat → Nat) (i : Nat) :
    decodeWindows draw i (windows.map SavedWindow.encode) = some windows := by
  induction windows generalizing i with
  | nil => rfl
  | cons w windows ih =>
    rw [List.map_cons, decodeWindows, SavedWindow.decode_encode (h w List.mem_cons_self),
      ih fun v hv => h v (List.mem_cons_of_mem _ hv)]
    rfl

namespace AppSnapshot

structure Wf (s : AppSnapshot) : Prop where
  windows : ∀ w ∈ s.windows, w.Wf
  activeWindow : ∀ id ∈ s.activeWindow, IsUuid id

/-- The first window stands for an active one that is not named. -/
def readBack (s : AppSnapshot) : AppSnapshot := ⟨s.windows, s.activeWindow.or (firstId s.windows)⟩

theorem activeWindow_encode {s : AppSnapshot} (h : s.Wf) :
    s.encode.optional Json.asUuid "activeWindow" = some s.activeWindow :=
  optional_of_lookup uuidJson (by simp [List.lookup_append, List.lookup_cons])
    (fun id hid => asUuid_uuidJson (h.activeWindow id hid)) (by simp [uuidJson])

theorem decode_encode {s : AppSnapshot} (h : s.Wf) (draw : Nat → Nat) : decode draw s.encode = some s.readBack := by
  have h3 := activeWindow_encode h
  unfold encode at h3
  generalize hf : optionalField "activeWindow" uuidJson s.activeWindow ++
    [("version", intJson currentVersion), ("windows", .arr (s.windows.map SavedWindow.encode))] = fields at h3
  have h1 : (Json.obj fields).field "version" = some (intJson currentVersion) := by
    simp [Json.field, ← hf, List.lookup_append]
  have h2 : (Json.obj fields).field "windows" = some (.arr (s.windows.map SavedWindow.encode)) := by
    simp [Json.field, ← hf, List.lookup_append, List.lookup_cons]
  rw [encode, hf, decode, h1, h2, h3]
  simp only [Option.bind_some, asInt_intJson, Option.bind_eq_bind, Json.asArray, decodeWindows_encode h.windows]
  rfl

/-- Only a document says whether an active window was named. -/
theorem encode_injective {s t : AppSnapshot} (hs : s.Wf) (ht : t.Wf) (h : s.encode = t.encode) : s = t := by
  have hread := decode_encode hs fun n => n
  rw [h, decode_encode ht, Option.some_inj] at hread
  have hwindows : t.windows = s.windows := by
    show t.readBack.windows = s.readBack.windows
    rw [hread]
  have hactive := activeWindow_encode hs
  rw [h, activeWindow_encode ht, Option.some_inj] at hactive
  cases s
  cases t
  simp_all

/-- The pane dictionaries in the order they are iterated in. -/
def ordered (it : Iteration (PaneId × PaneSnapshot)) (s : AppSnapshot) : AppSnapshot :=
  ⟨s.windows.map fun w => ⟨w.frame, { w.window with
    sessions := w.window.sessions.map fun x => { x with panes := it.order x.panes } }⟩, s.activeWindow⟩

theorem Wf.ordered {s : AppSnapshot} (h : s.Wf) (it : Iteration (PaneId × PaneSnapshot)) : (s.ordered it).Wf := by
  refine ⟨fun w hw => ?_, h.activeWindow⟩
  obtain ⟨v, hv, rfl⟩ := List.mem_map.mp hw
  have hwf := h.windows v hv
  refine ⟨hwf.id, fun x hx => ?_, hwf.closedPanes⟩
  obtain ⟨y, hy, rfl⟩ := List.mem_map.mp hx
  have hy := hwf.sessions y hy
  have hperm := it.perm y.panes
  exact ⟨hy.leaves, fun e he => hy.panes e (hperm.mem_iff.mp he), (hperm.map _).nodup_iff.mpr hy.keys, hy.focused,
    hy.zoomed⟩

end AppSnapshot

/-! ## Ids that a file lacks -/

theorem SavedWindow.isSome_decode (n m : Nat) (j : Json) : (decode n j).isSome = (decode m j).isSome := by
  unfold decode
  cases j.optional Json.asUuid "id" with
  | none => rfl
  | some id =>
    cases (j.field "frame").bind (decodeList Json.asDouble) with
    | none => rfl
    | some frame =>
      cases (j.field "sessions").bind (decodeList SessionSnapshot.decode) with
      | none => rfl
      | some sessions =>
        cases (j.field "activeSession").bind Json.asInt with
        | none => rfl
        | some active => cases j.optional (decodeList Entry.decode) "closedPanes" <;> rfl

theorem isSome_decodeWindows (draw draw' : Nat → Nat) (i : Nat) (l : List Json) :
    (decodeWindows draw i l).isSome = (decodeWindows draw' i l).isSome := by
  induction l generalizing i with
  | nil => rfl
  | cons j l ih =>
    have hj := SavedWindow.isSome_decode (draw i) (draw' i) j
    have hl := ih (i + 1)
    rw [decodeWindows, decodeWindows]
    cases h1 : SavedWindow.decode (draw i) j <;> cases h2 : SavedWindow.decode (draw' i) j <;> rw [h1, h2] at hj
    · rfl
    · cases hj
    · cases hj
    · cases h3 : decodeWindows draw (i + 1) l <;> cases h4 : decodeWindows draw' (i + 1) l <;> rw [h3, h4] at hl
      all_goals first | rfl | cases hl

theorem AppSnapshot.isSome_decode (draw draw' : Nat → Nat) (j : Json) :
    (decode draw j).isSome = (decode draw' j).isSome := by
  unfold decode
  cases (j.field "version").bind Json.asInt with
  | none => rfl
  | some version =>
    simp only [Option.bind_eq_bind, Option.bind_some]
    by_cases h2 : version = 2 ∨ version = currentVersion
    · rw [if_pos h2, if_pos h2]
      cases (j.field "windows").bind Json.asArray with
      | none => rfl
      | some l =>
        have hl := isSome_decodeWindows draw draw' 0 l
        simp only [Option.bind_some]
        cases h3 : decodeWindows draw 0 l <;> cases h4 : decodeWindows draw' 0 l <;> simp_all
        cases j.optional Json.asUuid "activeWindow" <;> rfl
    · rw [if_neg h2, if_neg h2]
      by_cases h3 : version = 3
      · have hw := SavedWindow.isSome_decode (draw 0) (draw' 0) j
        rw [if_pos h3, if_pos h3]
        cases h4 : SavedWindow.decode (draw 0) j <;> cases h5 : SavedWindow.decode (draw' 0) j <;> simp_all
      · rw [if_neg h3, if_neg h3]

/-! ## Snapshots that hold the same -/

/-- A dictionary has no order of its own. -/
structure SessionSnapshot.Alike (s t : SessionSnapshot) : Prop where
  tree : s.tree = t.tree
  panes : s.panes.Perm t.panes
  focused : s.focused = t.focused
  zoomed : s.zoomed = t.zoomed

structure SavedWindow.Alike (v w : SavedWindow) : Prop where
  frame : v.frame = w.frame
  id : v.window.id = w.window.id
  activeSession : v.window.activeSession = w.window.activeSession
  closedPanes : v.window.closedPanes = w.window.closedPanes
  sessions : List.Forall₂ SessionSnapshot.Alike v.window.sessions w.window.sessions

structure AppSnapshot.Alike (s t : AppSnapshot) : Prop where
  activeWindow : s.activeWindow = t.activeWindow
  windows : List.Forall₂ SavedWindow.Alike s.windows t.windows

theorem forall₂_map_self {α : Type} {R : α → α → Prop} {f : α → α} {l : List α} (h : ∀ a ∈ l, R (f a) a) :
    List.Forall₂ R (l.map f) l := by
  induction l with
  | nil => exact .nil
  | cons a l ih => exact .cons (h a List.mem_cons_self) (ih fun b hb => h b (List.mem_cons_of_mem _ hb))

theorem AppSnapshot.alike_ordered (s : AppSnapshot) (it : Iteration (PaneId × PaneSnapshot)) :
    (s.ordered it).Alike s :=
  ⟨rfl, forall₂_map_self fun _ _ => ⟨rfl, rfl, rfl, rfl, forall₂_map_self fun x _ => ⟨rfl, it.perm x.panes, rfl, rfl⟩⟩⟩

theorem AppSnapshot.readBack_ordered (s : AppSnapshot) (it : Iteration (PaneId × PaneSnapshot)) :
    (s.ordered it).readBack = s.readBack.ordered it := by
  have hfirst : firstId (s.ordered it).windows = firstId s.windows := by
    cases hw : s.windows <;> simp [firstId, ordered, hw]
  rw [readBack, hfirst]
  rfl

/-! ## Text -/

/-- Foundation's text of a document: what it wrote for a snapshot it reads as that document. -/
structure JsonText (D : Type) where
  print : Json → D
  parse : D → Option Json
  parse_print : ∀ s : AppSnapshot, s.Wf → parse (print s.encode) = some s.encode

namespace JsonText

variable {D : Type} (txt : JsonText D)

/-- `JSONEncoder` in a process that iterates dictionaries in this order. -/
def encode (it : Iteration (PaneId × PaneSnapshot)) (s : AppSnapshot) : D := txt.print (s.ordered it).encode

/-- `SnapshotStore.decode`. -/
def decode (draw : Nat → Nat) (d : D) : Option AppSnapshot := (txt.parse d).bind (AppSnapshot.decode draw)

theorem decode_encode (it : Iteration (PaneId × PaneSnapshot)) {s : AppSnapshot} (h : s.Wf) (draw : Nat → Nat) :
    txt.decode draw (txt.encode it s) = some (s.readBack.ordered it) := by
  rw [decode, encode, txt.parse_print _ (h.ordered it), Option.bind_some, AppSnapshot.decode_encode (h.ordered it),
    AppSnapshot.readBack_ordered]

theorem encode_injective {s t : AppSnapshot} (hs : s.Wf) (ht : t.Wf) {it it' : Iteration (PaneId × PaneSnapshot)}
    (h : txt.encode it s = txt.encode it' t) : s.ordered it = t.ordered it' := by
  have hparse := txt.parse_print _ (hs.ordered it)
  have hdoc : txt.print (s.ordered it).encode = txt.print (t.ordered it').encode := h
  rw [hdoc, txt.parse_print _ (ht.ordered it'), Option.some_inj] at hparse
  exact AppSnapshot.encode_injective (hs.ordered it) (ht.ordered it') hparse.symm

end JsonText

end Mux.Tiling
