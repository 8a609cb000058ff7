import Mux.Lib.Vt

/-!
# The tail of a reattach render

After the viewport, `renderReattach` in `zig/lib.zig` writes the scroll region, the tab
stops, the screen extras, origin mode, the cursor position and, for a pending wrap, the
character under the cursor once more. The terminal that reads these bytes follows the
usual rules of such terminals: setting a margin or origin mode homes the cursor, a
position under origin mode counts from the top and left margins, and printing writes the
cell with the current style and character set. What the style and the character sets are,
and which characters are wide, is a parameter.
-/

namespace Mux.Render

open Lib.Vt

inductive Kind where
  | narrow
  | wide
  | spacerTail
  | spacerHead
deriving Repr, DecidableEq

/-- A cell; `'\x00'` is a cell without text, `marks` are the characters combined with `text`. -/
structure Cell (S : Type) where
  text : Char
  marks : List Char
  style : S
  kind : Kind
deriving Repr, DecidableEq

structure Region where
  top : Nat
  bottom : Nat
  left : Nat
  right : Nat
deriving Repr, DecidableEq

structure Screen (S C : Type) where
  rows : Nat
  cols : Nat
  cells : Nat → Nat → Cell S
  region : Region
  tabstops : Nat → Bool
  origin : Bool
  leftRightMargin : Bool
  wraparound : Bool
  insert : Bool
  style : S
  charset : C
  x : Nat
  y : Nat
  pendingWrap : Bool

/-- What the terminal's tables decide. -/
structure Tables (S C : Type) where
  isWide : Char → Bool
  translate : C → Char → Char
  graphic : List Nat → S → S
  designate : UInt8 → UInt8 → C → C
  shift : UInt8 → C → C
  link : Lib.Bytes → S → S

section
variable {S C : Type}

/-! ## The terminal -/

namespace Screen

def fullRegion (t : Screen S C) : Region := ⟨0, t.rows - 1, 0, t.cols - 1⟩

def moveTo (t : Screen S C) (x y : Nat) : Screen S C :=
  { t with x := x, y := y, pendingWrap := false }

/-- CUP, counted from 1; under origin mode from the margins and within them. -/
def setCursorPos (t : Screen S C) (row col : Nat) : Screen S C :=
  if t.origin then t.moveTo (min (t.region.left + (col - 1)) t.region.right) (min (t.region.top + (row - 1)) t.region.bottom)
  else t.moveTo (min (col - 1) (t.cols - 1)) (min (row - 1) (t.rows - 1))

def setTopAndBottomMargin (t : Screen S C) (top bottom : Nat) : Screen S C :=
  if top < min bottom t.rows then
    ({ t with region := { t.region with top := top - 1, bottom := min bottom t.rows - 1 } }).setCursorPos 1 1
  else t

/-- DECSLRM; without left and right margin mode the sequence saves the cursor. -/
def setLeftAndRightMargin (t : Screen S C) (left right : Nat) : Screen S C :=
  if t.leftRightMargin ∧ left < min right t.cols then
    ({ t with region := { t.region with left := left - 1, right := min right t.cols - 1 } }).setCursorPos 1 1
  else t

def setOrigin (t : Screen S C) (on : Bool) : Screen S C :=
  ({ t with origin := on }).setCursorPos 1 1

def put (t : Screen S C) (y x : Nat) (cell : Cell S) : Screen S C :=
  { t with cells := fun r c => if r = y ∧ c = x then cell else t.cells r c }

def blank (t : Screen S C) : Cell S := ⟨'\x00', [], t.style, .narrow⟩

/-- Writes the cell under the cursor; the other half of a wide character it was part of goes. -/
def printCell (t : Screen S C) (text : Char) (kind : Kind) : Screen S C :=
  let cleared := match (t.cells t.y t.x).kind with
    | .wide => t.put t.y (t.x + 1) t.blank
    | .spacerTail => t.put t.y (t.x - 1) t.blank
    | _ => t
  cleared.put t.y t.x ⟨text, [], t.style, kind⟩

def scrollUp (t : Screen S C) : Screen S C :=
  { t with cells := fun r c =>
      if t.region.top ≤ r ∧ r ≤ t.region.bottom ∧ t.region.left ≤ c ∧ c ≤ t.region.right then
        if r = t.region.bottom then t.blank else t.cells (r + 1) c
      else t.cells r c }

def index (t : Screen S C) : Screen S C :=
  if t.y = t.region.bottom then
    if t.region.left ≤ t.x ∧ t.x ≤ t.region.right then t.scrollUp else t
  else if t.y + 1 < t.rows then { t with y := t.y + 1 }
  else t

def printWrap (t : Screen S C) : Screen S C :=
  t.index.moveTo t.region.left t.index.y

/-- The last column a character at the cursor may take. -/
def rightLimit (t : Screen S C) : Nat :=
  if t.region.right < t.x then t.cols - 1 else t.region.right

/-- The cursor after a character: at the limit it stays and the wrap is pending. -/
def advance (t : Screen S C) (limit : Nat) : Screen S C :=
  if t.x = limit then { t with pendingWrap := true } else { t with x := t.x + 1 }

-- insert mode moves the rest of the line, up to the limit, before the character is written
def insertBlanks (t : Screen S C) (limit count : Nat) : Screen S C :=
  if t.insert ∧ t.x + count ≤ limit then
    { t with cells := fun r c =>
        if r = t.y ∧ t.x ≤ c ∧ c ≤ limit then
          if c < t.x + count then t.blank else t.cells r (c - count)
        else t.cells r c }
  else t

def printNarrow (t : Screen S C) (limit : Nat) (text : Char) : Screen S C :=
  ((t.insertBlanks limit 1).printCell text .narrow).advance limit

/-- Both halves, the second one right of the cursor. -/
def printHalves (t : Screen S C) (limit : Nat) (text : Char) : Screen S C :=
  let head := (t.insertBlanks limit 2).printCell text .wide
  (({ head with x := head.x + 1 }).printCell '\x00' .spacerTail).advance limit

def printWide (t : Screen S C) (limit : Nat) (text : Char) : Screen S C :=
  if limit ≤ t.region.left then (t.printCell '\x00' .narrow).advance limit
  else if t.x = limit then
    -- no room for the second half: without wraparound nothing is printed
    if t.wraparound then
      ((t.printCell '\x00' (if limit + 1 = t.cols then .spacerHead else .narrow)).printWrap).printHalves limit text
    else t
  else t.printHalves limit text

def print (E : Tables S C) (t : Screen S C) (c : Char) : Screen S C :=
  let t := if t.pendingWrap ∧ t.wraparound then t.printWrap else t
  if E.isWide c then t.printWide t.rightLimit (E.translate t.charset c)
  else t.printNarrow t.rightLimit (E.translate t.charset c)

def clearTabs (t : Screen S C) : Screen S C := { t with tabstops := fun _ => false }

def setTab (t : Screen S C) : Screen S C :=
  { t with tabstops := fun c => if c = t.x then true else t.tabstops c }

/-- CHA keeps the row. -/
def setCursorCol (t : Screen S C) (col : Nat) : Screen S C :=
  if t.origin then t.moveTo (min (t.region.left + (col - 1)) t.region.right) t.y
  else t.moveTo (min (col - 1) (t.cols - 1)) t.y

end Screen

def control (E : Tables S C) (t : Screen S C) : Option UInt8 → UInt8 → List Nat → Screen S C
  | none, 0x72, [top, bottom] => t.setTopAndBottomMargin top bottom
  | none, 0x73, [left, right] => t.setLeftAndRightMargin left right
  | none, 0x67, [n] => if n = 3 then t.clearTabs else t
  | none, 0x47, [col] => t.setCursorCol col
  | none, 0x48, [row, col] => t.setCursorPos row col
  | none, 0x6d, params => { t with style := E.graphic params t.style }
  | some 0x3f, 0x68, [n] => if n = 6 then t.setOrigin true else t
  | _, _, _ => t

/-- What a finished sequence does. The sequences that `renderReattach` never writes after the
viewport are left out and do nothing. -/
def perform (E : Tables S C) (t : Screen S C) : Action → Screen S C
  | .print c => t.print E c
  | .execute b => { t with charset := E.shift b t.charset }
  | .designate slot set => { t with charset := E.designate slot set t.charset }
  | .osc payload => { t with style := E.link payload t.style }
  | .esc b => if b = 0x48 then t.setTab else { t with charset := E.shift b t.charset }
  | .csi mark params last => control E t mark last params

def feed (E : Tables S C) (t : Screen S C) (bytes : Lib.Bytes) : Screen S C :=
  (Lib.Vt.feed (perform E) (.ground, t) bytes).2

/-! ## What the render writes -/

structure Handle (S C : Type) where
  terminal : Screen S C
  modifyOtherKeys2 : Bool
  pwd : Lib.Bytes
  title : Option Lib.Bytes

def regionBytes (t : Screen S C) : Lib.Bytes :=
  (if t.region.top ≠ 0 ∨ t.region.bottom ≠ t.rows - 1 then csi none [t.region.top + 1, t.region.bottom + 1] 0x72
    else []) ++
  (if t.region.left ≠ 0 ∨ t.region.right ≠ t.cols - 1 then csi none [t.region.left + 1, t.region.right + 1] 0x73
    else [])

def tabBytes (t : Screen S C) : Lib.Bytes :=
  csi none [3] 0x67 ++
    (List.range t.cols).flatMap fun col => if t.tabstops col then csi none [col + 1] 0x47 ++ esc 0x48 else []

def reportBytes (h : Handle S C) : Lib.Bytes :=
  (if h.modifyOtherKeys2 then csi (some 0x3e) [4, 2] 0x6d else []) ++
  (if h.pwd.length > 0 then osc ([0x37, 0x3b] ++ h.pwd) else []) ++
  match h.title with
    | some title => osc ([0x30, 0x3b] ++ title)
    | none => []

def originBytes (t : Screen S C) : Lib.Bytes :=
  if t.origin then csi (some 0x3f) [6] 0x68 else []

-- `cursor.y -| region.top` saturates, as subtraction of naturals does
def cursorBytes (t : Screen S C) : Lib.Bytes :=
  if t.origin then csi none [t.y - t.region.top + 1, t.x + 1] 0x48 else csi none [t.y + 1, t.x + 1] 0x48

def wrapBytes (t : Screen S C) : Lib.Bytes :=
  if t.pendingWrap then
    let cp := (t.cells t.y t.x).text
    if cp.toNat > 0 then String.utf8EncodeChar cp else []
  else []

/-- Steps 4 to 11 of `renderReattach`; `extras` is what the formatter writes for step 8. -/
def renderTail (extras : Lib.Bytes) (h : Handle S C) : Lib.Bytes :=
  regionBytes h.terminal ++ tabBytes h.terminal ++ reportBytes h ++ extras ++ originBytes h.terminal ++
    cursorBytes h.terminal ++ wrapBytes h.terminal

end

end Mux.Render
