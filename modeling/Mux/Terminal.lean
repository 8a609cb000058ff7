/-!
# The terminal muxd keeps for a pty

`ghostty_vt::Terminal` wraps a handle of ghostty's emulator and remembers the size it
last gave it. What the emulator does with bytes is a parameter: `Ghostty` lists the
calls the wrapper makes. `VtOp` names the two calls that change a terminal, so that
its content is a function of the operations applied to it.
-/

namespace Mux

abbrev Bytes := List UInt8

class Ghostty (T : Type) where
  new : UInt16 → UInt16 → Option T
  feed : T → Bytes → T
  resize : T → UInt16 → UInt16 → T
  renderReattach : T → Bytes

structure Terminal (T : Type) where
  handle : T
  rows : UInt16
  cols : UInt16

/-- Dimensions are clamped to 1×1, by the terminal and by the pty's ioctl alike. -/
def clampSize (cols rows : UInt16) : UInt16 × UInt16 := (max cols 1, max rows 1)

namespace Terminal

section
variable {T : Type} [Ghostty T]

def new (rows cols : UInt16) : Option (Terminal T) :=
  (Ghostty.new (max cols 1) (max rows 1)).map fun handle => ⟨handle, max rows 1, max cols 1⟩

def size (t : Terminal T) : UInt16 × UInt16 := (t.cols, t.rows)

def feed (t : Terminal T) (bytes : Bytes) : Terminal T := { t with handle := Ghostty.feed t.handle bytes }

def resize (t : Terminal T) (rows cols : UInt16) : Terminal T :=
  ⟨Ghostty.resize t.handle (max cols 1) (max rows 1), max rows 1, max cols 1⟩

def renderScreenBytes (t : Terminal T) : Bytes := Ghostty.renderReattach t.handle

@[simp] theorem size_feed (t : Terminal T) (bytes : Bytes) : (t.feed bytes).size = t.size := rfl

@[simp] theorem size_resize (t : Terminal T) (rows cols : UInt16) :
    (t.resize rows cols).size = clampSize cols rows := rfl

end

end Terminal

/-! ## The operations applied to a terminal -/

inductive VtOp where
  | feed (bytes : Bytes)
  | resize (rows cols : UInt16)

def VtOp.apply {T : Type} [Ghostty T] (t : Terminal T) : VtOp → Terminal T
  | .feed bytes => t.feed bytes
  | .resize rows cols => t.resize rows cols

def replay {T : Type} [Ghostty T] (t : Terminal T) (ops : List VtOp) : Terminal T := ops.foldl VtOp.apply t

def VtOp.fed? : VtOp → Option Bytes
  | .feed bytes => some bytes
  | .resize .. => none

def chunks (ops : List VtOp) : List Bytes := ops.filterMap VtOp.fed?

section
variable {T : Type} [Ghostty T]

@[simp] theorem replay_nil (t : Terminal T) : replay t [] = t := rfl

theorem replay_snoc (t : Terminal T) (ops : List VtOp) (op : VtOp) :
    replay t (ops ++ [op]) = op.apply (replay t ops) := by
  simp [replay]

end

@[simp] theorem chunks_nil : chunks [] = [] := rfl

@[simp] theorem chunks_feed (ops : List VtOp) (bytes : Bytes) :
    chunks (ops ++ [.feed bytes]) = chunks ops ++ [bytes] := by
  simp [chunks, VtOp.fed?]

@[simp] theorem chunks_resize (ops : List VtOp) (rows cols : UInt16) :
    chunks (ops ++ [.resize rows cols]) = chunks ops := by
  simp [chunks, VtOp.fed?]

/-! ## Plain text -/

/-- An emulator for plain text: the screen is what was fed, and a replay clears the
screen and writes it again. -/
structure Echo where
  text : Bytes
  deriving DecidableEq

def clearScreen : Bytes := [0x1b, 0x5b, 0x48, 0x1b, 0x5b, 0x32, 0x4a, 0x1b, 0x5b, 0x30, 0x6d]

instance : Ghostty Echo where
  new _ _ := some ⟨[]⟩
  feed t bytes := ⟨t.text ++ bytes⟩
  resize t _ _ := t
  renderReattach t := clearScreen ++ t.text

end Mux
