import Mux.Lib.Bytes
import Mathlib.Algebra.GroupWithZero.Nat

/-!
# The postcard format

Integers wider than a byte are variable-length: seven bits a byte, lowest first, every byte
but the last with its high bit set. A sequence is its length and its elements, a string its
length and its UTF-8 bytes, an option a tag byte, a struct its fields in order, an enum the index of
its variant and that variant's fields. Decoding reads from the front and leaves what follows.

A `Codec` carries its round trip and the length of what it writes; the combinators keep both.
-/

namespace Lib.Postcard

inductive Error where
  | unexpectedEnd
  | badVarint
  | badBool
  | badOption
  | badUtf8
  | badVariant
deriving DecidableEq, Repr

structure Codec (α : Type) where
  encode : α → Bytes
  decode : Bytes → Except Error (α × Bytes)
  size : α → Nat
  decode_encode : ∀ a rest, decode (encode a ++ rest) = .ok (a, rest)
  encode_length : ∀ a, (encode a).length = size a

/-! ## Variable-length integers -/

/-- At most `k` bytes. -/
def encodeVarint : Nat → Nat → Bytes
  | 0, _ => []
  | k + 1, v => if v < 128 then [UInt8.ofNat v] else UInt8.ofNat (v % 128 + 128) :: encodeVarint k (v / 128)

/-- At most `k` bytes, the `k`-th of which is no greater than `last`. -/
def decodeVarint (last : Nat) : Nat → Bytes → Except Error (Nat × Bytes)
  | 0, _ => .error .badVarint
  | _ + 1, [] => .error .unexpectedEnd
  | k + 1, b :: bs =>
    if b.toNat < 128 then
      if k = 0 ∧ last < b.toNat then .error .badVarint else .ok (b.toNat, bs)
    else (decodeVarint last k bs).map fun r => (b.toNat - 128 + 128 * r.1, r.2)

def varintSize (k v : Nat) : Nat := (encodeVarint k v).length

theorem decodeVarint_encodeVarint {last : Nat} (hlast : last < 128) (k : Nat) {v : Nat} (h : v < (last + 1) * 128 ^ k)
    (rest : Bytes) : decodeVarint last (k + 1) (encodeVarint (k + 1) v ++ rest) = .ok (v, rest) := by
  induction k generalizing v with
  | zero =>
    have hv : v < 128 := by omega
    have hb : (UInt8.ofNat v).toNat = v := by simp; omega
    rw [encodeVarint, if_pos hv, List.singleton_append, decodeVarint, hb, if_pos hv, if_neg (by omega)]
  | succ k ih =>
    by_cases hv : v < 128
    · have hb : (UInt8.ofNat v).toNat = v := by simp; omega
      rw [encodeVarint, if_pos hv, List.singleton_append, decodeVarint, hb, if_pos hv, if_neg (by omega)]
    · have hb : (UInt8.ofNat (v % 128 + 128)).toNat = v % 128 + 128 := by simp; omega
      have hq : v / 128 < (last + 1) * 128 ^ k := by
        rw [Nat.pow_succ, ← Nat.mul_assoc] at h
        exact Nat.div_lt_of_lt_mul (by omega)
      rw [encodeVarint, if_neg hv, List.cons_append, decodeVarint, hb, if_neg (by omega), ih hq]
      simp only [Except.map, Except.ok.injEq, Prod.mk.injEq, and_true]
      omega

theorem encodeVarint_pos (k v : Nat) : 0 < (encodeVarint (k + 1) v).length := by
  rw [encodeVarint]
  split <;> simp

theorem encodeVarint_le (k v : Nat) : (encodeVarint k v).length ≤ k := by
  induction k generalizing v with
  | zero => simp [encodeVarint]
  | succ k ih =>
    rw [encodeVarint]
    split
    · simp
    · have := ih (v / 128)
      simp only [List.length_cons]
      omega

/-! ## Integers -/

def u8 : Codec UInt8 where
  encode b := [b]
  decode
    | [] => .error .unexpectedEnd
    | b :: bs => .ok (b, bs)
  size _ := 1
  decode_encode _ _ := rfl
  encode_length _ := rfl

def u16 : Codec UInt16 where
  encode n := encodeVarint 3 n.toNat
  decode l := (decodeVarint 3 3 l).map fun r => (UInt16.ofNat r.1, r.2)
  size n := varintSize 3 n.toNat
  decode_encode n rest := by
    have h : n.toNat < (3 + 1) * 128 ^ 2 := n.toNat_lt
    rw [decodeVarint_encodeVarint (by decide) 2 h]
    simp [Except.map]
  encode_length _ := rfl

def u32 : Codec UInt32 where
  encode n := encodeVarint 5 n.toNat
  decode l := (decodeVarint 15 5 l).map fun r => (UInt32.ofNat r.1, r.2)
  size n := varintSize 5 n.toNat
  decode_encode n rest := by
    have h : n.toNat < (15 + 1) * 128 ^ 4 := n.toNat_lt
    rw [decodeVarint_encodeVarint (by decide) 4 h]
    simp [Except.map]
  encode_length _ := rfl

def u64 : Codec UInt64 where
  encode n := encodeVarint 10 n.toNat
  decode l := (decodeVarint 1 10 l).map fun r => (UInt64.ofNat r.1, r.2)
  size n := varintSize 10 n.toNat
  decode_encode n rest := by
    have h : n.toNat < (1 + 1) * 128 ^ 9 := n.toNat_lt
    rw [decodeVarint_encodeVarint (by decide) 9 h]
    simp [Except.map]
  encode_length _ := rfl

/-- Small integers of either sign get small numbers. -/
def zigzag (n : Int) : Nat := if 0 ≤ n then (2 * n).toNat else (-2 * n - 1).toNat

def unzigzag (v : Nat) : Int := if v % 2 = 0 then (v / 2 : Nat) else -((v / 2 : Nat) : Int) - 1

theorem unzigzag_zigzag (n : Int) : unzigzag (zigzag n) = n := by
  simp only [unzigzag, zigzag]
  split <;> split <;> omega

theorem zigzag_lt (n : Int32) : zigzag n.toInt < 2 ^ 32 := by
  have h1 := n.le_toInt
  have h2 := n.toInt_lt
  unfold zigzag
  split <;> omega

def i32 : Codec Int32 where
  encode n := encodeVarint 5 (zigzag n.toInt)
  decode l := (decodeVarint 15 5 l).map fun r => (Int32.ofInt (unzigzag r.1), r.2)
  size n := varintSize 5 (zigzag n.toInt)
  decode_encode n rest := by
    rw [decodeVarint_encodeVarint (by decide) 4 (zigzag_lt n)]
    simp [Except.map, unzigzag_zigzag]
  encode_length _ := rfl

/-! ## Structs -/

section
variable {α β ε : Type}

def Codec.prod (a : Codec α) (b : Codec β) : Codec (α × β) where
  encode x := a.encode x.1 ++ b.encode x.2
  decode l := do
    let (x, l) ← a.decode l
    let (y, l) ← b.decode l
    return ((x, y), l)
  size x := a.size x.1 + b.size x.2
  decode_encode x rest := by
    simp only [List.append_assoc, a.decode_encode, b.decode_encode, bind, Except.bind, pure, Except.pure]
  encode_length x := by
    rw [List.length_append, a.encode_length, b.encode_length]

/-- The values of `β` as the values of `α` that stand for them. -/
def Codec.iso (a : Codec α) (f : α → β) (g : β → α) (h : ∀ y, f (g y) = y) : Codec β where
  encode y := a.encode (g y)
  decode l := (a.decode l).map fun r => (f r.1, r.2)
  size y := a.size (g y)
  decode_encode y rest := by
    rw [a.decode_encode]
    simp [Except.map, h]
  encode_length y := a.encode_length (g y)

/-! ## Enums -/

def variant (i : UInt32) (fields : Bytes) : Bytes := u32.encode i ++ fields

theorem decode_variant (i : UInt32) (fields rest : Bytes) :
    u32.decode (variant i fields ++ rest) = .ok (i, fields ++ rest) := by
  rw [variant, List.append_assoc, u32.decode_encode]

def bool : Codec Bool where
  encode b := [if b then 1 else 0]
  decode
    | [] => .error .unexpectedEnd
    | b :: bs => if b = 0 then .ok (false, bs) else if b = 1 then .ok (true, bs) else .error .badBool
  size _ := 1
  decode_encode b _ := by cases b <;> rfl
  encode_length _ := rfl

def option (a : Codec α) : Codec (Option α) where
  encode
    | none => [0]
    | some x => 1 :: a.encode x
  decode
    | [] => .error .unexpectedEnd
    | b :: bs =>
      if b = 0 then .ok (none, bs)
      else if b = 1 then (a.decode bs).map fun r => (some r.1, r.2) else .error .badOption
  size
    | none => 1
    | some x => 1 + a.size x
  decode_encode x rest := by
    cases x with
    | none => rfl
    | some x =>
      simp only [List.cons_append]
      rw [if_neg (by decide), if_pos trivial, a.decode_encode]
      rfl
  encode_length x := by
    cases x with
    | none => rfl
    | some x => rw [List.length_cons, a.encode_length, Nat.add_comm]

/-- A result: `Ok` has index 0 and `Err` index 1. -/
def result (a : Codec α) (e : Codec ε) : Codec (Except ε α) where
  encode
    | .ok x => variant 0 (a.encode x)
    | .error x => variant 1 (e.encode x)
  decode l := do
    let (i, l) ← u32.decode l
    if i = 0 then (a.decode l).map fun r => (.ok r.1, r.2)
    else if i = 1 then (e.decode l).map fun r => (.error r.1, r.2)
    else .error .badVariant
  size
    | .ok x => u32.size 0 + a.size x
    | .error x => u32.size 1 + e.size x
  decode_encode x rest := by
    cases x with
    | ok x =>
      simp only [decode_variant, bind, Except.bind]
      rw [if_pos trivial, a.decode_encode]
      rfl
    | error x =>
      simp only [decode_variant, bind, Except.bind]
      rw [if_neg (by decide), if_pos trivial, e.decode_encode]
      rfl
  encode_length x := by
    cases x with
    | ok x => simp only [variant, List.length_append, u32.encode_length, a.encode_length]
    | error x => simp only [variant, List.length_append, u32.encode_length, e.encode_length]

/-! ## Sequences and strings -/

abbrev Vec (α : Type) := { l : List α // l.length < 2 ^ 64 }

/-- A string whose length in bytes is a machine word. -/
abbrev Str := { s : String // s.utf8ByteSize < 2 ^ 64 }

theorem utf8ByteSize_ofList_le (l : List Char) : (String.ofList l).utf8ByteSize ≤ 4 * l.length := by
  induction l with
  | nil => simp
  | cons c l ih =>
    have hc := c.utf8Size_le_four
    rw [← List.singleton_append, String.ofList_append, String.utf8ByteSize_append, ← String.singleton_eq_ofList,
      String.utf8ByteSize_singleton]
    simp only [List.singleton_append, List.length_cons]
    omega

theorem utf8ByteSize_le (s : String) : s.utf8ByteSize ≤ 4 * s.length := by
  have := utf8ByteSize_ofList_le s.toList
  rwa [String.ofList_toList, String.length_toList] at this

/-- A length, checked again where it is used as one. -/
def decodeLen (l : Bytes) : Except Error ({ n : Nat // n < 2 ^ 64 } × Bytes) :=
  (u64.decode l).map fun r => (⟨r.1.toNat, r.1.toNat_lt⟩, r.2)

def encodeLen (n : Nat) : Bytes := u64.encode (UInt64.ofNat n)

theorem decodeLen_encodeLen {n : Nat} (h : n < 2 ^ 64) (rest : Bytes) :
    decodeLen (encodeLen n ++ rest) = .ok (⟨n, h⟩, rest) := by
  have hn : (UInt64.ofNat n).toNat = n := by simp; omega
  rw [decodeLen, encodeLen, u64.decode_encode]
  simp only [Except.map, hn]

def lenSize (n : Nat) : Nat := u64.size (UInt64.ofNat n)

theorem encodeLen_length (n : Nat) : (encodeLen n).length = lenSize n := u64.encode_length _

def decodeSeq (a : Codec α) : (n : Nat) → Bytes → Except Error ({ l : List α // l.length = n } × Bytes)
  | 0, l => .ok (⟨[], rfl⟩, l)
  | n + 1, l => do
    let (x, l) ← a.decode l
    let (xs, l) ← decodeSeq a n l
    return (⟨x :: xs.1, by rw [List.length_cons, xs.2]⟩, l)

theorem decodeSeq_encode (a : Codec α) (xs : List α) (rest : Bytes) :
    decodeSeq a xs.length (xs.flatMap a.encode ++ rest) = .ok (⟨xs, rfl⟩, rest) := by
  induction xs with
  | nil => rfl
  | cons x xs ih =>
    simp only [List.length_cons, decodeSeq, List.flatMap_cons, List.append_assoc, a.decode_encode, bind, Except.bind, ih, pure,
      Except.pure]

def vec (a : Codec α) : Codec (Vec α) where
  encode xs := encodeLen xs.1.length ++ xs.1.flatMap a.encode
  decode l := do
    let (n, l) ← decodeLen l
    let (xs, l) ← decodeSeq a n.1 l
    return (⟨xs.1, by rw [xs.2]; exact n.2⟩, l)
  size xs := lenSize xs.1.length + (xs.1.map a.size).sum
  decode_encode xs rest := by
    simp only [List.append_assoc, decodeLen_encodeLen xs.2, bind, Except.bind, decodeSeq_encode, pure, Except.pure]
  encode_length xs := by
    rw [List.length_append, encodeLen_length, List.length_flatMap]
    simp only [a.encode_length]

end

def utf8Bytes (s : String) : Bytes := s.toByteArray.data.toList

abbrev ValidUtf8 (l : Bytes) : Prop := (ByteArray.mk ⟨l⟩).IsValidUTF8

def ofUtf8 (l : Bytes) (h : ValidUtf8 l) : String := .ofByteArray (.mk ⟨l⟩) h

def str : Codec Str where
  encode s := encodeLen s.1.utf8ByteSize ++ utf8Bytes s.1
  decode l := do
    let (n, l) ← decodeLen l
    if l.length < n.1 then .error .unexpectedEnd
    else if h : ValidUtf8 (l.take n.1) then
      .ok (⟨ofUtf8 (l.take n.1) h, Nat.lt_of_le_of_lt (List.length_take_le ..) n.2⟩, l.drop n.1)
    else .error .badUtf8
  size s := lenSize s.1.utf8ByteSize + s.1.utf8ByteSize
  decode_encode s rest := by
    have hn : (utf8Bytes s.1).length = s.1.utf8ByteSize := rfl
    have hv : ValidUtf8 (utf8Bytes s.1) := s.1.isValidUTF8
    simp only [List.append_assoc, decodeLen_encodeLen s.2, bind, Except.bind]
    rw [if_neg (by rw [List.length_append, hn]; omega)]
    simp only [List.take_left' hn, List.drop_left' hn]
    rw [dif_pos hv]
    rfl
  encode_length s := by
    rw [List.length_append, encodeLen_length]
    rfl

/-- What follows the value is not looked at. -/
def fromBytes {α : Type} (a : Codec α) (l : Bytes) : Except Error α := (a.decode l).map Prod.fst

theorem fromBytes_encode {α : Type} (a : Codec α) (x : α) (rest : Bytes) :
    fromBytes a (a.encode x ++ rest) = .ok x := by
  rw [fromBytes, a.decode_encode]
  rfl

theorem fromBytes_self {α : Type} (a : Codec α) (x : α) : fromBytes a (a.encode x) = .ok x := by
  have := fromBytes_encode a x []
  rwa [List.append_nil] at this

/-- A struct is decoded from its first field on. -/
theorem fromBytes_first {α β γ : Type} {a : Codec α} {b : Codec β} {f : α × β → γ} {g : γ → α × β}
    {h : ∀ y, f (g y) = y}
    {l : Bytes} {y : γ} (hy : fromBytes ((a.prod b).iso f g h) l = .ok y) :
    ∃ x, y = f x ∧ fromBytes a l = .ok x.1 := by
  simp only [fromBytes, Codec.iso, Codec.prod, bind, Except.bind, pure, Except.pure] at hy ⊢
  cases ha : a.decode l with
  | error e => rw [ha] at hy; cases hy
  | ok r =>
    rw [ha] at hy
    cases hb : b.decode r.2 with
    | error e => simp only [hb, Except.map] at hy; cases hy
    | ok t =>
      simp only [hb, Except.map, Except.ok.injEq] at hy
      exact ⟨(r.1, t.1), hy.symm, rfl⟩

end Lib.Postcard
