import Mathlib.Algebra.Group.Nat.Defs
import Mux.Lib.Hex

/-!
# The text of a UUID

Five groups of hexadecimal digits. Writing uses upper-case digits; reading takes either
case.
-/

namespace Lib

def upperDigit (n : Nat) : Char := "0123456789ABCDEF".toList.getD n '0'

/-- The last `w` digits of `n`. -/
def hexText : Nat → Nat → Text
  | 0, _ => []
  | w + 1, n => hexText w (n / 16) ++ [upperDigit (n % 16)]

def hexNumber (t : Text) : Option Nat := t.foldlM (fun a c => (hexValue c).map fun v => 16 * a + v) 0

/-- The first `k` characters and the rest. -/
def group (k : Nat) (t : Text) : Option (Text × Text) :=
  if (t.take k).length = k then some (t.take k, t.drop k) else none

def dash : Text → Option Text
  | '-' :: rest => some rest
  | _ => none

def uuidString (n : Nat) : String :=
  String.ofList (hexText 8 (n / 16 ^ 24) ++ '-' :: (hexText 4 (n / 16 ^ 20) ++ '-' :: (hexText 4 (n / 16 ^ 16) ++
    '-' :: (hexText 4 (n / 16 ^ 12) ++ '-' :: hexText 12 n))))

def uuidOf (s : String) : Option Nat := do
  let (a, t) ← group 8 s.toList
  let t ← dash t
  let (b, t) ← group 4 t
  let t ← dash t
  let (c, t) ← group 4 t
  let t ← dash t
  let (d, t) ← group 4 t
  let t ← dash t
  let (e, t) ← group 12 t
  if t = [] then hexNumber (a ++ b ++ c ++ d ++ e) else none

theorem length_hexText (w n : Nat) : (hexText w n).length = w := by
  induction w generalizing n with
  | zero => rfl
  | succ w ih => rw [hexText, List.length_append, ih, List.length_singleton]

theorem hexText_append (v w n : Nat) : hexText v (n / 16 ^ w) ++ hexText w n = hexText (v + w) n := by
  induction w generalizing n with
  | zero => simp [hexText]
  | succ w ih =>
    have hdiv : n / 16 ^ (w + 1) = n / 16 / 16 ^ w := by rw [Nat.div_div_eq_div_mul, Nat.pow_succ']
    rw [hexText, ← List.append_assoc, hdiv, ih, ← Nat.add_assoc, hexText]

theorem hexValue_upperDigit : ∀ n < 16, hexValue (upperDigit n) = some n := by decide

theorem hexNumber_hexText (w n : Nat) : hexNumber (hexText w n) = some (n % 16 ^ w) := by
  induction w generalizing n with
  | zero => simp [hexText, hexNumber, Nat.mod_one]
  | succ w ih =>
    have hd := hexValue_upperDigit (n % 16) (Nat.mod_lt _ (by decide))
    have hmod : 16 * (n / 16 % 16 ^ w) + n % 16 = n % 16 ^ (w + 1) := by
      rw [Nat.pow_succ', Nat.mod_mul, Nat.add_comm]
    unfold hexNumber at ih ⊢
    rw [hexText, List.foldlM_append, ih]
    simp [hd, hmod]

theorem group_append {g t : Text} {k : Nat} (h : g.length = k) : group k (g ++ t) = some (g, t) := by
  simp [group, ← h]

theorem group_hexText (w n : Nat) (t : Text) : group w (hexText w n ++ t) = some (hexText w n, t) :=
  group_append (length_hexText w n)

theorem uuidOf_uuidString {n : Nat} (h : n < 2 ^ 128) : uuidOf (uuidString n) = some n := by
  have hlast : group 12 (hexText 12 n) = some (hexText 12 n, []) := by
    have := group_hexText 12 n []
    rwa [List.append_nil] at this
  have h4 := hexText_append 4 12 n
  have h3 := hexText_append 4 16 n
  have h2 := hexText_append 4 20 n
  have h1 := hexText_append 8 24 n
  have hall : hexText 8 (n / 16 ^ 24) ++ hexText 4 (n / 16 ^ 20) ++ hexText 4 (n / 16 ^ 16) ++ hexText 4 (n / 16 ^ 12) ++
      hexText 12 n = hexText 32 n := by
    rw [List.append_assoc, List.append_assoc, List.append_assoc, h4, h3, h2, h1]
  have hmod : n % 16 ^ 32 = n := Nat.mod_eq_of_lt h
  unfold uuidOf uuidString
  simp only [String.toList_ofList, group_hexText, dash, hlast, Option.bind_eq_bind, Option.bind_some, if_true, hall,
    hexNumber_hexText, hmod]

end Lib
