import Mathlib.Data.List.Basic
import Mathlib.Algebra.Group.Nat.Defs

/-!
# Bytes

A byte string is a list of bytes, a buffer of a fixed length a subtype of it. Numbers of a
fixed width are laid out with the lowest byte first.
-/

namespace Lib

abbrev Bytes := List UInt8

/-- A buffer of exactly `n` bytes. -/
abbrev Block (n : Nat) := { l : Bytes // l.length = n }

def leBytes : Nat → Nat → Bytes
  | 0, _ => []
  | n + 1, v => UInt8.ofNat (v % 256) :: leBytes n (v / 256)

def leValue : Bytes → Nat
  | [] => 0
  | b :: bs => b.toNat + 256 * leValue bs

@[simp] theorem leBytes_length (n v : Nat) : (leBytes n v).length = n := by
  induction n generalizing v with
  | zero => rfl
  | succ n ih => simp [leBytes, ih]

theorem leValue_leBytes {n v : Nat} (h : v < 256 ^ n) : leValue (leBytes n v) = v := by
  induction n generalizing v with
  | zero => simp at h; simp [leBytes, leValue, h]
  | succ n ih =>
    have hq : v / 256 < 256 ^ n := by
      rw [Nat.pow_succ] at h
      exact Nat.div_lt_of_lt_mul (by omega)
    have hb : (UInt8.ofNat (v % 256)).toNat = v % 256 := by simp
    rw [leBytes, leValue, ih hq, hb]
    omega

theorem leValue_lt (bs : Bytes) : leValue bs < 256 ^ bs.length := by
  induction bs with
  | nil => simp [leValue]
  | cons b bs ih =>
    have hb : b.toNat < 256 := b.toNat_lt
    rw [List.length_cons, leValue, Nat.pow_succ]
    omega

theorem leBytes_leValue (bs : Bytes) : leBytes bs.length (leValue bs) = bs := by
  induction bs with
  | nil => rfl
  | cons b bs ih =>
    have hb : b.toNat < 256 := b.toNat_lt
    have hm : (b.toNat + 256 * leValue bs) % 256 = b.toNat := by omega
    have hd : (b.toNat + 256 * leValue bs) / 256 = leValue bs := by omega
    rw [List.length_cons, leValue, leBytes, hm, hd, ih, UInt8.ofNat_toNat]

/-- A field in front, read and written again. -/
theorem leBytes_take_append_drop {n : Nat} {bs : Bytes} (h : n ≤ bs.length) :
    leBytes n (leValue (bs.take n)) ++ bs.drop n = bs := by
  have hbytes := leBytes_leValue (bs.take n)
  rw [List.length_take_of_le h] at hbytes
  rw [hbytes, List.take_append_drop]

end Lib
