import Mathlib.Algebra.Order.Ring.Rat
import Mathlib.Tactic.Linarith

/-!
# Rounded arithmetic

What a floating-point operation gives is its exact result, rounded. A rounding keeps the order and leaves the
values its format holds as they are; of those only the quarters of integers are named here. So a bound that is
a quarter holds of the rounded value too.
-/

namespace Lib

structure Rounding where
  round : Rat → Rat
  mono : ∀ {x y : Rat}, x ≤ y → round x ≤ round y
  quarters : ∀ n : Int, n.natAbs ≤ 2 ^ 40 → round (n / 4) = n / 4

namespace Rounding

/-- Arithmetic without rounding. -/
def exact : Rounding where
  round x := x
  mono h := h
  quarters _ _ := rfl

variable (F : Rounding)

theorem round_le {n : Int} {x : Rat} (hn : n.natAbs ≤ 2 ^ 40) (h : x ≤ (n / 4 : Rat)) : F.round x ≤ (n / 4 : Rat) := by
  have := F.mono h
  rwa [F.quarters n hn] at this

theorem round_int {n : Int} (hn : n.natAbs ≤ 2 ^ 38) : F.round n = n := by
  have h4 : (4 * n).natAbs ≤ 2 ^ 40 := by omega
  have := F.quarters (4 * n) h4
  have heq : ((4 * n : Int) : Rat) / 4 = n := by
    push_cast
    linarith
  rwa [heq] at this

theorem int_le_round {n : Int} {x : Rat} (hn : n.natAbs ≤ 2 ^ 38) (h : (n : Rat) ≤ x) : (n : Rat) ≤ F.round x := by
  have := F.mono h
  rwa [F.round_int hn] at this

theorem round_le_int {n : Int} {x : Rat} (hn : n.natAbs ≤ 2 ^ 38) (h : x ≤ (n : Rat)) : F.round x ≤ (n : Rat) := by
  have := F.mono h
  rwa [F.round_int hn] at this

/-- `a + (b - a) * t`, each operation rounded. -/
def interpolate (a b : Int) (t : Rat) : Rat := F.round (a + F.round (F.round (b - a) * t))

/-- A rounded interpolation does not leave the interval of its ends. -/
theorem interpolate_between {a b : Int} {t : Rat} (ha : a.natAbs ≤ 2 ^ 36) (hb : b.natAbs ≤ 2 ^ 36) (h0 : 0 ≤ t)
    (h1 : t ≤ 1) : (min a b : Int) ≤ F.interpolate a b t ∧ F.interpolate a b t ≤ (max a b : Int) := by
  have hd : F.round ((b : Rat) - a) = b - a := by
    have := F.round_int (n := b - a) (by omega)
    push_cast at this
    exact this
  unfold interpolate
  rw [hd]
  rcases le_total a b with hab | hab
  · have hr : (a : Rat) ≤ b := by exact_mod_cast hab
    have hlow : (0 : Rat) ≤ (b - a) * t := mul_nonneg (by linarith) h0
    have hhigh : ((b : Rat) - a) * t ≤ b - a := mul_le_of_le_one_right (by linarith) h1
    have hlow' := F.int_le_round (n := 0) (by decide) (by exact_mod_cast hlow)
    have hhigh' := F.round_le_int (n := b - a) (by omega) (by push_cast; exact hhigh)
    push_cast at hlow' hhigh'
    rw [min_eq_left hab, max_eq_right hab]
    exact ⟨F.int_le_round (by omega) (by linarith), F.round_le_int (by omega) (by linarith)⟩
  · have hr : (b : Rat) ≤ a := by exact_mod_cast hab
    have hhigh : ((b : Rat) - a) * t ≤ 0 := mul_nonpos_of_nonpos_of_nonneg (by linarith) h0
    have hlow : (b : Rat) - a ≤ (b - a) * t := by nlinarith
    have hhigh' := F.round_le_int (n := 0) (by decide) (by exact_mod_cast hhigh)
    have hlow' := F.int_le_round (n := b - a) (by omega) (by push_cast; exact hlow)
    push_cast at hlow' hhigh'
    rw [min_eq_right hab, max_eq_left hab]
    exact ⟨F.int_le_round (by omega) (by linarith), F.round_le_int (by omega) (by linarith)⟩

end Rounding

end Lib
