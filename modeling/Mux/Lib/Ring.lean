import Mathlib.Data.Nat.ModEq
import Mathlib.Logic.Function.Basic

/-!
# Rings of slots

A ring has `n` slots and is addressed by positions without bound: position `k` is in slot
`k % n`. What was written at each position, ring or no ring, is kept beside it as a partial
function; the ring mirrors it over any window of at most `n` positions as long as writes
stay inside.
-/

namespace Lib

open Function

section
variable {α : Type}

/-- The values of a list at consecutive positions of a ring. -/
def writeRing (n : Nat) (f : Nat → α) (pos : Nat) : List α → Nat → α
  | [] => f
  | v :: vs => writeRing n (update f (pos % n) v) (pos + 1) vs

/-- The same where there is a place for every position. -/
def writeAll (g : Nat → Option α) (pos : Nat) : List α → Nat → Option α
  | [] => g
  | v :: vs => writeAll (update g pos (some v)) (pos + 1) vs

/-- The ring still has what was last written at every position from `lo` up to `hi`. -/
def Mirrors (n : Nat) (f : Nat → α) (g : Nat → Option α) (lo hi : Nat) : Prop :=
  ∀ k, lo ≤ k → k < hi → g k = some (f (k % n))

theorem writeAll_of_lt {g : Nat → Option α} {pos k : Nat} (h : k < pos) (vs : List α) :
    writeAll g pos vs k = g k := by
  induction vs generalizing g pos with
  | nil => rfl
  | cons v vs ih => rw [writeAll, ih (by omega), update_of_ne (by omega)]

/-- Positions less than `n` apart are in different slots. -/
theorem mod_ne_of_near {n j k : Nat} (hne : j ≠ k) (h1 : j < k + n) (h2 : k < j + n) : j % n ≠ k % n := by
  intro h
  rcases Nat.lt_or_gt_of_ne hne with hlt | hgt
  · have hdvd : n ∣ k - j := (Nat.modEq_iff_dvd' (by omega)).mp h
    exact absurd (Nat.le_of_dvd (by omega) hdvd) (by omega)
  · have hdvd : n ∣ j - k := (Nat.modEq_iff_dvd' (by omega)).mp h.symm
    exact absurd (Nat.le_of_dvd (by omega) hdvd) (by omega)

theorem Mirrors.mono {n : Nat} {f : Nat → α} {g : Nat → Option α} {lo lo' hi hi' : Nat} (h : Mirrors n f g lo hi)
    (hlo : lo ≤ lo') (hhi : hi' ≤ hi) : Mirrors n f g lo' hi' := by
  intro k h1 h2
  exact h k (by omega) (by omega)

theorem Mirrors.update {n : Nat} {f : Nat → α} {g : Nat → Option α} {lo hi pos : Nat} (h : Mirrors n f g lo hi)
    (hlo : lo ≤ pos) (hpos : pos ≤ hi) (hhi : hi ≤ lo + n) (hn : pos < lo + n) (v : α) :
    Mirrors n (Function.update f (pos % n) v) (Function.update g pos (some v)) lo (max hi (pos + 1)) := by
  intro k h1 h2
  by_cases hk : k = pos
  · subst hk
    rw [update_self, update_self]
  · have hlt : k < hi := by omega
    rw [update_of_ne hk, update_of_ne (mod_ne_of_near hk (by omega) (by omega)), h k h1 hlt]

/-- A write inside a window of `n` positions spoils nothing in it. -/
theorem Mirrors.write {n : Nat} {f : Nat → α} {g : Nat → Option α} {lo hi pos : Nat} {vs : List α}
    (h : Mirrors n f g lo hi) (hlo : lo ≤ pos) (hpos : pos ≤ hi) (hhi : hi ≤ lo + n)
    (hn : pos + vs.length ≤ lo + n) :
    Mirrors n (writeRing n f pos vs) (writeAll g pos vs) lo (max hi (pos + vs.length)) := by
  induction vs generalizing f g pos hi with
  | nil =>
    rw [List.length_nil, Nat.add_zero, Nat.max_eq_left hpos]
    exact h
  | cons v vs ih =>
    rw [List.length_cons] at hn ⊢
    have hput := h.update hlo hpos hhi (by omega) v
    have hrest := ih hput (by omega) (Nat.le_max_right _ _) (by omega) (by omega)
    refine hrest.mono (Nat.le_refl lo) (by omega)

end

end Lib
