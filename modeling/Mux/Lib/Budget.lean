import Mathlib.Algebra.BigOperators.Group.List.Defs
import Mathlib.Algebra.Order.Monoid.Canonical.Defs

/-!
# Computations on a budget

A computation that can fail, and that keeps count of what it has spent. `Spends` says all
there is to know of one whose success does not depend on the count but for the limit: when
it succeeds, what it gives and what it costs. The rules follow the ways such computations
are put together, so that the limit is checked at every step and stated once, for the sum.
-/

namespace Lib

abbrev Metered (S E α : Type) := StateT S (Except E) α

section
variable {S E E' α β γ : Type}

def refuseIf (bad : Prop) [Decidable bad] (e : E) : Metered S E Unit := if bad then throw e else pure ()

/-- The same computation, with its error in other words. -/
def explained (f : E → E') (x : Metered S E α) : Metered S E' α := fun c => (x.run c).mapError f

theorem except_bind_eq_ok {x : Except E α} {f : α → Except E β} {b : β} :
    x >>= f = .ok b ↔ ∃ a, x = .ok a ∧ f a = .ok b := by
  cases x with
  | error e => exact iff_of_false (by intro h; cases h) (by rintro ⟨a, h, -⟩; cases h)
  | ok a =>
    constructor
    · intro h
      exact ⟨a, rfl, h⟩
    · rintro ⟨a', h, hf⟩
      cases h
      exact hf

variable [AddMonoid S] [Preorder S] {limit : S}

/-- Started within the limit, `x` succeeds if and only if it is `fine` and its cost fits, and then gives `out`. -/
structure Spends (limit : S) (x : Metered S E α) (fine : Prop) (cost : S) (out : α) : Prop where
  run_eq_ok : ∀ c, c ≤ limit → ∀ r, x.run c = .ok r ↔ (fine ∧ c + cost ≤ limit) ∧ r = (out, c + cost)

namespace Spends

theorem congr {x : Metered S E α} {P Q : Prop} {k l : S} {a b : α} (h : Spends limit x P k a) (hfine : P ↔ Q)
    (hcost : k = l) (hout : a = b) : Spends limit x Q l b := by
  subst hcost hout
  refine ⟨?_⟩
  intro c hc r
  rw [h.run_eq_ok c hc r, hfine]

theorem pure (a : α) : Spends limit (Pure.pure a : Metered S E α) True 0 a := by
  refine ⟨?_⟩
  intro c hc r
  rw [StateT.run_pure, add_zero]
  constructor
  · intro h
    cases h
    exact ⟨⟨trivial, hc⟩, rfl⟩
  · rintro ⟨-, rfl⟩
    rfl

theorem refuseIf (bad : Prop) [Decidable bad] (e : E) : Spends limit (Lib.refuseIf bad e) (¬ bad) 0 () := by
  refine ⟨?_⟩
  intro c hc r
  unfold Lib.refuseIf
  by_cases hbad : bad
  · rw [if_pos hbad]
    refine iff_of_false (by intro h; cases h) ?_
    rintro ⟨⟨hgood, -⟩, -⟩
    exact hgood hbad
  · rw [if_neg hbad, (pure ()).run_eq_ok c hc r]
    simp only [hbad, not_false_eq_true]

/-- Spending, and refusing what then exceeds the limit. -/
theorem count (k : S) (exceeds : S → Prop) [DecidablePred exceeds] (e : E)
    (h : ∀ c, c ≤ limit → (exceeds (c + k) ↔ ¬ c + k ≤ limit)) :
    Spends limit (do modify (· + k); Lib.refuseIf (exceeds (← get)) e) True k () := by
  refine ⟨?_⟩
  intro c hc r
  change (Lib.refuseIf (exceeds (c + k)) e).run (c + k) = _ ↔ _
  unfold Lib.refuseIf
  by_cases hexceeds : exceeds (c + k)
  · rw [if_pos hexceeds]
    refine iff_of_false (by intro h; cases h) ?_
    rintro ⟨⟨-, hle⟩, -⟩
    exact (h c hc).mp hexceeds hle
  · rw [if_neg hexceeds]
    have hle : c + k ≤ limit := not_not.mp fun hnot => hexceeds ((h c hc).mpr hnot)
    constructor
    · intro hr
      cases hr
      exact ⟨⟨trivial, hle⟩, rfl⟩
    · rintro ⟨-, rfl⟩
      rfl

/-- A computation that knows nothing of the budget. -/
theorem lift {x : Except E α} {P : Prop} {a : α} (h : ∀ b, x = .ok b ↔ P ∧ b = a) :
    Spends limit (StateT.lift x) P (0 : S) a := by
  refine ⟨?_⟩
  intro c hc r
  rw [StateT.run_lift, add_zero, except_bind_eq_ok]
  constructor
  · rintro ⟨b, hx, hr⟩
    obtain ⟨hP, rfl⟩ := (h b).mp hx
    cases hr
    exact ⟨⟨hP, hc⟩, rfl⟩
  · rintro ⟨⟨hP, -⟩, rfl⟩
    exact ⟨a, (h a).mpr ⟨hP, rfl⟩, rfl⟩

theorem explained {x : Metered S E α} {P : Prop} {k : S} {a : α} (h : Spends limit x P k a) (f : E → E') :
    Spends limit (Lib.explained f x) P k a := by
  refine ⟨?_⟩
  intro c hc r
  rw [← h.run_eq_ok c hc r]
  change (x.run c).mapError f = _ ↔ _
  cases x.run c with
  | error e => exact iff_of_false (by intro h; cases h) (by intro h; cases h)
  | ok s =>
    constructor
    · intro h
      cases h
      rfl
    · intro h
      cases h
      rfl

variable [CanonicallyOrderedAdd S]

theorem bind {x : Metered S E α} {f : α → Metered S E β} {P Q : Prop} {k l : S} {a : α} {b : β}
    (hx : Spends limit x P k a) (hf : Spends limit (f a) Q l b) : Spends limit (x >>= f) (P ∧ Q) (k + l) b := by
  refine ⟨?_⟩
  intro c hc r
  rw [StateT.run_bind, except_bind_eq_ok, ← add_assoc]
  constructor
  · rintro ⟨s, hs, hr⟩
    obtain ⟨⟨hP, hk⟩, rfl⟩ := (hx.run_eq_ok c hc s).mp hs
    obtain ⟨⟨hQ, hl⟩, rfl⟩ := (hf.run_eq_ok (c + k) hk r).mp hr
    exact ⟨⟨⟨hP, hQ⟩, hl⟩, rfl⟩
  · rintro ⟨⟨⟨hP, hQ⟩, hl⟩, rfl⟩
    -- what the second part leaves within the limit, the first did before it
    have hk : c + k ≤ limit := le_trans le_self_add hl
    exact ⟨(a, c + k), (hx.run_eq_ok c hc _).mpr ⟨⟨hP, hk⟩, rfl⟩, (hf.run_eq_ok (c + k) hk _).mpr ⟨⟨hQ, hl⟩, rfl⟩⟩

theorem map {x : Metered S E α} {P : Prop} {k : S} {a : α} (h : Spends limit x P k a) (f : α → β) :
    Spends limit (do let a ← x; Pure.pure (f a)) P k (f a) :=
  (h.bind (f := fun a => Pure.pure (f a)) (pure (f a))).congr (and_iff_left trivial) (add_zero k) rfl

/-- A list is worked through from the left, and the costs add up. -/
theorem mapM {f : α → Metered S E β} {fine : α → Prop} {cost : α → S} {out : α → β} {l : List α}
    (h : ∀ a ∈ l, Spends limit (f a) (fine a) (cost a) (out a)) :
    Spends limit (l.mapM f) (∀ a ∈ l, fine a) (l.map cost).sum (l.map out) := by
  induction l with
  | nil => exact (pure []).congr (by simp) rfl rfl
  | cons a l ih =>
    have hrest := ih fun b hb => h b (List.mem_cons_of_mem _ hb)
    rw [List.mapM_cons]
    refine ((h a List.mem_cons_self).bind (hrest.map _)).congr ?_ ?_ ?_
    · rw [List.forall_mem_cons]
    · rw [List.map_cons, List.sum_cons]
    · rw [List.map_cons]

end Spends

end

end Lib
