import Mathlib.Data.List.Perm.Subperm

/-!
# Loops that follow a partial step

`follow` goes on from a value as long as the step gives another one, within some fuel; the
step may be another one each time round. When every step climbs in a transitive,
irreflexive relation no value is met twice, so the loop ends before it has met more values
than there are.
-/

namespace Lib

section
variable {α : Type}

def follow (step : Nat → α → Option α) : Nat → α → Option α
  | 0, _ => none
  | fuel + 1, a =>
    match step 0 a with
    | none => some a
    | some b => follow (fun k => step (k + 1)) fuel b

/-- The values the loop meets, the first one included. -/
def trail (step : Nat → α → Option α) : Nat → α → List α
  | 0, _ => []
  | fuel + 1, a =>
    a :: match step 0 a with
      | none => []
      | some b => trail (fun k => step (k + 1)) fuel b

variable {step : Nat → α → Option α}

theorem follow_succ_none {a : α} (h : step 0 a = none) (fuel : Nat) : follow step (fuel + 1) a = some a := by
  simp [follow, h]

theorem follow_succ_some {a b : α} (h : step 0 a = some b) (fuel : Nat) :
    follow step (fuel + 1) a = follow (fun k => step (k + 1)) fuel b := by
  simp [follow, h]

theorem trail_succ_none {a : α} (h : step 0 a = none) (fuel : Nat) : trail step (fuel + 1) a = [a] := by
  simp [trail, h]

theorem trail_succ_some {a b : α} (h : step 0 a = some b) (fuel : Nat) :
    trail step (fuel + 1) a = a :: trail (fun k => step (k + 1)) fuel b := by
  simp [trail, h]

/-- More fuel changes nothing once the loop ends. -/
theorem follow_mono {fuel fuel' : Nat} {a b : α} (h : follow step fuel a = some b) (hle : fuel ≤ fuel') :
    follow step fuel' a = some b := by
  induction fuel generalizing step a fuel' with
  | zero => cases h
  | succ fuel ih =>
    obtain ⟨m, rfl⟩ : ∃ m, fuel' = m + 1 := ⟨fuel' - 1, by omega⟩
    cases hs : step 0 a with
    | none =>
      rw [follow_succ_none hs] at h ⊢
      exact h
    | some c =>
      rw [follow_succ_some hs] at h ⊢
      exact ih h (by omega)

theorem follow_unique {fuel fuel' : Nat} {a b c : α} (hb : follow step fuel a = some b)
    (hc : follow step fuel' a = some c) : b = c := by
  have h1 := follow_mono hb (Nat.le_max_left fuel fuel')
  have h2 := follow_mono hc (Nat.le_max_right fuel fuel')
  exact Option.some.inj (h1.symm.trans h2)

/-- The loop stops only where the step gives nothing. -/
theorem step_follow {fuel : Nat} {a b : α} (h : follow step fuel a = some b) : ∃ k, step k b = none := by
  induction fuel generalizing step a with
  | zero => cases h
  | succ fuel ih =>
    cases hs : step 0 a with
    | none =>
      rw [follow_succ_none hs] at h
      cases h
      exact ⟨0, hs⟩
    | some c =>
      rw [follow_succ_some hs] at h
      obtain ⟨k, hk⟩ := ih h
      exact ⟨k + 1, hk⟩

theorem getLast_trail {fuel : Nat} {a b : α} (h : follow step fuel a = some b) :
    (trail step fuel a).getLast? = some b := by
  induction fuel generalizing step a with
  | zero => cases h
  | succ fuel ih =>
    cases hs : step 0 a with
    | none =>
      rw [follow_succ_none hs] at h
      rw [trail_succ_none hs, List.getLast?_singleton, h]
    | some c =>
      rw [follow_succ_some hs] at h
      rw [trail_succ_some hs, List.getLast?_cons, ih h, Option.getD_some]

/-- Out of fuel, the loop has met a value for each unit and one more. -/
theorem length_trail {fuel : Nat} {a : α} (h : follow step fuel a = none) :
    (trail step (fuel + 1) a).length = fuel + 1 := by
  induction fuel generalizing step a with
  | zero => cases hs : step 0 a <;> simp [trail, hs]
  | succ fuel ih =>
    cases hs : step 0 a with
    | none =>
      rw [follow_succ_none hs] at h
      cases h
    | some c =>
      rw [follow_succ_some hs] at h
      rw [trail_succ_some hs, List.length_cons, ih h]

theorem trail_subset {S : List α} (hS : ∀ k a b, step k a = some b → b ∈ S) {fuel : Nat} {a : α} :
    trail step fuel a ⊆ a :: S := by
  induction fuel generalizing step a with
  | zero => exact List.nil_subset _
  | succ fuel ih =>
    cases hs : step 0 a with
    | none =>
      rw [trail_succ_none hs]
      exact List.cons_subset_cons _ (List.nil_subset _)
    | some c =>
      rw [trail_succ_some hs]
      refine List.cons_subset_cons _ ?_
      intro x hx
      rcases List.mem_cons.mp (ih (fun k => hS (k + 1)) hx) with rfl | hmem
      · exact hS 0 a x hs
      · exact hmem

/-! ## Steps that climb -/

section
variable {r : α → α → Prop} (hstep : ∀ k a b, step k a = some b → r a b) (htrans : ∀ {a b c}, r a b → r b c → r a c)

include hstep htrans

theorem rel_trail {fuel : Nat} {a c : α} (h : r c a) : ∀ b ∈ trail step fuel a, r c b := by
  induction fuel generalizing step a with
  | zero => intro b hb; cases hb
  | succ fuel ih =>
    intro b hb
    cases hs : step 0 a with
    | none =>
      rw [trail_succ_none hs, List.mem_singleton] at hb
      exact hb ▸ h
    | some d =>
      rw [trail_succ_some hs] at hb
      rcases List.mem_cons.mp hb with rfl | hb
      · exact h
      · exact ih (fun k => hstep (k + 1)) (htrans h (hstep 0 a d hs)) b hb

theorem pairwise_trail {fuel : Nat} {a : α} : (trail step fuel a).Pairwise r := by
  induction fuel generalizing step a with
  | zero => exact List.Pairwise.nil
  | succ fuel ih =>
    cases hs : step 0 a with
    | none =>
      rw [trail_succ_none hs]
      exact List.pairwise_singleton r a
    | some b =>
      rw [trail_succ_some hs, List.pairwise_cons]
      have hrest : ∀ k c d, step (k + 1) c = some d → r c d := fun k => hstep (k + 1)
      exact ⟨rel_trail hrest htrans (hstep 0 a b hs), ih hrest⟩

variable (hirrefl : ∀ a, ¬ r a a)

include hirrefl

theorem nodup_trail {fuel : Nat} {a : α} : (trail step fuel a).Nodup := by
  apply (pairwise_trail hstep htrans).imp
  intro b c hbc heq
  exact hirrefl c (heq ▸ hbc)

/-- A loop that climbs among finitely many values ends. -/
theorem follow_ends {S : List α} (hS : ∀ k a b, step k a = some b → b ∈ S) {fuel : Nat} (hf : S.length < fuel)
    (a : α) : ∃ b, follow step fuel a = some b := by
  cases h : follow step fuel a with
  | some b => exact ⟨b, rfl⟩
  | none =>
    have hn : (trail step (fuel + 1) a).Nodup := nodup_trail hstep htrans hirrefl
    have hle := (hn.subperm (trail_subset hS)).length_le
    rw [length_trail h, List.length_cons] at hle
    omega

end

end

end Lib
