import Mux.FocusWrap

/-!
# Focus and the order of a dictionary

Where two panes are equally near, the one that comes first in the dictionary is the
neighbour, and the order is another one in every run. `Untied` says of the rectangles alone
when that cannot be seen: no tie for the nearest pane and, where the focus wraps, no tie
that leads to another pane in the end.
-/

namespace Mux.Tiling

open Lib

namespace SplitNode

variable {K : Type} [Scalar K] {rects : List (PaneId × CGRect K)} {direction : FocusDirection}

/-- A walk over nearest panes from one pane to one that has none. -/
inductive EndsAt (direction : FocusDirection) (rects : List (PaneId × CGRect K)) : PaneId → PaneId → Prop
  | stop {a : PaneId} (h : ∀ b, ¬ Eligible direction rects a b) : EndsAt direction rects a a
  | step {a b c : PaneId} (h : Nearest direction rects a b) (hc : EndsAt direction rects b c) :
    EndsAt direction rects a c

structure Untied (direction : FocusDirection) (rects : List (PaneId × CGRect K)) (id : PaneId) : Prop where
  nearest : ∀ b c, Nearest direction rects id b → Nearest direction rects id c → b = c
  farSide : (∀ b, ¬ Eligible direction rects id b) →
    ∀ b c, EndsAt direction.opposite rects id b → EndsAt direction.opposite rects id c → b = c

/-- What the user sees does not depend on the orders. -/
structure SameInEveryRun (t : SplitNode) (bounds : CGRect K) (id : PaneId) (direction : FocusDirection) : Prop where
  neighbor : ∀ it it', neighbor it id direction (t.layout bounds) = neighbor it' id direction (t.layout bounds)
  focus : ∀ its its' fuel fuel', (t.layout bounds).length < fuel → (t.layout bounds).length < fuel' →
    focusTarget its id direction (t.layout bounds) fuel = focusTarget its' id direction (t.layout bounds) fuel'
  moving : ∀ it it', t.movingIn it id direction bounds = t.movingIn it' id direction bounds

/-! ## Walks and the loop -/

section
variable [LawfulScalar K] (hkeys : (rects.map fun e => e.1).Nodup)

include hkeys

theorem endsAt_of_wrapped {fuel : Nat} {its : Nat → Iteration (PaneId × CGRect K)} {a b : PaneId}
    (h : wrapped its direction rects fuel a = some b) : EndsAt direction rects a b := by
  induction fuel generalizing its a with
  | zero => cases h
  | succ fuel ih =>
    unfold wrapped at h
    cases hn : neighbor (its 0) a direction rects with
    | none =>
      rw [follow_succ_none hn] at h
      cases h
      exact .stop ((neighbor_eq_none hkeys (its 0)).mp hn)
    | some c =>
      rw [follow_succ_some hn] at h
      exact .step (nearest_of_neighbor hkeys hn) (@ih (fun k => its (k + 1)) c h)

/-- Some orders take the loop along any walk. -/
theorem exists_wrapped {a b : PaneId} (h : EndsAt direction rects a b) :
    ∃ its : Nat → Iteration (PaneId × CGRect K), ∀ fuel, rects.length < fuel →
      wrapped its direction rects fuel a = some b := by
  have hsome : ∃ (its : Nat → Iteration (PaneId × CGRect K)) (fuel : Nat),
      wrapped its direction rects fuel a = some b := by
    induction h with
    | stop hstop =>
      have it : Iteration (PaneId × CGRect K) := ⟨id, fun _ => .refl _⟩
      exact ⟨fun _ => it, 1, follow_succ_none ((neighbor_eq_none hkeys it).mpr hstop) 0⟩
    | step hnear _ ih =>
      obtain ⟨its, fuel, hrest⟩ := ih
      obtain ⟨it, hit⟩ := exists_neighbor hkeys hnear
      refine ⟨fun k => Nat.casesOn k it its, fuel + 1, ?_⟩
      exact (follow_succ_some hit fuel).trans hrest
  obtain ⟨its, fuel, hb⟩ := hsome
  refine ⟨its, ?_⟩
  intro fuel' hf
  obtain ⟨c, hc⟩ := wrapped_ends hkeys its hf a
  rw [hc, follow_unique hb hc]

theorem focusTarget_eq (its : Nat → Iteration (PaneId × CGRect K)) {id : PaneId} {fuel : Nat}
    (hf : rects.length < fuel) :
    (∃ b, Nearest direction rects id b ∧ focusTarget its id direction rects fuel = some (some b)) ∨
      (∀ b, ¬ Eligible direction rects id b) ∧ ∃ last, EndsAt direction.opposite rects id last ∧
        focusTarget its id direction rects fuel = some (if last = id then none else some last) := by
  unfold focusTarget
  cases hn : neighbor (its 0) id direction rects with
  | some b => exact Or.inl ⟨b, nearest_of_neighbor hkeys hn, rfl⟩
  | none =>
    obtain ⟨last, hlast⟩ := @wrapped_ends _ _ _ _ direction.opposite hkeys (fun k => its (k + 1)) _ hf id
    refine Or.inr ⟨(neighbor_eq_none hkeys (its 0)).mp hn, last, endsAt_of_wrapped hkeys hlast, ?_⟩
    simp only [hlast, Option.map_some]

theorem Untied.focusTarget_eq {id : PaneId} (h : Untied direction rects id)
    (its its' : Nat → Iteration (PaneId × CGRect K)) {fuel fuel' : Nat} (hf : rects.length < fuel)
    (hf' : rects.length < fuel') :
    focusTarget its id direction rects fuel = focusTarget its' id direction rects fuel' := by
  rcases SplitNode.focusTarget_eq hkeys its hf with ⟨b, hb, heq⟩ | ⟨hno, last, hlast, heq⟩
  · rcases SplitNode.focusTarget_eq hkeys its' hf' with ⟨c, hc, heq'⟩ | ⟨hno, -⟩
    · rw [heq, heq', h.nearest b c hb hc]
    · exact absurd hb.eligible (hno b)
  · rcases SplitNode.focusTarget_eq hkeys its' hf' with ⟨c, hc, -⟩ | ⟨-, last', hlast', heq'⟩
    · exact absurd hc.eligible (hno c)
    · rw [heq, heq', h.farSide hno last last' hlast hlast']

/-- A walk in the opposite direction is where some orders take the focus. -/
theorem exists_focusTarget {id last : PaneId} (hno : ∀ b, ¬ Eligible direction rects id b)
    (h : EndsAt direction.opposite rects id last) :
    ∃ its : Nat → Iteration (PaneId × CGRect K), ∀ fuel, rects.length < fuel →
      focusTarget its id direction rects fuel = some (if last = id then none else some last) := by
  obtain ⟨its, hits⟩ := exists_wrapped hkeys h
  refine ⟨fun k => its (k - 1), ?_⟩
  intro fuel hf
  unfold focusTarget
  have hnone : neighbor (its (0 - 1)) id direction rects = none := (neighbor_eq_none hkeys _).mpr hno
  have hwrap : wrapped (fun k => its (k + 1 - 1)) direction.opposite rects fuel id = some last := hits fuel hf
  simp only [hnone, hwrap, Option.map_some]

end

/-- Focus and moves in a direction are the same in every run just when no tie decides them. -/
theorem same_in_every_run_iff_untied [LawfulScalar K] {t : SplitNode} (ht : t.leaves.Nodup) (bounds : CGRect K)
    (id : PaneId) (direction : FocusDirection) :
    SameInEveryRun t bounds id direction ↔ Untied direction (t.layout bounds) id := by
  have hkeys : ((t.layout bounds).map fun e => e.1).Nodup := by
    rw [keys_layout ht bounds]
    exact ht
  constructor
  · intro h
    constructor
    · intro b c hb hc
      obtain ⟨it, hit⟩ := exists_neighbor hkeys hb
      obtain ⟨it', hit'⟩ := exists_neighbor hkeys hc
      have hsame := h.neighbor it it'
      rw [hit, hit'] at hsame
      exact Option.some.inj hsame
    · intro hno b c hb hc
      obtain ⟨its, hits⟩ := exists_focusTarget hkeys hno hb
      obtain ⟨its', hits'⟩ := exists_focusTarget hkeys hno hc
      have hf := Nat.lt_succ_self (t.layout bounds).length
      have hsame := h.focus its its' _ _ hf hf
      rw [hits _ hf, hits' _ hf] at hsame
      have htarget := Option.some.inj hsame
      by_cases hbid : b = id
      · by_cases hcid : c = id
        · rw [hbid, hcid]
        · rw [if_pos hbid, if_neg hcid] at htarget
          cases htarget
      · by_cases hcid : c = id
        · rw [if_neg hbid, if_pos hcid] at htarget
          cases htarget
        · rw [if_neg hbid, if_neg hcid] at htarget
          exact Option.some.inj htarget
  · intro h
    have hneighbor : ∀ it it',
        neighbor it id direction (t.layout bounds) = neighbor it' id direction (t.layout bounds) := by
      intro it it'
      cases hn : neighbor it id direction (t.layout bounds) with
      | none => rw [(neighbor_eq_none hkeys it').mpr ((neighbor_eq_none hkeys it).mp hn)]
      | some b =>
        cases hn' : neighbor it' id direction (t.layout bounds) with
        | none =>
          rw [(neighbor_eq_none hkeys it).mpr ((neighbor_eq_none hkeys it').mp hn')] at hn
          exact hn.symm
        | some c => rw [h.nearest b c (nearest_of_neighbor hkeys hn) (nearest_of_neighbor hkeys hn')]
    refine ⟨hneighbor, fun its its' fuel fuel' hf hf' => h.focusTarget_eq hkeys its its' hf hf', ?_⟩
    intro it it'
    unfold movingIn
    rw [hneighbor it it']

/-- Two columns of one width, the second one of two rows. -/
def sideBySide : SplitNode := .split .horizontal evenRatio (.leaf 1) (.split .vertical evenRatio (.leaf 2) (.leaf 3))

/-- To the right of the first column either row is as near. -/
theorem focus_depends_on_order :
    ¬ ∀ (t : SplitNode) (bounds : CGRect Rat) (id : PaneId) (direction : FocusDirection), t.leaves.Nodup →
      SameInEveryRun t bounds id direction := by
  intro h
  have hsame := h sideBySide ⟨⟨0, 0⟩, ⟨201, 101⟩⟩ 1 .right (by decide)
  have hneighbor := hsame.neighbor ⟨id, fun _ => .refl _⟩ ⟨List.reverse, List.reverse_perm⟩
  exact absurd hneighbor (by decide +kernel)

theorem same_in_every_run_iff_untied_rows :
    ¬ Untied .right (sideBySide.layout (⟨⟨0, 0⟩, ⟨201, 101⟩⟩ : CGRect Rat)) 1 := by
  intro h
  have hsame := (@same_in_every_run_iff_untied _ _ _ sideBySide (by decide) _ _ _).mpr h
  exact absurd (hsame.neighbor ⟨id, fun _ => .refl _⟩ ⟨List.reverse, List.reverse_perm⟩) (by decide +kernel)

end SplitNode

end Mux.Tiling
