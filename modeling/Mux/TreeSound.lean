import Mathlib.Data.List.Nodup
import Mux.Geometry

/-!
# Laws of insertion, removal and moves

A tree is read through its leaves and its branches, a branch through the leaves of its two
children. Removing a leaf takes it out of both lists and drops the branches that are left
with one side; the sibling is promoted at any depth. A move is a removal and an insertion:
the neighbour is another leaf of the old tree, so it is still there in the new one.
-/

namespace Mux.Tiling

/-- A split by what it keeps when leaves around it go. -/
structure Branch where
  direction : SplitDirection
  ratio : Rat
  first : List PaneId
  second : List PaneId
deriving Repr, DecidableEq

namespace Branch

def without (id : PaneId) (b : Branch) : Branch :=
  ⟨b.direction, b.ratio, b.first.filter (· ≠ id), b.second.filter (· ≠ id)⟩

/-- Something is left on both sides. -/
def stands (b : Branch) : Bool := !b.first.isEmpty && !b.second.isEmpty

end Branch

namespace SplitNode

def branches : SplitNode → List Branch
  | .leaf _ => []
  | .split d r first second => ⟨d, r, first.leaves, second.leaves⟩ :: (first.branches ++ second.branches)

/-- What is left of a split: both children, the one that is left, or nothing. -/
def promote (d : SplitDirection) (r : Rat) : Option SplitNode → Option SplitNode → Option SplitNode
  | some first, some second => some (.split d r first second)
  | first, second => first.or second

theorem removing_split (d : SplitDirection) (r : Rat) (first second : SplitNode) (id : PaneId) :
    (split d r first second).removing id = promote d r (first.removing id) (second.removing id) := by
  rw [removing]
  cases first.removing id <;> cases second.removing id <;> rfl

theorem promote_bind (d : SplitDirection) (r : Rat) (first second : Option SplitNode) (id : PaneId) :
    (promote d r first second).bind (removing id) =
      promote d r (first.bind (removing id)) (second.bind (removing id)) := by
  cases first with
  | none =>
    cases second with
    | none => rfl
    | some s => cases hs : s.removing id <;> simp [promote, hs]
  | some f =>
    cases second with
    | none => cases hf : f.removing id <;> simp [promote, hf]
    | some s => simp [promote, removing_split]

theorem leavesOf_promote (d : SplitDirection) (r : Rat) (first second : Option SplitNode) :
    leavesOf (promote d r first second) = leavesOf first ++ leavesOf second := by
  cases first <;> cases second <;> simp [promote, leaves]

/-! ## Absent leaves -/

theorem removing_of_absent {id : PaneId} {t : SplitNode} (h : id ∉ t.leaves) : t.removing id = some t := by
  induction t with
  | leaf l =>
    rw [leaves, List.mem_singleton] at h
    simp [removing, Ne.symm h]
  | split d r first second ih1 ih2 =>
    simp only [leaves, List.mem_append, not_or] at h
    rw [removing_split, ih1 h.1, ih2 h.2]
    rfl

theorem inserting_of_absent {target : PaneId} {t : SplitNode} (h : target ∉ t.leaves) (x : PaneId)
    (d : SplitDirection) (r : Rat) (b : Bool) : t.inserting x target d r b = t := by
  induction t with
  | leaf l =>
    rw [leaves, List.mem_singleton] at h
    simp [inserting, Ne.symm h]
  | split d' r' first second ih1 ih2 =>
    simp only [leaves, List.mem_append, not_or] at h
    rw [inserting, ih1 h.1, ih2 h.2]

/-! ## Removal after insertion -/

theorem removing_insertingAtRoot {x : PaneId} {t : SplitNode} (h : x ∉ t.leaves) (d : SplitDirection) (r : Rat)
    (b : Bool) : (t.insertingAtRoot x d r b).removing x = some t := by
  cases b with
  | true => simp [insertingAtRoot, removing_split, removing_of_absent h, removing, promote]
  | false => simp [insertingAtRoot, removing_split, removing_of_absent h, removing, promote]

theorem removing_inserting {x : PaneId} {t : SplitNode} (h : x ∉ t.leaves) (target : PaneId) (d : SplitDirection)
    (r : Rat) (b : Bool) : (t.inserting x target d r b).removing x = some t := by
  induction t with
  | leaf l =>
    by_cases hl : l = target
    · rw [inserting, if_pos hl, removing_insertingAtRoot h]
    · rw [inserting, if_neg hl, removing_of_absent h]
  | split d' r' first second ih1 ih2 =>
    simp only [leaves, List.mem_append, not_or] at h
    rw [inserting, removing_split, ih1 h.1, ih2 h.2]
    rfl

/-! ## What a removal leaves -/

theorem leaves_removing (id : PaneId) (t : SplitNode) :
    leavesOf (t.removing id) = t.leaves.filter (· ≠ id) := by
  induction t with
  | leaf l =>
    by_cases h : l = id
    · simp [removing, leaves, h]
    · simp [removing, leaves, h]
  | split d r first second ih1 ih2 =>
    rw [removing_split, leavesOf_promote, ih1, ih2, leaves, List.filter_append]

theorem leavesOf_eq_nil {t : Option SplitNode} : leavesOf t = [] ↔ t = none := by
  cases t with
  | none => simp
  | some t => simp [leaves_ne_nil]

theorem removing_eq_none {t : SplitNode} (ht : t.leaves.Nodup) {id : PaneId} :
    t.removing id = none ↔ t.leaves = [id] := by
  rw [← leavesOf_eq_nil, leaves_removing]
  constructor
  · intro h
    have hall : ∀ x ∈ t.leaves, x = id := by simpa using h
    have hrep := List.eq_replicate_of_mem hall
    have hone := List.nodup_iff_count.mp ht id
    rw [hrep, List.count_replicate_self] at hone
    have hpos := List.length_pos_iff.mpr t.leaves_ne_nil
    rw [hrep, Nat.le_antisymm hone hpos, List.replicate_one]
  · intro h
    simp [h]

def branchesOf (t : Option SplitNode) : List Branch := (t.map branches).getD []

theorem branchesOf_promote (d : SplitDirection) (r : Rat) (first second : Option SplitNode) :
    branchesOf (promote d r first second) =
      [(⟨d, r, leavesOf first, leavesOf second⟩ : Branch)].filter Branch.stands ++
        (branchesOf first ++ branchesOf second) := by
  cases first with
  | none => cases second <;> simp [promote, branchesOf, Branch.stands]
  | some f =>
    cases second with
    | none => simp [promote, branchesOf, Branch.stands]
    | some s =>
      have hstands : Branch.stands ⟨d, r, f.leaves, s.leaves⟩ = true := by simp [Branch.stands, leaves_ne_nil]
      simp [promote, branchesOf, branches, hstands]

theorem branches_removing (id : PaneId) (t : SplitNode) :
    branchesOf (t.removing id) = (t.branches.map (Branch.without id)).filter Branch.stands := by
  induction t with
  | leaf l =>
    by_cases h : l = id
    · simp [removing, branchesOf, branches, h]
    · simp [removing, branchesOf, branches, h]
  | split d r first second ih1 ih2 =>
    rw [removing_split, branchesOf_promote, ih1, ih2, leaves_removing, leaves_removing, branches, List.map_cons,
      List.map_append, ← List.filter_append, ← List.filter_append]
    rfl

theorem removing_comm (a b : PaneId) (t : SplitNode) :
    (t.removing a).bind (removing b) = (t.removing b).bind (removing a) := by
  induction t with
  | leaf l =>
    by_cases ha : l = a
    · subst ha
      by_cases hb : l = b
      · simp [removing, hb]
      · simp [removing, hb]
    · by_cases hb : l = b
      · subst hb
        simp [removing, ha]
      · simp [removing, ha, hb]
  | split d r first second ih1 ih2 =>
    rw [removing_split, removing_split, promote_bind, promote_bind, ih1, ih2]

structure Laws (t : SplitNode) : Prop where
  undoes : ∀ x ∉ t.leaves, ∀ (d : SplitDirection) (r : Rat) (b : Bool),
    (∀ target ∈ t.leaves, (t.inserting x target d r b).removing x = some t) ∧
      (t.insertingAtRoot x d r b).removing x = some t
  leaves : ∀ id, leavesOf (t.removing id) = t.leaves.filter (· ≠ id)
  empties : ∀ id, t.removing id = none ↔ t.leaves = [id]
  /-- What is left of the splits, in their order, is each as it was less the leaf. -/
  branches : ∀ id, branchesOf (t.removing id) = (t.branches.map (Branch.without id)).filter Branch.stands
  commutes : ∀ a b, a ≠ b → (t.removing a).bind (removing b) = (t.removing b).bind (removing a)
  absent : ∀ id ∉ t.leaves, t.removing id = some t ∧
    ∀ (x : PaneId) (d : SplitDirection) (r : Rat) (b : Bool), t.inserting x id d r b = t

theorem insertion_removal_laws {t : SplitNode} (ht : t.leaves.Nodup) : Laws t where
  undoes _ hx d r b :=
    ⟨fun target _ => removing_inserting hx target d r b, removing_insertingAtRoot hx d r b⟩
  leaves id := leaves_removing id t
  empties _ := removing_eq_none ht
  branches id := branches_removing id t
  commutes a b _ := removing_comm a b t
  absent _ hid := ⟨removing_of_absent hid, fun x d r b => inserting_of_absent hid x d r b⟩

/-- Two leaves that are siblings, beside a third that both removals promote. -/
theorem insertion_removal_laws_nested :
    Laws (.split .horizontal (1 / 3) (.split .vertical (1 / 2) (.leaf 1) (.leaf 2)) (.leaf 3)) :=
  insertion_removal_laws (by decide)

/-! ## Moves -/

/-- Some split along `axis` has the pane as its whole child on that side. -/
def alongside (id : PaneId) (axis : SplitDirection) (toFirst : Bool) : SplitNode → Bool
  | .leaf _ => false
  | .split d r first second =>
    (split d r first second).spansEdge id axis toFirst || first.alongside id axis toFirst ||
      second.alongside id axis toFirst

theorem spansEdge_insertingAtRoot (id : PaneId) (axis : SplitDirection) (r : Rat) (toFirst : Bool) (t : SplitNode) :
    (t.insertingAtRoot id axis r toFirst).spansEdge id axis toFirst = true := by
  cases toFirst <;> simp [insertingAtRoot, spansEdge]

theorem alongside_of_spansEdge {id : PaneId} {axis : SplitDirection} {toFirst : Bool} {t : SplitNode}
    (h : t.spansEdge id axis toFirst = true) : t.alongside id axis toFirst = true := by
  cases t with
  | leaf l => cases h
  | split d r first second => simp [alongside, h]

theorem alongside_inserting {id n : PaneId} {axis : SplitDirection} {r : Rat} {toFirst : Bool} {t : SplitNode}
    (h : n ∈ t.leaves) : (t.inserting id n axis r toFirst).alongside id axis toFirst = true := by
  induction t with
  | leaf l =>
    rw [leaves, List.mem_singleton] at h
    rw [inserting, if_pos h.symm]
    exact alongside_of_spansEdge (spansEdge_insertingAtRoot id axis r toFirst _)
  | split d r' first second ih1 ih2 =>
    rw [leaves, List.mem_append] at h
    rcases h with h | h
    · simp [inserting, alongside, ih1 h]
    · simp [inserting, alongside, ih2 h]

theorem moving_eq_none {t : SplitNode} (ht : t.leaves.Nodup) (id : PaneId) (direction : FocusDirection)
    (n : Option PaneId) :
    t.moving id direction n = none ↔ id ∉ t.leaves ∨ t.leaves = [id] ∨
      (t.spansEdge id direction.axis direction.toFirst = true ∧ n = none) := by
  unfold moving
  by_cases hid : id ∈ t.leaves
  · rw [if_pos (contains_iff.mpr hid)]
    cases hr : t.removing id with
    | none => simp [(removing_eq_none ht).mp hr]
    | some rest =>
      have hne : t.leaves ≠ [id] := fun h => by simp [(removing_eq_none ht).mpr h] at hr
      cases n with
      | some n => simp [hid, hne]
      | none => simp [hid, hne]
  · rw [if_neg (by rwa [contains_iff])]
    simp [hid]

theorem alongside_moving {t t' : SplitNode} {id : PaneId} {direction : FocusDirection} {n : Option PaneId}
    (hn : ∀ x ∈ n, x ≠ id ∧ x ∈ t.leaves) (h : t.moving id direction n = some t') :
    t'.alongside id direction.axis direction.toFirst = true := by
  unfold moving at h
  split at h
  · obtain ⟨rest, hrest, h⟩ := Option.bind_eq_some_iff.mp h
    cases n with
    | some x =>
      cases h
      -- the neighbour survives the removal
      have hx : x ∈ rest.leaves := by
        have hl := leaves_removing id t
        rw [hrest, leavesOf_some] at hl
        rw [hl]
        simpa using ⟨(hn x rfl).2, (hn x rfl).1⟩
      exact alongside_inserting hx
    | none =>
      simp only at h
      split at h <;> cases h
      exact alongside_of_spansEdge (spansEdge_insertingAtRoot id direction.axis evenRatio direction.toFirst rest)
  · cases h

/-- Whatever the arithmetic and the bounds, a move keeps every pane. -/
theorem moving_keeps_panes {K : Type} [Scalar K] (it : Iteration (PaneId × CGRect K)) {t : SplitNode}
    (ht : t.leaves.Nodup) (id : PaneId) (direction : FocusDirection) (bounds : CGRect K) :
    (∀ t', t.movingIn it id direction bounds = some t' →
      t'.leaves.Perm t.leaves ∧ t'.leaves.Nodup ∧ t'.alongside id direction.axis direction.toFirst = true) ∧
    (t.movingIn it id direction bounds = none ↔ id ∉ t.leaves ∨ t.leaves = [id] ∨
      (t.spansEdge id direction.axis direction.toFirst = true ∧
        neighbor it id direction (t.layout bounds) = none)) := by
  refine ⟨fun t' h => ?_, moving_eq_none ht id direction _⟩
  have hn : ∀ x ∈ neighbor it id direction (t.layout bounds), x ≠ id ∧ x ∈ t.leaves := fun x hx => neighbor_spec it hx
  have hid : id ∈ t.leaves := by
    by_contra hnot
    rw [movingIn, (moving_eq_none ht id direction _).mpr (Or.inl hnot)] at h
    cases h
  have hcount := count_moving (fun x hx => ⟨(hn x hx).1, List.count_eq_one_of_mem ht (hn x hx).2⟩)
    (List.count_eq_one_of_mem ht hid) h
  have hperm : t'.leaves.Perm t.leaves := List.perm_iff_count.mpr hcount
  exact ⟨hperm, hperm.nodup_iff.mpr ht, alongside_moving hn h⟩

/-- The last of three columns, in a rectangle of negative width. -/
theorem moving_keeps_panes_narrow :
    ((split .horizontal (1 / 2) (.leaf 1) (.split .horizontal (1 / 2) (.leaf 2) (.leaf 3))).movingIn
        ⟨List.reverse, List.reverse_perm⟩ 3 .left (⟨⟨0, 0⟩, ⟨-3, 8⟩⟩ : CGRect Rat)).isSome = true ∧
      ∀ t', (split .horizontal (1 / 2) (.leaf 1) (.split .horizontal (1 / 2) (.leaf 2) (.leaf 3))).movingIn
        ⟨List.reverse, List.reverse_perm⟩ 3 .left (⟨⟨0, 0⟩, ⟨-3, 8⟩⟩ : CGRect Rat) = some t' →
          t'.leaves.Perm [1, 2, 3] :=
  ⟨by decide +kernel, fun t' h =>
    ((moving_keeps_panes ⟨List.reverse, List.reverse_perm⟩ (by decide) 3 .left ⟨⟨0, 0⟩, ⟨-3, 8⟩⟩).1 t' h).1⟩

end SplitNode

end Mux.Tiling
