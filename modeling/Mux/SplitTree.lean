import Mathlib.Algebra.Order.Ring.Rat
import Mathlib.Data.List.Basic

/-!
# Split trees

The layout of a session: leaves are pane ids, a branch has a direction and the share of
its first child. Geometry only ever picks a neighbour, so `moving` takes the neighbour it
found. What an operation does to a tree is said by how often each pane occurs among the
leaves.
-/

namespace Mux.Tiling

abbrev PaneId := Nat

inductive SplitDirection where
  | horizontal
  | vertical
deriving Repr, DecidableEq

inductive FocusDirection where
  | left
  | right
  | up
  | down
deriving Repr, DecidableEq

def FocusDirection.axis : FocusDirection → SplitDirection
  | .left | .right => .horizontal
  | .up | .down => .vertical

def FocusDirection.toFirst : FocusDirection → Bool
  | .left | .up => true
  | .right | .down => false

inductive SplitNode where
  | leaf (id : PaneId)
  | split (direction : SplitDirection) (ratio : Rat) (first second : SplitNode)
deriving Repr, DecidableEq

/-- What the source leaves out of a call: the two children share alike. -/
def evenRatio : Rat := 1 / 2

namespace SplitNode

def leaves : SplitNode → List PaneId
  | .leaf id => [id]
  | .split _ _ first second => first.leaves ++ second.leaves

def contains (id : PaneId) : SplitNode → Bool
  | .leaf l => l == id
  | .split _ _ first second => first.contains id || second.contains id

def insertingAtRoot (t : SplitNode) (newLeaf : PaneId) (direction : SplitDirection) (ratio : Rat)
    (newFirst : Bool) : SplitNode :=
  .split direction ratio (if newFirst then .leaf newLeaf else t) (if newFirst then t else .leaf newLeaf)

def inserting (newLeaf target : PaneId) (direction : SplitDirection) (ratio : Rat) (newFirst : Bool) :
    SplitNode → SplitNode
  | .leaf id => if id = target then insertingAtRoot (.leaf id) newLeaf direction ratio newFirst else .leaf id
  | .split d r first second =>
    .split d r (first.inserting newLeaf target direction ratio newFirst)
      (second.inserting newLeaf target direction ratio newFirst)

def removing (target : PaneId) : SplitNode → Option SplitNode
  | .leaf id => if id = target then none else some (.leaf id)
  | .split d ratio first second =>
    match first.removing target, second.removing target with
    | none, none => none
    | none, some s => some s
    | some f, none => some f
    | some f, some s => some (.split d ratio f s)

/-- The pane already spans the edge it is moved to. -/
def spansEdge (id : PaneId) (axis : SplitDirection) (toFirst : Bool) : SplitNode → Bool
  | .split d _ first second => d == axis && (if toFirst then first else second) == .leaf id
  | .leaf _ => false

def moving (t : SplitNode) (id : PaneId) (direction : FocusDirection) (neighbor : Option PaneId) : Option SplitNode :=
  if t.contains id then
    (t.removing id).bind fun rest =>
      match neighbor with
      | some n => some (rest.inserting id n direction.axis evenRatio direction.toFirst)
      | none =>
        if t.spansEdge id direction.axis direction.toFirst then none
        else some (.split direction.axis evenRatio (if direction.toFirst then .leaf id else rest)
          (if direction.toFirst then rest else .leaf id))
  else none

def clampRatio (ratio : Rat) : Rat := min (9 / 10) (max (1 / 10) ratio)

/-- The deepest split along `axis` around `id`; the first child that holds `id` decides. -/
def adjustingRatio (id : PaneId) (axis : SplitDirection) (delta : Rat) : SplitNode → Option SplitNode
  | .leaf _ => none
  | .split d ratio first second =>
    if first.contains id then
      match first.adjustingRatio id axis delta with
      | some f => some (.split d ratio f second)
      | none => if d = axis then some (.split d (clampRatio (ratio + delta)) first second) else none
    else if second.contains id then
      match second.adjustingRatio id axis delta with
      | some s => some (.split d ratio first s)
      | none => if d = axis then some (.split d (clampRatio (ratio - delta)) first second) else none
    else none

/-! ## Leaves -/

theorem leaves_ne_nil (t : SplitNode) : t.leaves ≠ [] := by
  induction t with
  | leaf id => simp [leaves]
  | split d r first second ih1 ih2 => simp [leaves, ih1]

theorem contains_iff {t : SplitNode} {id : PaneId} : t.contains id = true ↔ id ∈ t.leaves := by
  induction t with
  | leaf l => rw [contains, leaves, beq_iff_eq, List.mem_singleton, eq_comm]
  | split d r first second ih1 ih2 => simp [contains, leaves, ih1, ih2]

theorem count_leaf (n x : PaneId) : (leaf n).leaves.count x = if x = n then 1 else 0 := by
  by_cases h : x = n
  · simp [leaves, h]
  · simp [leaves, h, Ne.symm h]

theorem count_split (d : SplitDirection) (r : Rat) (first second : SplitNode) (x : PaneId) :
    (split d r first second).leaves.count x = first.leaves.count x + second.leaves.count x := by
  rw [leaves, List.count_append]

theorem count_insertingAtRoot (t : SplitNode) (new : PaneId) (d : SplitDirection) (r : Rat) (b : Bool) (x : PaneId) :
    (t.insertingAtRoot new d r b).leaves.count x = t.leaves.count x + if x = new then 1 else 0 := by
  cases b with
  | true => simp only [insertingAtRoot, if_true, count_split, count_leaf]; omega
  | false => simp only [insertingAtRoot, count_split, count_leaf, Bool.false_eq_true, if_false]

/-- Every leaf `target` gets a new sibling. -/
theorem count_inserting (new target : PaneId) (d : SplitDirection) (r : Rat) (b : Bool) (x : PaneId)
    (t : SplitNode) :
    (t.inserting new target d r b).leaves.count x =
      t.leaves.count x + if x = new then t.leaves.count target else 0 := by
  induction t with
  | leaf id =>
    by_cases h : id = target
    · rw [inserting, if_pos h, count_insertingAtRoot]
      simp [leaves, h]
    · simp [inserting, h, leaves]
  | split d' r' first second ih1 ih2 =>
    simp only [inserting, count_split, ih1, ih2]
    split <;> omega

end SplitNode

def leavesOf (t : Option SplitNode) : List PaneId := (t.map SplitNode.leaves).getD []

@[simp] theorem leavesOf_none : leavesOf none = [] := rfl
@[simp] theorem leavesOf_some (t : SplitNode) : leavesOf (some t) = t.leaves := rfl

namespace SplitNode

theorem count_removing (target x : PaneId) (t : SplitNode) :
    (leavesOf (t.removing target)).count x = if x = target then 0 else t.leaves.count x := by
  induction t with
  | leaf id =>
    by_cases h : id = target
    · by_cases hx : x = target
      · simp [removing, h, hx]
      · simp [removing, h, hx, leaves, Ne.symm hx]
    · by_cases hx : x = target
      · simp [removing, h, hx, leaves]
      · simp [removing, h, hx, leaves]
  | split d r first second ih1 ih2 =>
    have hsum : (leavesOf ((SplitNode.split d r first second).removing target)).count x =
        (leavesOf (first.removing target)).count x + (leavesOf (second.removing target)).count x := by
      rw [removing]
      cases first.removing target with
      | none => cases second.removing target <;> simp
      | some f => cases second.removing target <;> simp [leaves]
    rw [hsum, ih1, ih2, leaves, List.count_append]
    split <;> rfl

theorem leaves_adjustingRatio {t t' : SplitNode} {id : PaneId} {axis : SplitDirection} {delta : Rat}
    (h : t.adjustingRatio id axis delta = some t') : t'.leaves = t.leaves := by
  induction t generalizing t' with
  | leaf l => cases h
  | split d r first second ih1 ih2 =>
    unfold adjustingRatio at h
    by_cases hf : first.contains id = true
    · rw [if_pos hf] at h
      cases hr : first.adjustingRatio id axis delta with
      | some f =>
        simp only [hr] at h
        cases h
        rw [leaves, leaves, ih1 hr]
      | none =>
        simp only [hr] at h
        split at h <;> cases h
        rfl
    · rw [if_neg hf] at h
      by_cases hs : second.contains id = true
      · rw [if_pos hs] at h
        cases hr : second.adjustingRatio id axis delta with
        | some s =>
          simp only [hr] at h
          cases h
          rw [leaves, leaves, ih2 hr]
        | none =>
          simp only [hr] at h
          split at h <;> cases h
          rfl
      · rw [if_neg hs] at h
        cases h

/-- A move keeps the leaves, given that the neighbour is another leaf. -/
theorem count_moving {t t' : SplitNode} {id : PaneId} {direction : FocusDirection} {neighbor : Option PaneId}
    (hn : ∀ n ∈ neighbor, n ≠ id ∧ t.leaves.count n = 1) (hid : t.leaves.count id = 1)
    (h : t.moving id direction neighbor = some t') (x : PaneId) : t'.leaves.count x = t.leaves.count x := by
  unfold moving at h
  split at h
  · obtain ⟨rest, hrest, h⟩ := Option.bind_eq_some_iff.mp h
    have hcount : ∀ y, rest.leaves.count y = if y = id then 0 else t.leaves.count y := fun y => by
      rw [← count_removing id y t, hrest]
      rfl
    cases neighbor with
    | some n =>
      obtain ⟨hne, hone⟩ := hn n rfl
      cases h
      rw [count_inserting, hcount, hcount, if_neg hne, hone]
      by_cases hx : x = id
      · simp [hx, hid]
      · simp [hx]
    | none =>
      simp only at h
      split at h <;> cases h
      have hx := hcount x
      have hsum : rest.leaves.count x + (if x = id then 1 else 0) = t.leaves.count x := by
        by_cases he : x = id
        · rw [if_pos he] at hx ⊢
          rw [hx, he, hid]
        · rw [if_neg he] at hx ⊢
          exact hx
      rw [← hsum]
      exact count_insertingAtRoot rest id direction.axis evenRatio direction.toFirst x
  · cases h

theorem mem_head_leaves (t : SplitNode) : ∃ x, t.leaves.head? = some x ∧ x ∈ t.leaves := by
  cases h : t.leaves with
  | nil => exact absurd h t.leaves_ne_nil
  | cons x rest => exact ⟨x, rfl, List.mem_cons_self⟩

end SplitNode

end Mux.Tiling
