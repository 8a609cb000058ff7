import Mux.SplitTree

/-!
# Geometry of a split tree

`layout` places the leaves in a rectangle and `neighbor` picks one of them by where it was
placed. A rectangle keeps what it was made of: its size may be negative, and the accessors
read it as CoreGraphics does. The arithmetic is a parameter, since the source's rounds and
what a move does to the panes does not depend on it; extents are over exact rationals.
-/

namespace Mux.Tiling

class Scalar (K : Type) extends Add K, Sub K, Mul K, Min K, Max K, LT K where
  ofRat : Rat → K
  abs : K → K
  decLt : DecidableLT K

instance decidableLT {K : Type} [Scalar K] : DecidableLT K := Scalar.decLt

instance : Scalar Rat where
  ofRat r := r
  abs r := max r (-r)
  decLt := inferInstance

structure CGPoint (K : Type) where
  x : K
  y : K
deriving Repr, DecidableEq

structure CGSize (K : Type) where
  width : K
  height : K
deriving Repr, DecidableEq

structure CGRect (K : Type) where
  origin : CGPoint K
  size : CGSize K
deriving Repr, DecidableEq

/-- A dictionary's entries come in an order of its own. -/
structure Iteration (α : Type) where
  order : List α → List α
  perm : ∀ l, (order l).Perm l

/-- `Sequence.min(by:)`: of the least ones, the first. -/
def minBy {α : Type} (lt : α → α → Bool) : List α → Option α
  | [] => none
  | a :: l => some (l.foldl (fun best b => if lt b best then b else best) a)

/-- `Dictionary.merge` where the value that is there stays. -/
def mergeKeeping {α : Type} (d e : List (PaneId × α)) : List (PaneId × α) :=
  d ++ e.filter fun p => !(d.map fun q => q.1).contains p.1

variable {K : Type} [Scalar K]

open Scalar

namespace CGRect

def width (r : CGRect K) : K := abs r.size.width

def height (r : CGRect K) : K := abs r.size.height

def minX (r : CGRect K) : K := r.origin.x + min r.size.width (ofRat 0)

def maxX (r : CGRect K) : K := r.origin.x + max r.size.width (ofRat 0)

def minY (r : CGRect K) : K := r.origin.y + min r.size.height (ofRat 0)

def maxY (r : CGRect K) : K := r.origin.y + max r.size.height (ofRat 0)

def midX (r : CGRect K) : K := (r.minX + r.maxX) * ofRat (1 / 2)

def midY (r : CGRect K) : K := (r.minY + r.maxY) * ofRat (1 / 2)

end CGRect

namespace SplitNode

/-- One point between siblings. -/
def gap : K := ofRat 1

def firstRect (direction : SplitDirection) (ratio : Rat) (bounds : CGRect K) : CGRect K :=
  match direction with
  | .horizontal => ⟨bounds.origin, ⟨(bounds.width - gap) * ofRat ratio, bounds.size.height⟩⟩
  | .vertical => ⟨bounds.origin, ⟨bounds.size.width, (bounds.height - gap) * ofRat ratio⟩⟩

def secondRect (direction : SplitDirection) (ratio : Rat) (bounds : CGRect K) : CGRect K :=
  match direction with
  | .horizontal =>
    let w := (bounds.width - gap) * ofRat ratio
    ⟨⟨bounds.minX + w + gap, bounds.origin.y⟩, ⟨bounds.width - w - gap, bounds.size.height⟩⟩
  | .vertical =>
    let h := (bounds.height - gap) * ofRat ratio
    ⟨⟨bounds.origin.x, bounds.minY + h + gap⟩, ⟨bounds.size.width, bounds.height - h - gap⟩⟩

def layout : SplitNode → CGRect K → List (PaneId × CGRect K)
  | .leaf id, bounds => [(id, bounds)]
  | .split d ratio first second, bounds =>
    mergeKeeping (first.layout (firstRect d ratio bounds)) (second.layout (secondRect d ratio bounds))

def eligible (direction : FocusDirection) (center : CGPoint K) (rect : CGRect K) : Bool :=
  match direction with
  | .left => decide (rect.midX < center.x - ofRat 1)
  | .right => decide (center.x + ofRat 1 < rect.midX)
  | .up => decide (rect.midY < center.y - ofRat 1)
  | .down => decide (center.y + ofRat 1 < rect.midY)

def distance (center : CGPoint K) (rect : CGRect K) : K :=
  let dx := rect.midX - center.x
  let dy := rect.midY - center.y
  dx * dx + dy * dy

def neighbor (it : Iteration (PaneId × CGRect K)) (id : PaneId) (direction : FocusDirection)
    (rects : List (PaneId × CGRect K)) : Option PaneId :=
  match rects.lookup id with
  | none => none
  | some from' =>
    let center : CGPoint K := ⟨from'.midX, from'.midY⟩
    (minBy (fun a b => decide (distance center a.2 < distance center b.2))
      (it.order (rects.filter fun e => !(e.1 == id) && eligible direction center e.2))).map fun e => e.1

/-- `moving(_:direction:in:)`. -/
def movingIn (it : Iteration (PaneId × CGRect K)) (t : SplitNode) (id : PaneId) (direction : FocusDirection)
    (bounds : CGRect K) : Option SplitNode :=
  t.moving id direction (neighbor it id direction (t.layout bounds))

/-! ## The entries of a layout -/

theorem mem_minBy {α : Type} {lt : α → α → Bool} {l : List α} {a : α} (h : minBy lt l = some a) : a ∈ l := by
  cases l with
  | nil => cases h
  | cons b l =>
    cases h
    -- the best so far is the head or comes from the tail
    have hfold : ∀ (l : List α) (b : α), l.foldl (fun best c => if lt c best then c else best) b ∈ b :: l := by
      intro l
      induction l with
      | nil => intro b; simp
      | cons c l ih =>
        intro b
        rw [List.foldl_cons]
        by_cases hc : lt c b = true
        · rw [if_pos hc]
          exact List.mem_cons_of_mem _ (ih c)
        · rw [if_neg hc]
          rcases List.mem_cons.mp (ih b) with heq | hmem
          · rw [heq]
            exact List.mem_cons_self
          · exact List.mem_cons_of_mem _ (List.mem_cons_of_mem _ hmem)
    exact hfold l b

theorem mem_keys_layout (t : SplitNode) (bounds : CGRect K) {e : PaneId × CGRect K} (h : e ∈ t.layout bounds) :
    e.1 ∈ t.leaves := by
  induction t generalizing bounds with
  | leaf l =>
    rw [layout, List.mem_singleton] at h
    rw [h, leaves]
    exact List.mem_singleton_self l
  | split d r first second ih1 ih2 =>
    rw [leaves, List.mem_append]
    rcases List.mem_append.mp h with h | h
    · exact Or.inl (ih1 _ h)
    · exact Or.inr (ih2 _ (List.mem_of_mem_filter h))

/-- Between trees with no leaf in common nothing is dropped. -/
theorem layout_split {d : SplitDirection} {r : Rat} {first second : SplitNode}
    (hn : (split d r first second).leaves.Nodup) (bounds : CGRect K) :
    (split d r first second).layout bounds =
      first.layout (firstRect d r bounds) ++ second.layout (secondRect d r bounds) := by
  rw [layout, mergeKeeping, List.filter_eq_self.mpr]
  intro e he
  have h2 := mem_keys_layout second _ he
  have hdisj := (List.nodup_append.mp hn).2.2
  have hnot : e.1 ∉ (first.layout (firstRect d r bounds)).map fun q => q.1 := by
    intro hm
    obtain ⟨q, hq, heq⟩ := List.mem_map.mp hm
    exact hdisj e.1 (heq ▸ mem_keys_layout first _ hq) e.1 h2 rfl
  simpa using hnot

theorem keys_layout {t : SplitNode} (ht : t.leaves.Nodup) (bounds : CGRect K) :
    (t.layout bounds).map (fun e => e.1) = t.leaves := by
  induction t generalizing bounds with
  | leaf l => rfl
  | split d r first second ih1 ih2 =>
    have hparts := List.nodup_append.mp ht
    rw [layout_split ht, List.map_append, ih1 hparts.1, ih2 hparts.2.1, leaves]

theorem neighbor_spec (it : Iteration (PaneId × CGRect K)) {t : SplitNode} {id n : PaneId}
    {direction : FocusDirection}
    {bounds : CGRect K} (h : neighbor it id direction (t.layout bounds) = some n) : n ≠ id ∧ n ∈ t.leaves := by
  unfold neighbor at h
  split at h
  · cases h
  · obtain ⟨e, he, rfl⟩ := Option.map_eq_some_iff.mp h
    have hmem := (it.perm _).mem_iff.mp (mem_minBy he)
    rw [List.mem_filter] at hmem
    refine ⟨?_, mem_keys_layout t bounds hmem.1⟩
    intro heq
    simp [heq] at hmem

end SplitNode

end Mux.Tiling
