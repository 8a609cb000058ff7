import Mathlib.Tactic.Linarith
import Mathlib.Tactic.Ring
import Mux.Geometry

/-!
# Layout over exact rationals

A rectangle is read along one axis at a time: `span` is its size as it was made, `extent`
the size its accessor gives, `low` and `high` its two edges. A node of a tree is a context
and what stands in its hole; `Context.rect` is the rectangle that node is laid out in.
-/

namespace Mux.Tiling

open Scalar

namespace CGRect

variable (axis : SplitDirection) (r : CGRect Rat)

def span : Rat := match axis with
  | .horizontal => r.size.width
  | .vertical => r.size.height

def start : Rat := match axis with
  | .horizontal => r.origin.x
  | .vertical => r.origin.y

def extent : Rat := match axis with
  | .horizontal => r.width
  | .vertical => r.height

def low : Rat := match axis with
  | .horizontal => r.minX
  | .vertical => r.minY

def high : Rat := match axis with
  | .horizontal => r.maxX
  | .vertical => r.maxY

theorem extent_eq : r.extent axis = max (r.span axis) (-r.span axis) := by cases axis <;> rfl

theorem low_eq : r.low axis = r.start axis + min (r.span axis) 0 := by cases axis <;> rfl

theorem high_eq : r.high axis = r.start axis + max (r.span axis) 0 := by cases axis <;> rfl

theorem extent_nonneg : 0 ≤ r.extent axis := by
  rw [extent_eq]
  rcases le_total 0 (r.span axis) with h | h
  · exact le_trans h (le_max_left _ _)
  · exact le_trans (neg_nonneg.mpr h) (le_max_right _ _)

theorem extent_eq_high_sub_low : r.extent axis = r.high axis - r.low axis := by
  rw [extent_eq, high_eq, low_eq]
  rcases le_total 0 (r.span axis) with h | h
  · rw [max_eq_left h, min_eq_right h, max_eq_left (by linarith)]
    ring
  · rw [max_eq_right h, min_eq_left h, max_eq_right (by linarith)]
    ring

variable {axis r}

theorem extent_of_nonneg (h : 0 ≤ r.span axis) : r.extent axis = r.span axis := by
  rw [extent_eq, max_eq_left (by linarith)]

theorem low_of_nonneg (h : 0 ≤ r.span axis) : r.low axis = r.start axis := by
  rw [low_eq, min_eq_right h, add_zero]

theorem high_of_nonneg (h : 0 ≤ r.span axis) : r.high axis = r.start axis + r.span axis := by
  rw [high_eq, max_eq_left h]

/-- A point strictly inside. -/
def Holds (r : CGRect Rat) (x y : Rat) : Prop := r.minX < x ∧ x < r.maxX ∧ r.minY < y ∧ y < r.maxY

/-- No point is inside both. -/
def Apart (r q : CGRect Rat) : Prop := ∀ x y, ¬(r.Holds x y ∧ q.Holds x y)

def Inside (r bounds : CGRect Rat) : Prop := ∀ axis, bounds.low axis ≤ r.low axis ∧ r.high axis ≤ bounds.high axis

theorem apart_of_le {r q : CGRect Rat} (axis : SplitDirection) (h : r.high axis ≤ q.low axis) : r.Apart q := by
  rintro x y ⟨⟨_, hx, _, hy⟩, hx', _, hy', _⟩
  cases axis with
  | horizontal => exact absurd (lt_trans hx' hx) (not_lt.mpr h)
  | vertical => exact absurd (lt_trans hy' hy) (not_lt.mpr h)

end CGRect

/-- How far a list of rectangles reaches along an axis, from the lowest edge to the highest. -/
def unionExtent (axis : SplitDirection) : List (CGRect Rat) → Rat
  | [] => 0
  | r :: l => l.foldl (fun m q => max m (q.high axis)) (r.high axis) -
      l.foldl (fun m q => min m (q.low axis)) (r.low axis)

theorem foldl_max_eq {axis : SplitDirection} {h : Rat} {l : List (CGRect Rat)} {m : Rat} (hm : m ≤ h)
    (hall : ∀ q ∈ l, q.high axis ≤ h) (hone : m = h ∨ ∃ q ∈ l, q.high axis = h) :
    l.foldl (fun m q => max m (q.high axis)) m = h := by
  induction l generalizing m with
  | nil => simpa using hone
  | cons q l ih =>
    rw [List.foldl_cons]
    have hq := hall q List.mem_cons_self
    apply ih (max_le hm hq) fun p hp => hall p (List.mem_cons_of_mem _ hp)
    rcases hone with rfl | ⟨p, hp, hph⟩
    · exact Or.inl (max_eq_left hq)
    · rcases List.mem_cons.mp hp with rfl | hp
      · exact Or.inl (by rw [hph, max_eq_right hm])
      · exact Or.inr ⟨p, hp, hph⟩

theorem foldl_min_eq {axis : SplitDirection} {h : Rat} {l : List (CGRect Rat)} {m : Rat} (hm : h ≤ m)
    (hall : ∀ q ∈ l, h ≤ q.low axis) (hone : m = h ∨ ∃ q ∈ l, q.low axis = h) :
    l.foldl (fun m q => min m (q.low axis)) m = h := by
  induction l generalizing m with
  | nil => simpa using hone
  | cons q l ih =>
    rw [List.foldl_cons]
    have hq := hall q List.mem_cons_self
    apply ih (le_min hm hq) fun p hp => hall p (List.mem_cons_of_mem _ hp)
    rcases hone with rfl | ⟨p, hp, hph⟩
    · exact Or.inl (min_eq_left hq)
    · rcases List.mem_cons.mp hp with rfl | hp
      · exact Or.inl (by rw [hph, min_eq_right hm])
      · exact Or.inr ⟨p, hp, hph⟩

/-- Rectangles that stay between two edges and touch both reach from one to the other. -/
theorem unionExtent_eq {axis : SplitDirection} {lo hi : Rat} {l : List (CGRect Rat)}
    (hall : ∀ q ∈ l, lo ≤ q.low axis ∧ q.high axis ≤ hi) (hlow : ∃ q ∈ l, q.low axis = lo)
    (hhigh : ∃ q ∈ l, q.high axis = hi) : unionExtent axis l = hi - lo := by
  cases l with
  | nil => simp at hlow
  | cons r l =>
    have hr := hall r List.mem_cons_self
    rw [unionExtent, foldl_max_eq hr.2 fun q hq => (hall q (List.mem_cons_of_mem _ hq)).2,
      foldl_min_eq hr.1 fun q hq => (hall q (List.mem_cons_of_mem _ hq)).1]
    · simpa [eq_comm] using hlow
    · simpa [eq_comm] using hhigh

/-! ## Nodes -/

/-- A tree with a hole. -/
inductive Context where
  | hole
  | first (direction : SplitDirection) (ratio : Rat) (c : Context) (second : SplitNode)
  | second (direction : SplitDirection) (ratio : Rat) (first : SplitNode) (c : Context)

namespace Context

def plug (n : SplitNode) : Context → SplitNode
  | .hole => n
  | .first d r c s => .split d r (c.plug n) s
  | .second d r f c => .split d r f (c.plug n)

/-- The rectangle that the hole is laid out in. -/
def rect {K : Type} [Scalar K] : Context → CGRect K → CGRect K
  | .hole, bounds => bounds
  | .first d r c _, bounds => c.rect (SplitNode.firstRect d r bounds)
  | .second d r _ c, bounds => c.rect (SplitNode.secondRect d r bounds)

theorem mem_leaves_plug {n : SplitNode} {c : Context} {x : PaneId} (h : x ∈ n.leaves) : x ∈ (c.plug n).leaves := by
  induction c with
  | hole => exact h
  | first d r c s ih => exact List.mem_append_left _ ih
  | second d r f c ih => exact List.mem_append_right _ ih

/-- A child of a node, as a node. -/
theorem plug_first (c : Context) (d : SplitDirection) (r : Rat) (first second : SplitNode) :
    ∃ c' : Context, c'.plug first = c.plug (.split d r first second) ∧
      ∀ b : CGRect Rat, c'.rect b = SplitNode.firstRect d r (c.rect b) := by
  induction c with
  | hole => exact ⟨.first d r .hole second, rfl, fun b => rfl⟩
  | first d' r' c s ih =>
    obtain ⟨c', hc, hr⟩ := ih
    exact ⟨.first d' r' c' s, by rw [plug, hc, plug], fun b => hr _⟩
  | second d' r' f c ih =>
    obtain ⟨c', hc, hr⟩ := ih
    exact ⟨.second d' r' f c', by rw [plug, hc, plug], fun b => hr _⟩

theorem plug_second (c : Context) (d : SplitDirection) (r : Rat) (first second : SplitNode) :
    ∃ c' : Context, c'.plug second = c.plug (.split d r first second) ∧
      ∀ b : CGRect Rat, c'.rect b = SplitNode.secondRect d r (c.rect b) := by
  induction c with
  | hole => exact ⟨.second d r first .hole, rfl, fun b => rfl⟩
  | first d' r' c s ih =>
    obtain ⟨c', hc, hr⟩ := ih
    exact ⟨.first d' r' c' s, by rw [plug, hc, plug], fun b => hr _⟩
  | second d' r' f c ih =>
    obtain ⟨c', hc, hr⟩ := ih
    exact ⟨.second d' r' f c', by rw [plug, hc, plug], fun b => hr _⟩

end Context

namespace SplitNode

def RatiosIn (lo hi : Rat) : SplitNode → Prop
  | .leaf _ => True
  | .split _ r first second => (lo ≤ r ∧ r ≤ hi) ∧ first.RatiosIn lo hi ∧ second.RatiosIn lo hi

/-- Each split is laid out in a rectangle at least one gap wide along its axis. -/
def Roomy (t : SplitNode) (bounds : CGRect Rat) : Prop :=
  ∀ (c : Context) (d : SplitDirection) (r : Rat) (first second : SplitNode), t = c.plug (.split d r first second) →
    gap ≤ (c.rect bounds).span d

theorem roomy_leaf (id : PaneId) (bounds : CGRect Rat) : (leaf id).Roomy bounds := by
  intro c d r first second h
  cases c <;> cases h

theorem roomy_split {d : SplitDirection} {r : Rat} {first second : SplitNode} {bounds : CGRect Rat} :
    (split d r first second).Roomy bounds ↔
      1 ≤ bounds.span d ∧ first.Roomy (firstRect d r bounds) ∧ second.Roomy (secondRect d r bounds) := by
  constructor
  · intro h
    refine ⟨h .hole d r first second rfl, fun c d' r' f s hc => ?_, fun c d' r' f s hc => ?_⟩
    · exact h (.first d r c second) d' r' f s (by rw [hc, Context.plug])
    · exact h (.second d r first c) d' r' f s (by rw [hc, Context.plug])
  · rintro ⟨hb, h1, h2⟩ c d' r' f s hc
    cases c with
    | hole =>
      cases hc
      exact hb
    | first d'' r'' c s' =>
      cases hc
      exact h1 c d' r' f s rfl
    | second d'' r'' f' c =>
      cases hc
      exact h2 c d' r' f s rfl

/-! ## The two parts of a rectangle -/

section
variable (d : SplitDirection) (r : Rat) (b : CGRect Rat)

theorem span_firstRect : (firstRect d r b).span d = (b.extent d - 1) * r := by cases d <;> rfl

theorem span_secondRect : (secondRect d r b).span d = b.extent d - (b.extent d - 1) * r - 1 := by cases d <;> rfl

theorem start_firstRect : (firstRect d r b).start d = b.start d := by cases d <;> rfl

theorem start_secondRect : (secondRect d r b).start d = b.low d + (b.extent d - 1) * r + 1 := by cases d <;> rfl

variable {d} {axis : SplitDirection} (h : axis ≠ d)
include h

theorem span_firstRect_of_ne : (firstRect d r b).span axis = b.span axis := by
  cases d <;> cases axis <;> first | rfl | exact absurd rfl h

theorem span_secondRect_of_ne : (secondRect d r b).span axis = b.span axis := by
  cases d <;> cases axis <;> first | rfl | exact absurd rfl h

theorem low_firstRect_of_ne : (firstRect d r b).low axis = b.low axis := by
  cases d <;> cases axis <;> first | rfl | exact absurd rfl h

theorem low_secondRect_of_ne : (secondRect d r b).low axis = b.low axis := by
  cases d <;> cases axis <;> first | rfl | exact absurd rfl h

theorem high_firstRect_of_ne : (firstRect d r b).high axis = b.high axis := by
  cases d <;> cases axis <;> first | rfl | exact absurd rfl h

theorem high_secondRect_of_ne : (secondRect d r b).high axis = b.high axis := by
  cases d <;> cases axis <;> first | rfl | exact absurd rfl h

end

/-- The two parts of a rectangle with room for the gap, along the axis of the split. -/
structure Cut (d : SplitDirection) (r : Rat) (b : CGRect Rat) : Prop where
  firstLow : (firstRect d r b).low d = b.low d
  firstHigh : (firstRect d r b).high d ≤ b.high d
  firstSpan : 0 ≤ (firstRect d r b).span d
  apart : (firstRect d r b).high d + 1 = (secondRect d r b).low d
  secondLow : b.low d ≤ (secondRect d r b).low d
  secondHigh : (secondRect d r b).high d = b.high d
  secondSpan : 0 ≤ (secondRect d r b).span d
  adds : (firstRect d r b).extent d + (secondRect d r b).extent d + 1 = b.extent d

theorem cut {d : SplitDirection} {r : Rat} {b : CGRect Rat} (hb : 1 ≤ b.span d) (hr : 0 ≤ r ∧ r ≤ 1) : Cut d r b := by
  have hspan : 0 ≤ b.span d := by linarith
  have hext := CGRect.extent_of_nonneg hspan
  have hprod : 0 ≤ (b.span d - 1) * r := mul_nonneg (by linarith) hr.1
  have hrest : 0 ≤ (b.span d - 1) * (1 - r) := mul_nonneg (by linarith) (by linarith [hr.2])
  have h1 : (firstRect d r b).span d = (b.span d - 1) * r := by rw [span_firstRect, hext]
  have h2 : (secondRect d r b).span d = (b.span d - 1) * (1 - r) := by rw [span_secondRect, hext]; ring
  have hf : 0 ≤ (firstRect d r b).span d := by rw [h1]; exact hprod
  have hs : 0 ≤ (secondRect d r b).span d := by rw [h2]; exact hrest
  have hlow := CGRect.low_of_nonneg hspan
  have hstart : (secondRect d r b).start d = b.start d + (b.span d - 1) * r + 1 := by
    rw [start_secondRect, hext, hlow]
  have hfirst : (firstRect d r b).high d = b.start d + (b.span d - 1) * r := by
    rw [CGRect.high_of_nonneg hf, start_firstRect, h1]
  constructor
  · rw [CGRect.low_of_nonneg hf, start_firstRect, hlow]
  · rw [hfirst, CGRect.high_of_nonneg hspan]
    linarith
  · exact hf
  · rw [hfirst, CGRect.low_of_nonneg hs, hstart]
  · rw [CGRect.low_of_nonneg hs, hstart, hlow]
    linarith
  · rw [CGRect.high_of_nonneg hs, hstart, h2, CGRect.high_of_nonneg hspan]
    ring
  · exact hs
  · rw [CGRect.extent_of_nonneg hf, CGRect.extent_of_nonneg hs, h1, h2, hext]
    ring

theorem firstRect_inside {d : SplitDirection} {r : Rat} {b : CGRect Rat} (h : Cut d r b) :
    (firstRect d r b).Inside b := by
  intro axis
  by_cases ha : axis = d
  · subst ha
    exact ⟨h.firstLow.ge, h.firstHigh⟩
  · rw [low_firstRect_of_ne r b ha, high_firstRect_of_ne r b ha]
    exact ⟨le_refl _, le_refl _⟩

theorem secondRect_inside {d : SplitDirection} {r : Rat} {b : CGRect Rat} (h : Cut d r b) :
    (secondRect d r b).Inside b := by
  intro axis
  by_cases ha : axis = d
  · subst ha
    exact ⟨h.secondLow, h.secondHigh.le⟩
  · rw [low_secondRect_of_ne r b ha, high_secondRect_of_ne r b ha]
    exact ⟨le_refl _, le_refl _⟩

/-! ## The leaves of a layout -/

/-- What is carried down a tree of distinct leaves, ratios that are shares, and room at each split. -/
structure Fits (t : SplitNode) (b : CGRect Rat) : Prop where
  distinct : t.leaves.Nodup
  shares : t.RatiosIn 0 1
  roomy : t.Roomy b

section
variable {d : SplitDirection} {r : Rat} {f s : SplitNode} {b : CGRect Rat} (h : Fits (.split d r f s) b)
include h

theorem Fits.cut : Cut d r b := SplitNode.cut (roomy_split.mp h.roomy).1 h.shares.1

theorem Fits.first : Fits f (firstRect d r b) :=
  ⟨(List.nodup_append.mp h.distinct).1, h.shares.2.1, (roomy_split.mp h.roomy).2.1⟩

theorem Fits.second : Fits s (secondRect d r b) :=
  ⟨(List.nodup_append.mp h.distinct).2.1, h.shares.2.2, (roomy_split.mp h.roomy).2.2⟩

end

theorem inside_layout {t : SplitNode} {b : CGRect Rat} (h : Fits t b) {e : PaneId × CGRect Rat}
    (he : e ∈ t.layout b) :
    e.2.Inside b := by
  induction t generalizing b with
  | leaf l =>
    rw [layout, List.mem_singleton] at he
    subst he
    exact fun axis => ⟨le_refl _, le_refl _⟩
  | split d r first second ih1 ih2 =>
    rw [layout_split h.distinct, List.mem_append] at he
    intro axis
    rcases he with he | he
    · have hi := ih1 h.first he axis
      have hc := firstRect_inside h.cut axis
      exact ⟨le_trans hc.1 hi.1, le_trans hi.2 hc.2⟩
    · have hi := ih2 h.second he axis
      have hc := secondRect_inside h.cut axis
      exact ⟨le_trans hc.1 hi.1, le_trans hi.2 hc.2⟩

/-- A size is negative only where the bounds' own is. -/
theorem span_layout {t : SplitNode} {b : CGRect Rat} (h : Fits t b) {e : PaneId × CGRect Rat} (he : e ∈ t.layout b)
    {axis : SplitDirection} (hb : 0 ≤ b.span axis) : 0 ≤ e.2.span axis := by
  induction t generalizing b with
  | leaf l =>
    rw [layout, List.mem_singleton] at he
    subst he
    exact hb
  | split d r first second ih1 ih2 =>
    rw [layout_split h.distinct, List.mem_append] at he
    rcases he with he | he
    · apply ih1 h.first he
      by_cases ha : axis = d
      · subst ha
        exact h.cut.firstSpan
      · rwa [span_firstRect_of_ne r b ha]
    · apply ih2 h.second he
      by_cases ha : axis = d
      · subst ha
        exact h.cut.secondSpan
      · rwa [span_secondRect_of_ne r b ha]

theorem apart_layout {t : SplitNode} {b : CGRect Rat} (h : Fits t b) :
    (t.layout b).Pairwise fun e e' => e.2.Apart e'.2 := by
  induction t generalizing b with
  | leaf l => simp [layout]
  | split d r first second ih1 ih2 =>
    rw [layout_split h.distinct, List.pairwise_append]
    refine ⟨ih1 h.first, ih2 h.second, fun e he e' he' => ?_⟩
    have h1 := (inside_layout h.first he d).2
    have h2 := (inside_layout h.second he' d).1
    exact CGRect.apart_of_le d (by linarith [h.cut.apart])

/-- Both edges of the bounds are edges of leaves. -/
theorem edges_layout {t : SplitNode} {b : CGRect Rat} (h : Fits t b) (axis : SplitDirection) :
    (∃ e ∈ t.layout b, e.2.low axis = b.low axis) ∧ ∃ e ∈ t.layout b, e.2.high axis = b.high axis := by
  induction t generalizing b with
  | leaf l => simp [layout]
  | split d r first second ih1 ih2 =>
    rw [layout_split h.distinct]
    obtain ⟨⟨e1, he1, hlow1⟩, e1', he1', hhigh1⟩ := ih1 h.first
    obtain ⟨_, e2, he2, hhigh2⟩ := ih2 h.second
    by_cases ha : axis = d
    · subst ha
      exact ⟨⟨e1, List.mem_append_left _ he1, hlow1.trans h.cut.firstLow⟩,
        ⟨e2, List.mem_append_right _ he2, hhigh2.trans h.cut.secondHigh⟩⟩
    · exact ⟨⟨e1, List.mem_append_left _ he1, hlow1.trans (low_firstRect_of_ne r b ha)⟩,
        ⟨e1', List.mem_append_left _ he1', hhigh1.trans (high_firstRect_of_ne r b ha)⟩⟩

theorem unionExtent_layout {t : SplitNode} {b : CGRect Rat} (h : Fits t b) (axis : SplitDirection) :
    unionExtent axis ((t.layout b).map fun e => e.2) = b.extent axis := by
  rw [CGRect.extent_eq_high_sub_low]
  obtain ⟨⟨e, he, hlow⟩, e', he', hhigh⟩ := edges_layout h axis
  apply unionExtent_eq
  · intro q hq
    obtain ⟨e, he, rfl⟩ := List.mem_map.mp hq
    exact inside_layout h he axis
  · exact ⟨e.2, List.mem_map_of_mem he, hlow⟩
  · exact ⟨e'.2, List.mem_map_of_mem he', hhigh⟩

/-- The rectangles of the leaves of `n` in the layout of a tree that holds it. -/
def rectsOf (n t : SplitNode) (b : CGRect Rat) : List (CGRect Rat) :=
  ((t.layout b).filter fun e => n.leaves.contains e.1).map fun e => e.2

theorem filter_layout_self {K : Type} [Scalar K] (t : SplitNode) (b : CGRect K) :
    (t.layout b).filter (fun e => t.leaves.contains e.1) = t.layout b := by
  rw [List.filter_eq_self]
  intro e he
  simpa using mem_keys_layout t b he

theorem filter_layout_disjoint {K : Type} [Scalar K] {n t : SplitNode} (h : ∀ x ∈ n.leaves, x ∉ t.leaves)
    (b : CGRect K) :
    (t.layout b).filter (fun e => n.leaves.contains e.1) = [] := by
  rw [List.filter_eq_nil_iff]
  intro e he hm
  exact h e.1 (by simpa using hm) (mem_keys_layout t b he)

/-- A node's leaves are laid out in its rectangle and nowhere else. -/
theorem filter_layout_plug {K : Type} [Scalar K] {n : SplitNode} {c : Context} (h : (c.plug n).leaves.Nodup)
    (b : CGRect K) : ((c.plug n).layout b).filter (fun e => n.leaves.contains e.1) = n.layout (c.rect b) := by
  induction c generalizing b with
  | hole => exact filter_layout_self n b
  | first d r c s ih =>
    have hparts := List.nodup_append.mp h
    rw [Context.plug, layout_split h, List.filter_append, ih hparts.1, filter_layout_disjoint, List.append_nil,
      Context.rect]
    exact fun x hx hs => hparts.2.2 x (Context.mem_leaves_plug hx) x hs rfl
  | second d r f c ih =>
    have hparts := List.nodup_append.mp h
    rw [Context.plug, layout_split h, List.filter_append, ih hparts.2.1, filter_layout_disjoint, List.nil_append,
      Context.rect]
    exact fun x hx hf => hparts.2.2 x hf x (Context.mem_leaves_plug hx) rfl

theorem Fits.plug {n : SplitNode} {c : Context} {b : CGRect Rat} (h : Fits (c.plug n) b) : Fits n (c.rect b) := by
  induction c generalizing b with
  | hole => exact h
  | first d r c s ih => exact ih h.first
  | second d r f c ih => exact ih h.second

theorem unionExtent_rectsOf {n : SplitNode} {c : Context} {b : CGRect Rat} (h : Fits (c.plug n) b)
    (axis : SplitDirection) : unionExtent axis (rectsOf n (c.plug n) b) = (c.rect b).extent axis := by
  rw [rectsOf, filter_layout_plug h.distinct, unionExtent_layout h.plug]

structure Partition (t : SplitNode) (b : CGRect Rat) : Prop where
  keys : (t.layout b).map (fun e => e.1) = t.leaves
  inside : ∀ e ∈ t.layout b, e.2.Inside b
  sizes : ∀ e ∈ t.layout b, 0 ≤ e.2.width ∧ 0 ≤ e.2.height ∧
    (0 ≤ b.size.width → 0 ≤ e.2.size.width) ∧ (0 ≤ b.size.height → 0 ≤ e.2.size.height)
  apart : (t.layout b).Pairwise fun e e' => e.2.Apart e'.2
  adds : ∀ (c : Context) (d : SplitDirection) (r : Rat) (first second : SplitNode),
    t = c.plug (.split d r first second) →
      unionExtent d (rectsOf first t b) + unionExtent d (rectsOf second t b) + gap = (c.rect b).extent d ∧
        unionExtent d (rectsOf (.split d r first second) t b) = (c.rect b).extent d

theorem adds_of_fits {c : Context} {d : SplitDirection} {r : Rat} {first second : SplitNode} {b : CGRect Rat}
    (h : Fits (c.plug (.split d r first second)) b) :
    unionExtent d (rectsOf first (c.plug (.split d r first second)) b) +
      unionExtent d (rectsOf second (c.plug (.split d r first second)) b) + gap = (c.rect b).extent d := by
  obtain ⟨c1, hc1, hr1⟩ := Context.plug_first c d r first second
  obtain ⟨c2, hc2, hr2⟩ := Context.plug_second c d r first second
  have h1 := unionExtent_rectsOf (hc1 ▸ h) d
  have h2 := unionExtent_rectsOf (hc2 ▸ h) d
  rw [hc1, hr1] at h1
  rw [hc2, hr2] at h2
  rw [h1, h2]
  exact h.plug.cut.adds

theorem Fits.partition {t : SplitNode} {b : CGRect Rat} (h : Fits t b) : Partition t b := by
  constructor
  · exact keys_layout h.distinct b
  · exact fun e he => inside_layout h he
  · intro e he
    exact ⟨e.2.extent_nonneg .horizontal, e.2.extent_nonneg .vertical,
      fun hb => @span_layout t b h e he .horizontal hb, fun hb => @span_layout t b h e he .vertical hb⟩
  · exact apart_layout h
  · rintro c d r first second rfl
    exact ⟨adds_of_fits h, unionExtent_rectsOf h d⟩

theorem layout_partitions {t : SplitNode} {b : CGRect Rat} (hd : t.leaves.Nodup) (hr : t.RatiosIn 0 1)
    (hroom : t.Roomy b) : Partition t b :=
  Fits.partition ⟨hd, hr, hroom⟩

/-- A pane over another, beside a third: no split is without room. -/
theorem layout_partitions_three :
    Partition (.split .horizontal (1 / 2) (.split .vertical (1 / 3) (.leaf 1) (.leaf 2)) (.leaf 3))
      ⟨⟨0, 0⟩, ⟨21, 10⟩⟩ := by
  apply layout_partitions (by decide)
  · simp only [RatiosIn]
    norm_num
  · simp only [roomy_split]
    exact ⟨by decide +kernel, ⟨by decide +kernel, roomy_leaf _ _, roomy_leaf _ _⟩, roomy_leaf _ _⟩

/-! ## Resizing -/

/-- Some split along `axis` is over the pane. -/
inductive Above (id : PaneId) (axis : SplitDirection) : SplitNode → Prop
  | here {r : Rat} {first second : SplitNode} (h : id ∈ (split axis r first second).leaves) :
    Above id axis (split axis r first second)
  | first {d : SplitDirection} {r : Rat} {first second : SplitNode} (h : Above id axis first) :
    Above id axis (split d r first second)
  | second {d : SplitDirection} {r : Rat} {first second : SplitNode} (h : Above id axis second) :
    Above id axis (split d r first second)

theorem Above.mem {id : PaneId} {axis : SplitDirection} {t : SplitNode} (h : Above id axis t) : id ∈ t.leaves := by
  induction h with
  | here h => exact h
  | first _ ih => exact List.mem_append_left _ ih
  | second _ ih => exact List.mem_append_right _ ih

theorem Above.plug {id : PaneId} {axis : SplitDirection} {n : SplitNode} (h : Above id axis n) (c : Context) :
    Above id axis (c.plug n) := by
  induction c with
  | hole => exact h
  | first d r c s ih => exact .first ih
  | second d r f c ih => exact .second ih

theorem above_split {id : PaneId} {axis d : SplitDirection} {r : Rat} {first second : SplitNode} :
    Above id axis (split d r first second) ↔
      (d = axis ∧ (id ∈ first.leaves ∨ id ∈ second.leaves)) ∨ Above id axis first ∨ Above id axis second := by
  constructor
  · intro h
    cases h with
    | here h => exact Or.inl ⟨rfl, List.mem_append.mp h⟩
    | first h => exact Or.inr (Or.inl h)
    | second h => exact Or.inr (Or.inr h)
  · rintro (⟨rfl, h⟩ | h | h)
    · exact .here (List.mem_append.mpr h)
    · exact .first h
    · exact .second h

theorem not_above_of_none {t : SplitNode} (ht : t.leaves.Nodup) {id : PaneId} {axis : SplitDirection} {delta : Rat}
    (h : t.adjustingRatio id axis delta = none) : ¬Above id axis t := by
  induction t with
  | leaf l => intro ha; cases ha
  | split d r first second ih1 ih2 =>
    have hparts := List.nodup_append.mp ht
    have hcross : ∀ x, x ∈ first.leaves → x ∉ second.leaves := fun x h1 h2 => hparts.2.2 x h1 x h2 rfl
    rw [above_split]
    unfold adjustingRatio at h
    by_cases hf : id ∈ first.leaves
    · rw [if_pos (contains_iff.mpr hf)] at h
      cases hr : first.adjustingRatio id axis delta with
      | some f => simp [hr] at h
      | none =>
        have hd : d ≠ axis := by simpa [hr] using h
        have hnot : ¬Above id axis second := fun ha => hcross id hf ha.mem
        simp [hd, ih1 hparts.1 hr, hnot]
    · rw [if_neg (by rwa [contains_iff])] at h
      have hnot : ¬Above id axis first := fun ha => hf ha.mem
      by_cases hs : id ∈ second.leaves
      · rw [if_pos (contains_iff.mpr hs)] at h
        cases hr : second.adjustingRatio id axis delta with
        | some s => simp [hr] at h
        | none =>
          have hd : d ≠ axis := by simpa [hr] using h
          simp [hd, hnot, ih2 hparts.2.1 hr]
      · have hnot' : ¬Above id axis second := fun ha => hs ha.mem
        simp [hf, hs, hnot, hnot']

/-- The deepest split along `axis` over `id`, and its ratio after a step towards the pane's side. -/
structure Adjusts (id : PaneId) (axis : SplitDirection) (delta r r' : Rat) (first second : SplitNode) : Prop where
  holds : id ∈ (split axis r first second).leaves
  deepest : ¬Above id axis first ∧ ¬Above id axis second
  grows : id ∈ first.leaves → r' = clampRatio (r + delta)
  shrinks : id ∈ second.leaves → r' = clampRatio (r - delta)

theorem adjustingRatio_some {t t' : SplitNode} (ht : t.leaves.Nodup) {id : PaneId} {axis : SplitDirection}
    {delta : Rat} (h : t.adjustingRatio id axis delta = some t') :
    ∃ (c : Context) (r r' : Rat) (first second : SplitNode), t = c.plug (.split axis r first second) ∧
      t' = c.plug (.split axis r' first second) ∧ Adjusts id axis delta r r' first second := by
  induction t generalizing t' with
  | leaf l => cases h
  | split d r first second ih1 ih2 =>
    have hparts := List.nodup_append.mp ht
    have hcross : ∀ x, x ∈ first.leaves → x ∉ second.leaves := fun x h1 h2 => hparts.2.2 x h1 x h2 rfl
    unfold adjustingRatio at h
    by_cases hf : id ∈ first.leaves
    · rw [if_pos (contains_iff.mpr hf)] at h
      cases hr : first.adjustingRatio id axis delta with
      | some f =>
        simp only [hr] at h
        cases h
        obtain ⟨c, q, q', f', s', rfl, rfl, ha⟩ := ih1 hparts.1 hr
        exact ⟨.first d r c second, q, q', f', s', rfl, rfl, ha⟩
      | none =>
        simp only [hr] at h
        split at h <;> cases h
        rename_i hd
        subst hd
        exact ⟨.hole, r, _, first, second, rfl, rfl, List.mem_append_left _ hf,
          ⟨not_above_of_none hparts.1 hr, fun ha => hcross id hf ha.mem⟩, fun _ => rfl,
          fun hs => absurd hs (hcross id hf)⟩
    · rw [if_neg (by rwa [contains_iff])] at h
      by_cases hs : id ∈ second.leaves
      · rw [if_pos (contains_iff.mpr hs)] at h
        cases hr : second.adjustingRatio id axis delta with
        | some s =>
          simp only [hr] at h
          cases h
          obtain ⟨c, q, q', f', s', rfl, rfl, ha⟩ := ih2 hparts.2.1 hr
          exact ⟨.second d r first c, q, q', f', s', rfl, rfl, ha⟩
        | none =>
          simp only [hr] at h
          split at h <;> cases h
          rename_i hd
          subst hd
          exact ⟨.hole, r, _, first, second, rfl, rfl, List.mem_append_right _ hs,
            ⟨fun ha => hf ha.mem, not_above_of_none hparts.2.1 hr⟩, fun hf' => absurd hf' hf, fun _ => rfl⟩
      · rw [if_neg (by rwa [contains_iff])] at h
        cases h

theorem adjustingRatio_eq_none {t : SplitNode} (ht : t.leaves.Nodup) (id : PaneId) (axis : SplitDirection)
    (delta : Rat) :
    t.adjustingRatio id axis delta = none ↔ ¬Above id axis t := by
  refine ⟨not_above_of_none ht, fun h => ?_⟩
  cases hr : t.adjustingRatio id axis delta with
  | none => rfl
  | some t' =>
    obtain ⟨c, r, r', f, s, rfl, _, ha⟩ := adjustingRatio_some ht hr
    exact absurd ((Above.here ha.holds).plug c) h

/-! ## Rectangles after a resize -/

theorem lookup_layout_absent {K : Type} [Scalar K] {t : SplitNode} {x : PaneId} (h : x ∉ t.leaves) (b : CGRect K) :
    (t.layout b).lookup x = none := by
  rw [List.lookup_eq_none_iff]
  intro e he
  have hne : x ≠ e.1 := fun heq => h (heq ▸ mem_keys_layout t b he)
  simpa using hne

section
variable {K : Type} [Scalar K] {d : SplitDirection} {r : Rat} {first second : SplitNode}
  (hn : (split d r first second).leaves.Nodup) (b : CGRect K) {x : PaneId}
include hn

theorem lookup_layout_first (h : x ∈ first.leaves) :
    ((split d r first second).layout b).lookup x = (first.layout (firstRect d r b)).lookup x := by
  have hs : x ∉ second.leaves := fun hs => (List.nodup_append.mp hn).2.2 x h x hs rfl
  rw [layout_split hn, List.lookup_append, lookup_layout_absent hs, Option.or_none]

theorem lookup_layout_second (h : x ∉ first.leaves) :
    ((split d r first second).layout b).lookup x = (second.layout (secondRect d r b)).lookup x := by
  rw [layout_split hn, List.lookup_append, lookup_layout_absent h, Option.none_or]

end

theorem lookup_layout_plug {K : Type} [Scalar K] {n : SplitNode} {c : Context} (hn : (c.plug n).leaves.Nodup)
    (b : CGRect K) {x : PaneId} (h : x ∈ n.leaves) :
    ((c.plug n).layout b).lookup x = (n.layout (c.rect b)).lookup x := by
  induction c generalizing b with
  | hole => rfl
  | first d r c s ih =>
    rw [Context.plug, lookup_layout_first hn b (Context.mem_leaves_plug h), ih (List.nodup_append.mp hn).1,
      Context.rect]
  | second d r f c ih =>
    have hf : x ∉ f.leaves := fun hf => (List.nodup_append.mp hn).2.2 x hf x (Context.mem_leaves_plug h) rfl
    rw [Context.plug, lookup_layout_second hn b hf, ih (List.nodup_append.mp hn).2.1, Context.rect]

/-- What stands outside a node does not see how the node is divided. -/
theorem lookup_layout_outside {K : Type} [Scalar K] {n n' : SplitNode} (heq : n'.leaves = n.leaves) {c : Context}
    (hn : (c.plug n).leaves.Nodup) (b : CGRect K) {x : PaneId} (h : x ∉ n.leaves) :
    ((c.plug n').layout b).lookup x = ((c.plug n).layout b).lookup x := by
  have hplug : ∀ c : Context, (c.plug n').leaves = (c.plug n).leaves := by
    intro c
    induction c with
    | hole => exact heq
    | first d r c s ih => rw [Context.plug, Context.plug, leaves, leaves, ih]
    | second d r f c ih => rw [Context.plug, Context.plug, leaves, leaves, ih]
  have hn' := hn
  rw [← hplug c] at hn'
  induction c generalizing b with
  | hole =>
    rw [Context.plug, Context.plug, lookup_layout_absent h, lookup_layout_absent (heq ▸ h)]
  | first d r c s ih =>
    rw [Context.plug, Context.plug, layout_split hn, layout_split hn', List.lookup_append, List.lookup_append,
      ih (List.nodup_append.mp hn).1 _ (List.nodup_append.mp hn').1]
  | second d r f c ih =>
    rw [Context.plug, Context.plug, layout_split hn, layout_split hn', List.lookup_append, List.lookup_append,
      ih (List.nodup_append.mp hn).2.1 _ (List.nodup_append.mp hn').2.1]

/-- With no split along `axis` over it a pane has all of the bounds along that axis. -/
theorem span_of_not_above {t : SplitNode} (ht : t.leaves.Nodup) {id : PaneId} {axis : SplitDirection}
    (hid : id ∈ t.leaves) (h : ¬Above id axis t) (b : CGRect Rat) :
    ∃ q, (t.layout b).lookup id = some q ∧ q.span axis = b.span axis := by
  induction t generalizing b with
  | leaf l =>
    rw [leaves, List.mem_singleton] at hid
    exact ⟨b, by simp [layout, hid], rfl⟩
  | split d r first second ih1 ih2 =>
    have hparts := List.nodup_append.mp ht
    rw [above_split, not_or, not_or] at h
    have hd : axis ≠ d := fun hd => h.1 ⟨hd.symm, List.mem_append.mp hid⟩
    by_cases hf : id ∈ first.leaves
    · obtain ⟨q, hq, hspan⟩ := ih1 hparts.1 hf h.2.1 (firstRect d r b)
      exact ⟨q, (lookup_layout_first ht b hf).trans hq, hspan.trans (span_firstRect_of_ne r b hd)⟩
    · have hs : id ∈ second.leaves := (List.mem_append.mp hid).resolve_left hf
      obtain ⟨q, hq, hspan⟩ := ih2 hparts.2.1 hs h.2.2 (secondRect d r b)
      exact ⟨q, (lookup_layout_second ht b hf).trans hq, hspan.trans (span_secondRect_of_ne r b hd)⟩

theorem clampRatio_mem (r : Rat) : 1 / 10 ≤ clampRatio r ∧ clampRatio r ≤ 9 / 10 := by
  unfold clampRatio
  exact ⟨le_min (by norm_num) (le_max_left _ _), min_le_left _ _⟩

theorem le_clampRatio {r q : Rat} (h : r ≤ 9 / 10) (hq : r ≤ q) : r ≤ clampRatio q :=
  le_min h (le_trans hq (le_max_right _ _))

theorem clampRatio_le {r q : Rat} (h : 1 / 10 ≤ r) (hq : q ≤ r) : clampRatio q ≤ r :=
  le_trans (min_le_right _ _) (max_le h hq)

/-- Along its axis a split gives a pane its side's share. -/
theorem extent_in_split {axis : SplitDirection} {r : Rat} {first second : SplitNode} {id : PaneId} {b : CGRect Rat}
    (hn : (split axis r first second).leaves.Nodup) (hr : 0 ≤ r ∧ r ≤ 1) (hroom : 1 ≤ b.extent axis)
    (hdeep : ¬Above id axis first ∧ ¬Above id axis second) (hid : id ∈ (split axis r first second).leaves) :
    ∃ q, ((split axis r first second).layout b).lookup id = some q ∧
      q.extent axis = (b.extent axis - 1) * if id ∈ first.leaves then r else 1 - r := by
  have hparts := List.nodup_append.mp hn
  by_cases hf : id ∈ first.leaves
  · obtain ⟨q, hq, hspan⟩ := span_of_not_above hparts.1 hf hdeep.1 (firstRect axis r b)
    rw [span_firstRect] at hspan
    have hpos : 0 ≤ q.span axis := by
      rw [hspan]
      exact mul_nonneg (by linarith) hr.1
    refine ⟨q, (lookup_layout_first hn b hf).trans hq, ?_⟩
    rw [CGRect.extent_of_nonneg hpos, hspan, if_pos hf]
  · have hs : id ∈ second.leaves := (List.mem_append.mp hid).resolve_left hf
    obtain ⟨q, hq, hspan⟩ := span_of_not_above hparts.2.1 hs hdeep.2 (secondRect axis r b)
    have hshare : q.span axis = (b.extent axis - 1) * (1 - r) := by
      rw [hspan, span_secondRect]
      ring
    have hpos : 0 ≤ q.span axis := by
      rw [hshare]
      exact mul_nonneg (by linarith) (by linarith [hr.2])
    refine ⟨q, (lookup_layout_second hn b hf).trans hq, ?_⟩
    rw [CGRect.extent_of_nonneg hpos, hshare, if_neg hf]

/-- The pane's side gets no less of the split from a step towards it, and no more from a step away. -/
theorem Adjusts.share {id : PaneId} {axis : SplitDirection} {delta r r' : Rat} {first second : SplitNode}
    (h : Adjusts id axis delta r r' first second) (hr : 1 / 10 ≤ r ∧ r ≤ 9 / 10) :
    (0 < delta → (if id ∈ first.leaves then r else 1 - r) ≤ if id ∈ first.leaves then r' else 1 - r') ∧
      (delta < 0 → (if id ∈ first.leaves then r' else 1 - r') ≤ if id ∈ first.leaves then r else 1 - r) := by
  by_cases hf : id ∈ first.leaves
  · rw [if_pos hf, if_pos hf, h.grows hf]
    exact ⟨fun hd => le_clampRatio hr.2 (by linarith), fun hd => clampRatio_le hr.1 (by linarith)⟩
  · rw [if_neg hf, if_neg hf, h.shrinks ((List.mem_append.mp h.holds).resolve_left hf)]
    constructor
    · intro hd
      have := clampRatio_le (q := r - delta) hr.1 (by linarith)
      linarith
    · intro hd
      have := le_clampRatio (q := r - delta) hr.2 (by linarith)
      linarith

theorem Adjusts.mem {id : PaneId} {axis : SplitDirection} {delta r r' : Rat} {first second : SplitNode}
    (h : Adjusts id axis delta r r' first second) : 1 / 10 ≤ r' ∧ r' ≤ 9 / 10 := by
  rcases List.mem_append.mp h.holds with hf | hs
  · rw [h.grows hf]
    exact clampRatio_mem _
  · rw [h.shrinks hs]
    exact clampRatio_mem _

theorem RatiosIn.plug {lo hi : Rat} {n : SplitNode} {c : Context} (h : (c.plug n).RatiosIn lo hi) :
    n.RatiosIn lo hi := by
  induction c with
  | hole => exact h
  | first d r c s ih => exact ih h.2.1
  | second d r f c ih => exact ih h.2.2

theorem nodup_of_plug {n : SplitNode} {c : Context} (h : (c.plug n).leaves.Nodup) : n.leaves.Nodup := by
  induction c with
  | hole => exact h
  | first d r c s ih => exact ih (List.nodup_append.mp h).1
  | second d r f c ih => exact ih (List.nodup_append.mp h).2.1

/-- What a resize does: one ratio changes, at the deepest split along the axis over the pane. -/
structure Resizes (t t' : SplitNode) (id : PaneId) (axis : SplitDirection) (delta : Rat) (c : Context) (r r' : Rat)
    (first second : SplitNode) : Prop where
  before : t = c.plug (.split axis r first second)
  after : t' = c.plug (.split axis r' first second)
  inside : id ∈ (split axis r first second).leaves
  deepest : ¬Above id axis first ∧ ¬Above id axis second
  range : 1 / 10 ≤ r' ∧ r' ≤ 9 / 10
  extent : ∀ b : CGRect Rat, gap ≤ (c.rect b).extent axis →
    ∃ q q', (t.layout b).lookup id = some q ∧ (t'.layout b).lookup id = some q' ∧
      (0 < delta → q.extent axis ≤ q'.extent axis) ∧ (delta < 0 → q'.extent axis ≤ q.extent axis)
  outside : ∀ (b : CGRect Rat), ∀ x ∈ t.leaves, x ∉ (split axis r first second).leaves →
    (t'.layout b).lookup x = (t.layout b).lookup x

theorem resize_affects_one_split {t : SplitNode} (ht : t.leaves.Nodup) (hr : t.RatiosIn (1 / 10) (9 / 10))
    (id : PaneId) (axis : SplitDirection) (delta : Rat) :
    (t.adjustingRatio id axis delta = none ↔ ¬Above id axis t) ∧
      ∀ t', t.adjustingRatio id axis delta = some t' →
        ∃ (c : Context) (r r' : Rat) (first second : SplitNode), Resizes t t' id axis delta c r r' first second := by
  refine ⟨adjustingRatio_eq_none ht id axis delta, fun t' h => ?_⟩
  obtain ⟨c, r, r', first, second, rfl, rfl, ha⟩ := adjustingRatio_some ht h
  have hn := nodup_of_plug ht
  have hrange := hr.plug.1
  have hleaves : (split axis r' first second).leaves = (split axis r first second).leaves := rfl
  have hholds' : id ∈ (split axis r' first second).leaves := ha.holds
  have ht' : (c.plug (.split axis r' first second)).leaves.Nodup := by
    rw [leaves_adjustingRatio h]
    exact ht
  refine ⟨c, r, r', first, second, rfl, rfl, ha.holds, ha.deepest, ha.mem, fun b hroom => ?_, fun b x _ hx => ?_⟩
  · have hroom' : 1 ≤ (c.rect b).extent axis := hroom
    obtain ⟨q, hq, hext⟩ := extent_in_split (r := r) hn ⟨by linarith [hrange.1], by linarith [hrange.2]⟩ hroom'
      ha.deepest ha.holds
    obtain ⟨q', hq', hext'⟩ := extent_in_split (r := r') hn ⟨by linarith [ha.mem.1], by linarith [ha.mem.2]⟩ hroom'
      ha.deepest ha.holds
    refine ⟨q, q', (lookup_layout_plug ht b ha.holds).trans hq,
      (lookup_layout_plug ht' b hholds').trans hq', ?_, ?_⟩
    · intro hd
      rw [hext, hext']
      exact mul_le_mul_of_nonneg_left ((ha.share hrange).1 hd) (by linarith)
    · intro hd
      rw [hext, hext']
      exact mul_le_mul_of_nonneg_left ((ha.share hrange).2 hd) (by linarith)
  · exact lookup_layout_outside hleaves ht b hx

/-- Pane 3 is below pane 2 and both are right of pane 1. -/
theorem resize_affects_one_split_nested :
    ∃ t', (split .horizontal (1 / 2) (.leaf 1) (.split .vertical (1 / 2) (.leaf 2) (.leaf 3))).adjustingRatio 3
        .horizontal
        (1 / 2) = some t' ∧
      ∃ (c : Context) (r r' : Rat) (first second : SplitNode),
        Resizes (.split .horizontal (1 / 2) (.leaf 1) (.split .vertical (1 / 2) (.leaf 2) (.leaf 3))) t' 3 .horizontal
          (1 / 2) c r r' first second :=
  ⟨_, rfl, (resize_affects_one_split (by decide) (by simp only [RatiosIn]; norm_num) 3 .horizontal (1 / 2)).2 _ rfl⟩

end SplitNode

end Mux.Tiling
