import Mathlib.Tactic.Linarith
import Mux.Geometry
import Mux.Lib.Follow

/-!
# Focus in a direction

`focusDirection` focuses the nearest pane on a side and, at the edge, goes on to the
nearest pane on the other side until there is none. Every step filters the rectangles into
a new dictionary, with an order of its own. A pane can be picked under some order exactly
when it is a nearest one: eligible, with nothing eligible nearer.

The laws of `LawfulScalar` are those of numbers other than NaN, rounded or exact.
-/

namespace Mux.Tiling

open Scalar Lib

class LawfulScalar (K : Type) [Scalar K] : Prop where
  lt_asymm : ∀ {a b : K}, a < b → ¬ b < a
  not_lt_trans : ∀ {a b c : K}, ¬ a < b → ¬ b < c → ¬ a < c
  not_add_lt : ∀ x : K, ¬ x + ofRat 1 < x
  not_lt_sub : ∀ x : K, ¬ x < x - ofRat 1

instance lawfulRat : LawfulScalar Rat where
  lt_asymm := by
    intro a b h
    exact lt_asymm h
  not_lt_trans := by
    intro a b c hab hbc
    exact not_lt.mpr ((not_lt.mp hbc).trans (not_lt.mp hab))
  not_add_lt := by
    intro x
    exact not_lt.mpr (le_add_of_nonneg_right (by decide))
  not_lt_sub := by
    intro x
    exact not_lt.mpr (sub_le_self x (by decide))

def FocusDirection.opposite : FocusDirection → FocusDirection
  | .left => .right
  | .right => .left
  | .up => .down
  | .down => .up

variable {K : Type} [Scalar K]

namespace CGRect

def center (r : CGRect K) : CGPoint K := ⟨r.midX, r.midY⟩

def mid (axis : SplitDirection) (r : CGRect K) : K := match axis with
  | .horizontal => r.midX
  | .vertical => r.midY

/-- The centre of `q` lies further in the direction. -/
def Beyond (direction : FocusDirection) (r q : CGRect K) : Prop := match direction with
  | .left => q.midX < r.midX
  | .right => r.midX < q.midX
  | .up => q.midY < r.midY
  | .down => r.midY < q.midY

end CGRect

/-- The order that brings one entry to the front. -/
def Iteration.front {α : Type} [DecidableEq α] (a : α) : Iteration α where
  order l := if a ∈ l then a :: l.erase a else l
  perm l := by
    by_cases h : a ∈ l
    · rw [if_pos h]
      exact (List.perm_cons_erase h).symm
    · rw [if_neg h]

theorem Iteration.order_front {α : Type} [DecidableEq α] {a : α} {l : List α} (h : a ∈ l) :
    ∃ rest, (Iteration.front a).order l = a :: rest ∧ ∀ b ∈ rest, b ∈ l := by
  refine ⟨l.erase a, if_pos h, ?_⟩
  intro b hb
  exact List.mem_of_mem_erase hb

namespace SplitNode

/-- The loop of the edge fallback. -/
def wrapped (its : Nat → Iteration (PaneId × CGRect K)) (opposite : FocusDirection)
    (rects : List (PaneId × CGRect K)) (fuel : Nat) (id : PaneId) : Option PaneId :=
  follow (fun k candidate => neighbor (its k) candidate opposite rects) fuel id

/-- The candidates of the loop, the start included. -/
def visited (its : Nat → Iteration (PaneId × CGRect K)) (opposite : FocusDirection)
    (rects : List (PaneId × CGRect K)) (fuel : Nat) (id : PaneId) : List PaneId :=
  trail (fun k candidate => neighbor (its k) candidate opposite rects) fuel id

/-- `focusDirection`: the pane to focus, if any, unless the loop runs out of fuel. -/
def focusTarget (its : Nat → Iteration (PaneId × CGRect K)) (id : PaneId) (direction : FocusDirection)
    (rects : List (PaneId × CGRect K)) (fuel : Nat) : Option (Option PaneId) :=
  match neighbor (its 0) id direction rects with
  | some target => some (some target)
  | none =>
    -- tmux-style: wrap to the far side
    (wrapped (fun k => its (k + 1)) direction.opposite rects fuel id).map fun candidate =>
      if candidate = id then none else some candidate

def Eligible (direction : FocusDirection) (rects : List (PaneId × CGRect K)) (a b : PaneId) : Prop :=
  ∃ ra rb, rects.lookup a = some ra ∧ rects.lookup b = some rb ∧ b ≠ a ∧ eligible direction ra.center rb = true

def Nearest (direction : FocusDirection) (rects : List (PaneId × CGRect K)) (a b : PaneId) : Prop :=
  ∃ ra rb, rects.lookup a = some ra ∧ rects.lookup b = some rb ∧ b ≠ a ∧ eligible direction ra.center rb = true ∧
    ∀ q ∈ rects, q.1 ≠ a → eligible direction ra.center q.2 = true →
      ¬ distance ra.center q.2 < distance ra.center rb

theorem Nearest.eligible {direction : FocusDirection} {rects : List (PaneId × CGRect K)} {a b : PaneId}
    (h : Nearest direction rects a b) : Eligible direction rects a b := by
  obtain ⟨ra, rb, ha, hb, hne, he, -⟩ := h
  exact ⟨ra, rb, ha, hb, hne, he⟩

/-! ## Least elements -/

theorem not_lt_minBy {α : Type} {lt : α → α → Bool} (hasymm : ∀ {a b}, lt a b = true → ¬ lt b a = true)
    (htrans : ∀ {a b c}, ¬ lt a b = true → ¬ lt b c = true → ¬ lt a c = true) {l : List α} {a : α}
    (h : minBy lt l = some a) : ∀ b ∈ l, ¬ lt b a = true := by
  have hirrefl : ∀ a, ¬ lt a a = true := fun a ha => hasymm ha ha
  -- nothing seen so far is less than the best so far
  have hfold : ∀ (l : List α) (best : α),
      ∀ b ∈ best :: l, ¬ lt b (l.foldl (fun best b => if lt b best then b else best) best) = true := by
    intro l
    induction l with
    | nil =>
      intro best b hb
      rw [List.mem_singleton.mp hb]
      exact hirrefl best
    | cons c l ih =>
      intro best b hb
      rw [List.foldl_cons]
      by_cases hc : lt c best = true
      · rw [if_pos hc]
        rcases List.mem_cons.mp hb with rfl | hb
        · exact htrans (hasymm hc) (ih c c List.mem_cons_self)
        · exact ih c b hb
      · rw [if_neg hc]
        rcases List.mem_cons.mp hb with rfl | hb
        · exact ih b b List.mem_cons_self
        · rcases List.mem_cons.mp hb with rfl | hb
          · exact htrans hc (ih best best List.mem_cons_self)
          · exact ih best b (List.mem_cons_of_mem _ hb)
  cases l with
  | nil => cases h
  | cons c l =>
    cases h
    exact hfold l c

theorem minBy_eq_none {α : Type} {lt : α → α → Bool} {l : List α} : minBy lt l = none ↔ l = [] := by
  cases l <;> simp [minBy]

/-- What nothing is less than is picked when it comes first. -/
theorem minBy_head {α : Type} {lt : α → α → Bool} {l : List α} {a : α} (h : ∀ b ∈ l, ¬ lt b a = true) :
    minBy lt (a :: l) = some a := by
  rw [minBy, Option.some_inj]
  induction l with
  | nil => rfl
  | cons b l ih =>
    rw [List.foldl_cons, if_neg (h b List.mem_cons_self)]
    exact ih fun c hc => h c (List.mem_cons_of_mem _ hc)

/-! ## What a neighbour is -/

omit [Scalar K] in
theorem lookup_eq_some_iff {rects : List (PaneId × CGRect K)} (hkeys : (rects.map fun e => e.1).Nodup) {a : PaneId}
    {r : CGRect K} : rects.lookup a = some r ↔ (a, r) ∈ rects := by
  induction rects with
  | nil => simp
  | cons e rects ih =>
    obtain ⟨k, q⟩ := e
    rw [List.map_cons, List.nodup_cons] at hkeys
    rw [List.lookup_cons, List.mem_cons]
    by_cases hk : a = k
    · subst hk
      have hnot : (a, r) ∉ rects := fun hm => hkeys.1 (List.mem_map.mpr ⟨_, hm, rfl⟩)
      simp [hnot, eq_comm]
    · have hbeq : (a == k) = false := beq_eq_false_iff_ne.mpr hk
      simp only [hbeq, Prod.mk.injEq, hk, false_and, false_or]
      exact ih hkeys.2

section
variable {rects : List (PaneId × CGRect K)} {direction : FocusDirection} {a b : PaneId}

/-- The entries `neighbor` chooses among. -/
def among (rects : List (PaneId × CGRect K)) (direction : FocusDirection) (a : PaneId) (ra : CGRect K) :
    List (PaneId × CGRect K) :=
  rects.filter fun e => !(e.1 == a) && eligible direction ra.center e.2

theorem mem_among {ra : CGRect K} {e : PaneId × CGRect K} :
    e ∈ among rects direction a ra ↔ e ∈ rects ∧ e.1 ≠ a ∧ eligible direction ra.center e.2 = true := by
  simp [among, List.mem_filter]

theorem neighbor_of_lookup (it : Iteration (PaneId × CGRect K)) {ra : CGRect K} (h : rects.lookup a = some ra) :
    neighbor it a direction rects =
      (minBy (fun p q => decide (distance ra.center p.2 < distance ra.center q.2))
        (it.order (among rects direction a ra))).map fun e => e.1 := by
  unfold neighbor
  rw [h]
  rfl

theorem neighbor_of_absent (it : Iteration (PaneId × CGRect K)) (h : rects.lookup a = none) :
    neighbor it a direction rects = none := by
  unfold neighbor
  rw [h]

theorem neighbor_eq_none (hkeys : (rects.map fun e => e.1).Nodup) (it : Iteration (PaneId × CGRect K)) :
    neighbor it a direction rects = none ↔ ∀ b, ¬ Eligible direction rects a b := by
  cases ha : rects.lookup a with
  | none =>
    rw [neighbor_of_absent it ha]
    refine iff_of_true rfl ?_
    rintro b ⟨ra, rb, hra, -⟩
    rw [ha] at hra
    cases hra
  | some ra =>
    rw [neighbor_of_lookup it ha, Option.map_eq_none_iff, minBy_eq_none]
    have hnil : it.order (among rects direction a ra) = [] ↔ among rects direction a ra = [] :=
      ⟨fun h => List.Perm.nil_eq (h ▸ it.perm _) ▸ rfl, fun h => List.Perm.eq_nil (h ▸ it.perm _)⟩
    rw [hnil, List.eq_nil_iff_forall_not_mem]
    constructor
    · rintro h b ⟨ra', rb, hra, hrb, hne, he⟩
      rw [ha] at hra
      cases hra
      exact h (b, rb) (mem_among.mpr ⟨(lookup_eq_some_iff hkeys).mp hrb, hne, he⟩)
    · rintro h ⟨b, rb⟩ hm
      obtain ⟨hmem, hne, he⟩ := mem_among.mp hm
      exact h b ⟨ra, rb, ha, (lookup_eq_some_iff hkeys).mpr hmem, hne, he⟩

theorem nearest_of_neighbor [LawfulScalar K] (hkeys : (rects.map fun e => e.1).Nodup)
    {it : Iteration (PaneId × CGRect K)} (h : neighbor it a direction rects = some b) :
    Nearest direction rects a b := by
  cases ha : rects.lookup a with
  | none =>
    rw [neighbor_of_absent it ha] at h
    cases h
  | some ra =>
    rw [neighbor_of_lookup it ha] at h
    obtain ⟨⟨b', rb⟩, hmin, rfl⟩ := Option.map_eq_some_iff.mp h
    have hmem := mem_among.mp ((it.perm _).mem_iff.mp (mem_minBy hmin))
    refine ⟨ra, rb, ha, (lookup_eq_some_iff hkeys).mpr hmem.1, hmem.2.1, hmem.2.2, ?_⟩
    intro q hq hne he
    have hleast := not_lt_minBy (by
        intro p q hpq hqp
        exact LawfulScalar.lt_asymm (of_decide_eq_true hpq) (of_decide_eq_true hqp))
      (by
        intro p q r hpq hqr hpr
        exact LawfulScalar.not_lt_trans (fun hlt => hpq (decide_eq_true hlt)) (fun hlt => hqr (decide_eq_true hlt))
          (of_decide_eq_true hpr)) hmin q ((it.perm _).mem_iff.mpr (mem_among.mpr ⟨hq, hne, he⟩))
    exact fun hlt => hleast (decide_eq_true hlt)

/-- A nearest pane is the neighbour under some order. -/
theorem exists_neighbor (hkeys : (rects.map fun e => e.1).Nodup) (h : Nearest direction rects a b) :
    ∃ it : Iteration (PaneId × CGRect K), neighbor it a direction rects = some b := by
  obtain ⟨ra, rb, ha, hb, hne, he, hleast⟩ := h
  have hmem : (b, rb) ∈ among rects direction a ra := mem_among.mpr ⟨(lookup_eq_some_iff hkeys).mp hb, hne, he⟩
  classical
  refine ⟨.front (b, rb), ?_⟩
  rw [neighbor_of_lookup _ ha]
  obtain ⟨rest, horder, hrest⟩ := Iteration.order_front hmem
  rw [horder, minBy_head, Option.map_some]
  intro q hq hlt
  obtain ⟨hq, hqa, hqe⟩ := mem_among.mp (hrest q hq)
  exact hleast q hq hqa hqe (of_decide_eq_true hlt)

end

/-! ## The walk to the far side -/

section
variable [LawfulScalar K] {rects : List (PaneId × CGRect K)} {direction : FocusDirection}

theorem beyond_irrefl (direction : FocusDirection) (r : CGRect K) : ¬ r.Beyond direction r := by
  intro h
  cases direction <;> exact LawfulScalar.lt_asymm h h

theorem lt_trans_of_lawful {a b c : K} (hab : a < b) (hbc : b < c) : a < c := by
  by_contra hac
  exact LawfulScalar.not_lt_trans hac (LawfulScalar.lt_asymm hbc) hab

theorem beyond_trans {r q p : CGRect K} (h : r.Beyond direction q) (h' : q.Beyond direction p) :
    r.Beyond direction p := by
  cases direction with
  | left => exact lt_trans_of_lawful h' h
  | right => exact lt_trans_of_lawful h h'
  | up => exact lt_trans_of_lawful h' h
  | down => exact lt_trans_of_lawful h h'

/-- One point further is further. -/
theorem beyond_of_eligible {r q : CGRect K} (h : eligible direction r.center q = true) : r.Beyond direction q := by
  have hsub : ∀ {a b : K}, a < b - ofRat 1 → a < b := by
    intro a b hab
    by_contra hn
    exact LawfulScalar.not_lt_trans hn (LawfulScalar.not_lt_sub b) hab
  have hadd : ∀ {a b : K}, b + ofRat 1 < a → b < a := by
    intro a b hab
    by_contra hn
    exact LawfulScalar.not_lt_trans (LawfulScalar.not_add_lt b) hn hab
  cases direction with
  | left => exact hsub (of_decide_eq_true h)
  | right => exact hadd (of_decide_eq_true h)
  | up => exact hsub (of_decide_eq_true h)
  | down => exact hadd (of_decide_eq_true h)

/-- Pane `b` lies further than `a`. -/
def Ahead (direction : FocusDirection) (rects : List (PaneId × CGRect K)) (a b : PaneId) : Prop :=
  ∃ ra rb, rects.lookup a = some ra ∧ rects.lookup b = some rb ∧ ra.Beyond direction rb

theorem Eligible.ahead {a b : PaneId} (h : Eligible direction rects a b) : Ahead direction rects a b := by
  obtain ⟨ra, rb, ha, hb, -, he⟩ := h
  exact ⟨ra, rb, ha, hb, beyond_of_eligible he⟩

theorem ahead_irrefl (a : PaneId) : ¬ Ahead direction rects a a := by
  rintro ⟨ra, rb, ha, hb, h⟩
  rw [ha] at hb
  cases hb
  exact beyond_irrefl direction ra h

theorem ahead_trans {a b c : PaneId} (h : Ahead direction rects a b) (h' : Ahead direction rects b c) :
    Ahead direction rects a c := by
  obtain ⟨ra, rb, ha, hb, hab⟩ := h
  obtain ⟨rb', rc, hb', hc, hbc⟩ := h'
  rw [hb] at hb'
  cases hb'
  exact ⟨ra, rc, ha, hc, beyond_trans hab hbc⟩

variable (hkeys : (rects.map fun e => e.1).Nodup) (its : Nat → Iteration (PaneId × CGRect K))

include hkeys

theorem ahead_of_neighbor (k : Nat) (a b : PaneId) (h : neighbor (its k) a direction rects = some b) :
    Ahead direction rects a b :=
  (nearest_of_neighbor hkeys h).eligible.ahead

theorem mem_of_neighbor (k : Nat) (a b : PaneId) (h : neighbor (its k) a direction rects = some b) :
    b ∈ rects.map fun e => e.1 := by
  obtain ⟨ra, rb, -, hb, -⟩ := nearest_of_neighbor hkeys h
  exact List.mem_map.mpr ⟨(b, rb), (lookup_eq_some_iff hkeys).mp hb, rfl⟩

theorem wrapped_ends {fuel : Nat} (hf : rects.length < fuel) (id : PaneId) :
    ∃ last, wrapped its direction rects fuel id = some last :=
  follow_ends (ahead_of_neighbor hkeys its) ahead_trans ahead_irrefl (mem_of_neighbor hkeys its)
    (by rwa [List.length_map]) id

theorem nodup_visited (fuel : Nat) (id : PaneId) : (visited its direction rects fuel id).Nodup :=
  nodup_trail (ahead_of_neighbor hkeys its) ahead_trans ahead_irrefl

omit [LawfulScalar K] in
theorem wrapped_stops {fuel : Nat} {id last : PaneId} (h : wrapped its direction rects fuel id = some last)
    (b : PaneId) : ¬ Eligible direction rects last b := by
  obtain ⟨k, hk⟩ := step_follow h
  exact (neighbor_eq_none hkeys (its k)).mp hk b

theorem mem_of_wrapped {fuel : Nat} {id last : PaneId} (hid : id ∈ rects.map fun e => e.1)
    (h : wrapped its direction rects fuel id = some last) : last ∈ rects.map fun e => e.1 := by
  have hmem := trail_subset (mem_of_neighbor hkeys its) (List.mem_of_getLast? (getLast_trail h))
  rcases List.mem_cons.mp hmem with heq | hmem
  · exact heq ▸ hid
  · exact hmem

end

/-! ## Exact rationals -/

section
variable {rects : List (PaneId × CGRect Rat)} {direction : FocusDirection}

theorem not_beyond_trans {r q p : CGRect Rat} (h : ¬ r.Beyond direction q) (h' : ¬ q.Beyond direction p) :
    ¬ r.Beyond direction p := by
  cases direction with
  | left => exact LawfulScalar.not_lt_trans h' h
  | right => exact LawfulScalar.not_lt_trans h h'
  | up => exact LawfulScalar.not_lt_trans h' h
  | down => exact LawfulScalar.not_lt_trans h h'

theorem near_of_not_eligible {r q : CGRect Rat} (h : ¬ eligible direction r.center q = true)
    (h' : ¬ q.Beyond direction r) : |q.mid direction.axis - r.mid direction.axis| ≤ 1 := by
  have hlow : ∀ {a b : Rat}, ¬ decide (a < b - 1) = true → ¬ b < a → |a - b| ≤ 1 := by
    intro a b hab hba
    rw [decide_eq_true_eq, not_lt] at hab
    rw [abs_le]
    constructor <;> linarith
  have hhigh : ∀ {a b : Rat}, ¬ decide (b + 1 < a) = true → ¬ a < b → |a - b| ≤ 1 := by
    intro a b hab hba
    rw [decide_eq_true_eq, not_lt] at hab
    rw [abs_le]
    constructor <;> linarith
  cases direction with
  | left => exact hlow h h'
  | right => exact hhigh h h'
  | up => exact hlow h h'
  | down => exact hhigh h h'

/-- With nothing eligible on a side a pane is within one point of the furthest there. -/
theorem extreme_of_stuck (hkeys : (rects.map fun e => e.1).Nodup) {last : PaneId} {r : CGRect Rat}
    (hr : rects.lookup last = some r) (h : ∀ b, ¬ Eligible direction rects last b) :
    ∃ e ∈ rects, (∀ q ∈ rects, ¬ e.2.Beyond direction q.2) ∧
      |e.2.mid direction.axis - r.mid direction.axis| ≤ 1 := by
  classical
  obtain ⟨e, he⟩ : ∃ e, minBy (fun p q => decide (q.2.Beyond direction p.2)) rects = some e := by
    cases hm : minBy (fun p q => decide (q.2.Beyond direction p.2)) rects with
    | some e => exact ⟨e, rfl⟩
    | none =>
      rw [minBy_eq_none.mp hm] at hr
      cases hr
  have hmem : e ∈ rects := mem_minBy he
  have hfurthest : ∀ q ∈ rects, ¬ e.2.Beyond direction q.2 := by
    intro q hq hlt
    refine not_lt_minBy ?_ ?_ he q hq (decide_eq_true hlt)
    · intro a b hab hba
      exact beyond_irrefl direction _ (beyond_trans (of_decide_eq_true hab) (of_decide_eq_true hba))
    · intro a b c hab hbc hac
      have hab' := fun hlt => hab (decide_eq_true hlt)
      have hbc' := fun hlt => hbc (decide_eq_true hlt)
      exact not_beyond_trans hbc' hab' (of_decide_eq_true hac)
  refine ⟨e, hmem, hfurthest, ?_⟩
  have hr' := hfurthest _ ((lookup_eq_some_iff hkeys).mp hr)
  have hstuck : ¬ eligible direction r.center e.2 = true := by
    intro hel
    by_cases heq : e.1 = last
    · have hsome := (lookup_eq_some_iff hkeys).mpr hmem
      rw [heq, hr] at hsome
      rw [← Option.some.inj hsome] at hel
      exact beyond_irrefl direction r (beyond_of_eligible hel)
    · exact h e.1 ⟨r, e.2, hr, (lookup_eq_some_iff hkeys).mpr hmem, heq, hel⟩
  exact near_of_not_eligible hstuck hr'

/-- Where the loop of the edge fallback comes to, whatever the orders. -/
structure FarSide (its : Nat → Iteration (PaneId × CGRect Rat)) (direction : FocusDirection)
    (rects : List (PaneId × CGRect Rat)) (id last : PaneId) : Prop where
  ends : ∀ fuel, rects.length < fuel → wrapped its direction rects fuel id = some last
  once : ∀ fuel, (visited its direction rects fuel id).Nodup
  comesTo : ∀ fuel, rects.length < fuel → (visited its direction rects fuel id).getLast? = some last
  extreme : ∃ r e, rects.lookup last = some r ∧ e ∈ rects ∧ (∀ q ∈ rects, ¬ e.2.Beyond direction q.2) ∧
    |e.2.mid direction.axis - r.mid direction.axis| ≤ 1

theorem farSide (hkeys : (rects.map fun e => e.1).Nodup) (its : Nat → Iteration (PaneId × CGRect Rat)) {id : PaneId}
    (hid : id ∈ rects.map fun e => e.1) : ∃ last, FarSide its direction rects id last := by
  obtain ⟨last, hlast⟩ := @wrapped_ends _ _ _ _ direction hkeys its _ (Nat.lt_succ_self rects.length) id
  have hends : ∀ fuel, rects.length < fuel → wrapped its direction rects fuel id = some last :=
    fun fuel hf => follow_mono hlast hf
  obtain ⟨⟨k, r⟩, hmem, rfl⟩ := List.mem_map.mp (mem_of_wrapped hkeys its hid hlast)
  have hr := (lookup_eq_some_iff hkeys).mpr hmem
  obtain ⟨e, he, hfurthest, hnear⟩ := extreme_of_stuck hkeys hr (wrapped_stops hkeys its hlast)
  exact ⟨k, hends, fun fuel => nodup_visited hkeys its fuel id, fun fuel hf => getLast_trail (hends fuel hf),
    r, e, hr, he, hfurthest, hnear⟩

end

/-- With no neighbour in its direction, focus comes to the far side and stays put only if
nothing lies in the opposite direction. -/
theorem wrap_reaches_far_side (its : Nat → Iteration (PaneId × CGRect Rat)) {rects : List (PaneId × CGRect Rat)}
    (hkeys : (rects.map fun e => e.1).Nodup) {id : PaneId} (hid : id ∈ rects.map fun e => e.1)
    {direction : FocusDirection} (h : neighbor (its 0) id direction rects = none) :
    ∃ last target, FarSide (fun k => its (k + 1)) direction.opposite rects id last ∧
      (∀ fuel, rects.length < fuel → focusTarget its id direction rects fuel = some target) ∧
      (target = some last ∧ last ≠ id ∨ target = none ∧ ∀ b, ¬ Eligible direction.opposite rects id b) := by
  obtain ⟨last, hfar⟩ := @farSide _ direction.opposite hkeys (fun k => its (k + 1)) _ hid
  refine ⟨last, if last = id then none else some last, hfar, ?_, ?_⟩
  · intro fuel hf
    unfold focusTarget
    rw [h, hfar.ends fuel hf]
    rfl
  · by_cases heq : last = id
    · refine Or.inr ⟨if_pos heq, ?_⟩
      have hstop := wrapped_stops hkeys _ (hfar.ends _ (Nat.lt_succ_self rects.length))
      exact heq ▸ hstop
    · exact Or.inl ⟨if_neg heq, heq⟩

/-- From the last of three columns to the right. -/
theorem wrap_reaches_far_side_columns :
    ∃ last, FarSide (fun _ => ⟨List.reverse, List.reverse_perm⟩) .left
        [(1, ⟨⟨0, 0⟩, ⟨10, 10⟩⟩), (2, ⟨⟨11, 0⟩, ⟨10, 10⟩⟩), (3, ⟨⟨22, 0⟩, ⟨10, 10⟩⟩)] 3 last ∧
      focusTarget (fun _ => ⟨List.reverse, List.reverse_perm⟩) 3 .right
        [(1, ⟨⟨0, 0⟩, ⟨10, 10⟩⟩), (2, ⟨⟨11, 0⟩, ⟨10, 10⟩⟩), (3, ⟨⟨22, 0⟩, (⟨10, 10⟩ : CGSize Rat)⟩)] 4 =
          some (some last) := by
  obtain ⟨last, target, hfar, hends, hcase⟩ := @wrap_reaches_far_side
    (fun _ => ⟨List.reverse, List.reverse_perm⟩)
    [(1, ⟨⟨0, 0⟩, ⟨10, 10⟩⟩), (2, ⟨⟨11, 0⟩, ⟨10, 10⟩⟩), (3, ⟨⟨22, 0⟩, ⟨10, 10⟩⟩)] (by decide) 3 (by decide) .right
    (by decide +kernel)
  refine ⟨last, hfar, ?_⟩
  rcases hcase with ⟨rfl, -⟩ | ⟨-, hnone⟩
  · exact hends 4 (by decide)
  · refine absurd ?_ (hnone 2)
    exact ⟨⟨⟨22, 0⟩, ⟨10, 10⟩⟩, ⟨⟨11, 0⟩, ⟨10, 10⟩⟩, rfl, rfl, by decide, by decide +kernel⟩

end SplitNode

end Mux.Tiling
