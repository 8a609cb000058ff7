import Mathlib.Data.List.Induction
import Mux.Lib.Ring

/-!
# Queues that drop their oldest elements

A queue of at most `n` elements takes every element that arrives and drops the oldest one when it
is full. A history says what arrived, how many elements were taken from the front and when the
queue was cleared; it determines the queue, which is always a run of the newest arrivals.

A ring of `n` slots with a head and a count holds such a queue.
-/

namespace Lib

open Function

section
variable {α : Type*}

/-! ## The last elements of a list -/

def keepLast (n : Nat) (l : List α) : List α := l.drop (l.length - n)

theorem keepLast_suffix (n : Nat) (l : List α) : keepLast n l <:+ l := List.drop_suffix _ _

theorem keepLast_of_le {n : Nat} {l : List α} (h : l.length ≤ n) : keepLast n l = l := by
  unfold keepLast
  rw [Nat.sub_eq_zero_of_le h, List.drop_zero]

theorem keepLast_length_le (n : Nat) (l : List α) : (keepLast n l).length ≤ n := by
  unfold keepLast
  rw [List.length_drop]
  omega

/-- One more than fits. -/
theorem keepLast_snoc_of_full {n : Nat} {l : List α} (h : l.length = n) (a : α) (hn : 0 < n) :
    keepLast n (l ++ [a]) = l.drop 1 ++ [a] := by
  unfold keepLast
  have hone : (l ++ [a]).length - n = 1 := by
    rw [List.length_append, List.length_singleton]
    omega
  rw [hone, List.drop_append_of_le_length (by omega)]

theorem keepLast_append (n : Nat) (l r : List α) : keepLast n (keepLast n l ++ r) = keepLast n (l ++ r) := by
  unfold keepLast
  by_cases h : l.length ≤ n
  · rw [Nat.sub_eq_zero_of_le h, List.drop_zero]
  · have hlen : (l.drop (l.length - n) ++ r).length - n = r.length := by
      rw [List.length_append, List.length_drop]
      omega
    have hall : (l ++ r).length - n = l.length - n + r.length := by
      rw [List.length_append]
      omega
    rw [hlen, hall, ← List.drop_drop, List.drop_append_of_le_length (Nat.sub_le _ _)]

/-! ## Histories -/

inductive Happening (α : Type*) where
  | arrived (a : α)
  | taken (k : Nat)
  | cleared
deriving Repr, DecidableEq

/-- The queue after one more entry. -/
def afterHappening (n : Nat) (q : List α) : Happening α → List α
  | .arrived a => keepLast n (q ++ [a])
  | .taken k => q.drop k
  | .cleared => []

def queueOf (n : Nat) (history : List (Happening α)) : List α := history.foldl (afterHappening n) []

def Happening.arrival : Happening α → Option α
  | .arrived a => some a
  | .taken _ | .cleared => none

/-- Everything that arrived, in order. -/
def arrivals (history : List (Happening α)) : List α := history.filterMap Happening.arrival

theorem queueOf_snoc (n : Nat) (history : List (Happening α)) (e : Happening α) :
    queueOf n (history ++ [e]) = afterHappening n (queueOf n history) e := by
  unfold queueOf
  rw [List.foldl_append, List.foldl_cons, List.foldl_nil]

theorem arrivals_snoc (history : List (Happening α)) (e : Happening α) :
    arrivals (history ++ [e]) = arrivals history ++ e.arrival.toList := by
  unfold arrivals
  rw [List.filterMap_append]
  cases h : e.arrival with
  | none => rw [List.filterMap_cons_none h]; rfl
  | some a => rw [List.filterMap_cons_some h]; rfl

theorem queueOf_length_le (n : Nat) (history : List (Happening α)) : (queueOf n history).length ≤ n := by
  induction history using List.reverseRecOn with
  | nil => exact Nat.zero_le n
  | append_singleton history e ih =>
    rw [queueOf_snoc]
    cases e with
    | arrived a => exact keepLast_length_le n _
    | taken k =>
      rw [afterHappening, List.length_drop]
      omega
    | cleared => exact Nat.zero_le n

/-- Of many that arrive, the last are kept. -/
theorem queueOf_append_arrived (n : Nat) (history : List (Happening α)) (l : List α) :
    queueOf n (history ++ l.map .arrived) = keepLast n (queueOf n history ++ l) := by
  induction l using List.reverseRecOn with
  | nil => rw [List.map_nil, List.append_nil, List.append_nil, keepLast_of_le (queueOf_length_le n history)]
  | append_singleton l a ih =>
    rw [List.map_append, List.map_singleton, ← List.append_assoc, queueOf_snoc, ih, afterHappening, keepLast_append,
      List.append_assoc]

theorem arrivals_append_arrived (history : List (Happening α)) (l : List α) :
    arrivals (history ++ l.map .arrived) = arrivals history ++ l := by
  unfold arrivals
  rw [List.filterMap_append, List.filterMap_map]
  congr 1
  exact List.filterMap_some

/-- The queue is a run of the newest arrivals. -/
theorem queueOf_suffix (n : Nat) (history : List (Happening α)) : queueOf n history <:+ arrivals history := by
  induction history using List.reverseRecOn with
  | nil => exact List.suffix_refl []
  | append_singleton history e ih =>
    rw [queueOf_snoc, arrivals_snoc]
    cases e with
    | arrived a =>
      have hboth : queueOf n history ++ [a] <:+ arrivals history ++ [a] := by
        obtain ⟨older, hq⟩ := ih
        exact ⟨older, by rw [← hq, List.append_assoc]⟩
      exact (keepLast_suffix n _).trans hboth
    | taken k =>
      rw [Happening.arrival, Option.toList_none, List.append_nil]
      exact (List.drop_suffix k _).trans ih
    | cleared => exact List.nil_suffix

/-! ## Takes -/

/-- Every take is within the queue it finds, and at most `m` elements. -/
def Covered (n m : Nat) (history : List (Happening α)) : Prop :=
  ∀ before k after, history = before ++ .taken k :: after → k ≤ m ∧ k ≤ (queueOf n before).length

theorem covered_nil (n m : Nat) : Covered n m ([] : List (Happening α)) := by
  intro before k after h
  cases before <;> cases h

theorem Covered.snoc {n m : Nat} {history : List (Happening α)} (h : Covered n m history) {e : Happening α}
    (he : ∀ k, e = .taken k → k ≤ m ∧ k ≤ (queueOf n history).length) : Covered n m (history ++ [e]) := by
  intro before k after hsplit
  rcases List.eq_nil_or_concat after with rfl | ⟨rest, last, rfl⟩
  · obtain ⟨rfl, hlast⟩ := List.append_inj' hsplit rfl
    exact he k (List.singleton_inj.mp hlast)
  · rw [List.concat_eq_append, ← List.cons_append, ← List.append_assoc] at hsplit
    exact h before k rest (List.append_inj' hsplit rfl).1

/-! ## A ring that holds a queue -/

/-- The values of `count` slots from `head` on. -/
def queued (n : Nat) (slots : Nat → α) (head count : Nat) : List α :=
  (List.range count).map fun i => slots ((head + i) % n)

@[simp] theorem queued_length (n : Nat) (slots : Nat → α) (head count : Nat) :
    (queued n slots head count).length = count := by
  simp [queued]

@[simp] theorem queued_zero (n : Nat) (slots : Nat → α) (head : Nat) : queued n slots head 0 = [] := rfl

theorem queued_push {n : Nat} {slots : Nat → α} {head count : Nat} (h : count < n) (a : α) :
    queued n (update slots ((head + count) % n) a) head (count + 1) = queued n slots head count ++ [a] := by
  unfold queued
  rw [List.range_succ, List.map_append, List.map_singleton, update_self]
  congr 1
  apply List.map_congr_left
  intro i hi
  have hlt : i < count := List.mem_range.mp hi
  exact update_of_ne (mod_ne_of_near (by omega) (by omega) (by omega)) _ _

theorem queued_drop (n : Nat) (slots : Nat → α) (head count k : Nat) :
    queued n slots ((head + k) % n) (count - k) = (queued n slots head count).drop k := by
  apply List.ext_getElem
  · rw [List.length_drop, queued_length, queued_length]
  · intro i h1 h2
    simp [queued, Nat.mod_add_mod, Nat.add_assoc]

end

end Lib
