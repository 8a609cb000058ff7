import Mathlib.Order.Interval.Set.Disjoint

/-!
# Spans of a clock that restarts

A span `[start, stop)` belongs to an epoch; the positions of a new epoch start anywhere. A list of spans is in order
when epochs do not decrease and, in one epoch, each span starts where the ones before it have
ended. A mark is an epoch and a position that every span of a list lies below.
-/

namespace Lib

structure Span where
  epoch : Nat
  start : Nat
  stop : Nat
deriving DecidableEq, Repr

def Span.Before (a b : Span) : Prop := a.epoch < b.epoch ∨ a.epoch = b.epoch ∧ a.stop ≤ b.start

def InOrder (l : List Span) : Prop := l.Pairwise Span.Before ∧ ∀ a ∈ l, a.start < a.stop

def Below (l : List Span) (epoch position : Nat) : Prop :=
  ∀ a ∈ l, a.epoch < epoch ∨ a.epoch = epoch ∧ a.stop ≤ position

theorem InOrder.nil : InOrder [] := ⟨List.Pairwise.nil, by simp⟩

theorem InOrder.sublist {l l' : List Span} (h : InOrder l) (hs : l'.Sublist l) : InOrder l' :=
  ⟨h.1.sublist hs, fun a ha => h.2 a (hs.subset ha)⟩

theorem Below.nil (e p : Nat) : Below [] e p := by simp [Below]

theorem Below.mono {l : List Span} {e p e' p' : Nat} (h : Below l e p) (hp : e < e' ∨ e = e' ∧ p ≤ p') :
    Below l e' p' := by
  intro a ha
  have := h a ha
  omega

theorem Below.snoc {l : List Span} {e p : Nat} {a : Span} (h : Below l e p)
    (ha : a.epoch < e ∨ a.epoch = e ∧ a.stop ≤ p) : Below (l ++ [a]) e p := by
  intro b hb
  rcases List.mem_append.mp hb with hb | hb
  · exact h b hb
  · simp only [List.mem_singleton] at hb
    exact hb ▸ ha

theorem InOrder.snoc {l : List Span} {e p : Nat} {a : Span} (h : InOrder l) (hb : Below l e p)
    (ha : e < a.epoch ∨ e = a.epoch ∧ p ≤ a.start) (hs : a.start < a.stop) : InOrder (l ++ [a]) := by
  refine ⟨List.pairwise_append.mpr ⟨h.1, List.pairwise_singleton _ _, ?_⟩, ?_⟩
  · intro b hbl c hc
    simp only [List.mem_singleton] at hc
    have := hb b hbl
    subst hc
    unfold Span.Before
    omega
  · intro b hbl
    rcases List.mem_append.mp hbl with hbl | hbl
    · exact h.2 b hbl
    · simp only [List.mem_singleton] at hbl
      exact hbl ▸ hs

end Lib
