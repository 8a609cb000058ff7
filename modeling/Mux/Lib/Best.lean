import Mathlib.Order.Lattice

/-!
# The first best of a list

A scan that keeps the best element so far tests an element only when it would beat what is
kept. A test can fail altogether, and the scan then fails too. Where no test it needs
fails, the scan finds the first element of the greatest key among those that pass, just as
if it had tested them all.
-/

namespace Lib

section
variable {α K : Type*} [LinearOrder K] {key : α → K}

/-- The first element of the greatest key among those of a kind, none if there are none. -/
def FirstBest (key : α → K) (holds : α → Prop) (l : List α) : Option α → Prop
  | none => ∀ a ∈ l, ¬ holds a
  | some w => ∃ before after, l = before ++ w :: after ∧ holds w ∧
      (∀ a ∈ before, holds a → key a < key w) ∧ ∀ a ∈ after, holds a → key a ≤ key w

def beats (key : α → K) (best : Option α) (a : α) : Bool := best.all fun previous => decide (key previous < key a)

/-- The loop: it goes on with an element that beats the best one and passes the test. -/
def scanBest (key : α → K) (test : α → Option Bool) : Option α → List α → Option (Option α)
  | best, [] => some best
  | best, a :: l =>
    if beats key best a then (test a).bind fun passed => scanBest key test (if passed then some a else best) l
    else scanBest key test best l

/-- Of the elements whose test the scan needs, each has a result. -/
def Tested (key : α → K) (test : α → Option Bool) (seen l : List α) : Prop :=
  ∀ before a after, l = before ++ a :: after →
    (∀ e ∈ seen ++ before, test e = some true → key e < key a) → (test a).isSome = true

theorem firstBest_nil (holds : α → Prop) : FirstBest key holds [] none := by
  intro a ha
  cases ha

theorem FirstBest.congr {holds holds' : α → Prop} {l : List α} {w : Option α} (h : ∀ a ∈ l, (holds a ↔ holds' a)) :
    FirstBest key holds l w ↔ FirstBest key holds' l w := by
  cases w with
  | none =>
    unfold FirstBest
    exact forall₂_congr fun a ha => not_congr (h a ha)
  | some w =>
    unfold FirstBest
    refine exists_congr fun before => exists_congr fun after => and_congr_right ?_
    rintro rfl
    refine and_congr (h w (by simp)) (and_congr ?_ ?_)
    · exact forall₂_congr fun a ha => imp_congr_left (h a (List.mem_append_left _ ha))
    · exact forall₂_congr fun a ha => imp_congr_left (h a (List.mem_append_right _ (List.mem_cons_of_mem _ ha)))

/-- What beats the best element beats every one of its kind. -/
theorem FirstBest.beats_iff {holds : α → Prop} {seen : List α} {best : Option α} (h : FirstBest key holds seen best)
    (a : α) :
    beats key best a = true ↔ ∀ e ∈ seen, holds e → key e < key a := by
  cases best with
  | none =>
    refine iff_of_true rfl ?_
    intro e he hholds
    exact absurd hholds (h e he)
  | some w =>
    obtain ⟨before, after, rfl, hw, hbefore, hafter⟩ := h
    simp only [beats, Option.all_some, decide_eq_true_eq]
    constructor
    · intro hlt e he hholds
      rcases List.mem_append.mp he with he | he
      · exact lt_trans (hbefore e he hholds) hlt
      · rcases List.mem_cons.mp he with rfl | he
        · exact hlt
        · exact lt_of_le_of_lt (hafter e he hholds) hlt
    · intro hall
      exact hall w (List.mem_append_right _ List.mem_cons_self) hw

theorem FirstBest.snoc_pass {holds : α → Prop} {seen : List α} {best : Option α} (h : FirstBest key holds seen best)
    {a : α}
    (hbeats : beats key best a = true) (ha : holds a) : FirstBest key holds (seen ++ [a]) (some a) :=
  ⟨seen, [], rfl, ha, (h.beats_iff a).mp hbeats, by simp⟩

/-- An element that fails its test, or that does not beat the best one, changes nothing. -/
theorem FirstBest.snoc_skip {holds : α → Prop} {seen : List α} {best : Option α} (h : FirstBest key holds seen best)
    {a : α}
    (ha : ¬ beats key best a = true ∨ ¬ holds a) : FirstBest key holds (seen ++ [a]) best := by
  cases best with
  | none =>
    intro e he hholds
    rcases List.mem_append.mp he with he | he
    · exact h e he hholds
    · rw [List.mem_singleton] at he
      subst he
      exact ha.elim (fun hnot => hnot rfl) fun hnot => hnot hholds
  | some w =>
    obtain ⟨before, after, rfl, hw, hbefore, hafter⟩ := h
    refine ⟨before, after ++ [a], by simp, hw, hbefore, ?_⟩
    intro e he hholds
    rcases List.mem_append.mp he with he | he
    · exact hafter e he hholds
    · rw [List.mem_singleton] at he
      subst he
      refine le_of_not_gt fun hlt => ?_
      exact ha.elim (fun hnot => hnot (decide_eq_true hlt)) fun hnot => hnot hholds

variable {test : α → Option Bool}

theorem tested_nil (seen : List α) : Tested key test seen [] := by
  intro before a after h
  cases before <;> cases h

theorem tested_cons {seen l : List α} {a : α} : Tested key test seen (a :: l) ↔
    ((∀ e ∈ seen, test e = some true → key e < key a) → (test a).isSome = true) ∧ Tested key test
    (seen ++ [a]) l := by
  constructor
  · intro h
    refine ⟨?_, ?_⟩
    · intro hseen
      exact h [] a l rfl (by simpa using hseen)
    · rintro before b after rfl hbefore
      exact h (a :: before) b after rfl (by simpa using hbefore)
  · rintro ⟨hhead, hrest⟩ before b after heq hbefore
    cases before with
    | nil =>
      cases heq
      exact hhead (by simpa using hbefore)
    | cons c before =>
      cases heq
      exact hrest before b after rfl (by simpa using hbefore)

/-- From a best element so far on, the scan ends with the best of all if every test it needs has a result. -/
theorem scanBest_of_tested {seen l : List α} {best : Option α}
    (hbest : FirstBest key (fun a => test a = some true) seen best)
    (h : Tested key test seen l) :
    ∃ w, FirstBest key (fun a => test a = some true) (seen ++ l) w ∧ scanBest key test best l = some w := by
  induction l generalizing seen best with
  | nil => exact ⟨best, by simpa using hbest, rfl⟩
  | cons a l ih =>
    obtain ⟨hhead, hrest⟩ := tested_cons.mp h
    rw [List.append_cons, scanBest]
    by_cases hbeats : beats key best a = true
    · rw [if_pos hbeats]
      obtain ⟨passed, hpassed⟩ := Option.isSome_iff_exists.mp (hhead ((hbest.beats_iff a).mp hbeats))
      rw [hpassed, Option.bind_some]
      cases passed with
      | true => exact ih (hbest.snoc_pass hbeats hpassed) hrest
      | false => exact ih (hbest.snoc_skip (Or.inr (by rw [hpassed]; simp))) hrest
    · rw [if_neg hbeats]
      exact ih (hbest.snoc_skip (Or.inl hbeats)) hrest

theorem tested_of_scanBest {seen l : List α} {best w : Option α}
    (hbest : FirstBest key (fun a => test a = some true) seen best) (h : scanBest key test best l = some w) :
    Tested key test seen l := by
  induction l generalizing seen best with
  | nil => exact tested_nil seen
  | cons a l ih =>
    rw [scanBest] at h
    rw [tested_cons]
    by_cases hbeats : beats key best a = true
    · rw [if_pos hbeats] at h
      obtain ⟨passed, hpassed, hrun⟩ := Option.bind_eq_some_iff.mp h
      refine ⟨fun _ => Option.isSome_of_eq_some hpassed, ?_⟩
      cases passed with
      | true => exact ih (hbest.snoc_pass hbeats hpassed) hrun
      | false => exact ih (hbest.snoc_skip (Or.inr (by rw [hpassed]; simp))) hrun
    · rw [if_neg hbeats] at h
      refine ⟨fun hall => absurd ((hbest.beats_iff a).mpr hall) hbeats, ?_⟩
      exact ih (hbest.snoc_skip (Or.inl hbeats)) h

theorem scanBest_map {β : Type} (f : β → α) (best : Option β) (l : List β) :
    scanBest key test (best.map f) (l.map f) =
      (scanBest (fun b => key (f b)) (fun b => test (f b)) best l).map (Option.map f) := by
  induction l generalizing best with
  | nil => rfl
  | cons b l ih =>
    have hbeats : beats key (best.map f) (f b) = beats (fun b => key (f b)) best b := by cases best <;> rfl
    rw [List.map_cons, scanBest, scanBest, hbeats]
    by_cases h : beats (fun b => key (f b)) best b = true
    · rw [if_pos h, if_pos h]
      cases test (f b) with
      | none => rfl
      | some passed =>
        simp only [Option.bind_some]
        cases passed with
        | true => exact ih (some b)
        | false => exact ih best
    · rw [if_neg h, if_neg h]
      exact ih best

end

end Lib
