import Mathlib.Data.List.Basic
import Mathlib.Data.List.InsertIdx

/-!
# How often an element occurs in the parts of a list

Each element of a list contributes a list of its own, and an update of the list changes how
often a value occurs among the contributions by what the changed elements contribute.
-/

namespace Lib

section
variable {α β : Type} [DecidableEq β] (f : α → List β) (x : β)

theorem count_flatMap_append (l l' : List α) :
    ((l ++ l').flatMap f).count x = (l.flatMap f).count x + (l'.flatMap f).count x := by
  rw [List.flatMap_append, List.count_append]

theorem count_flatMap_cons (a : α) (l : List α) :
    ((a :: l).flatMap f).count x = (f a).count x + (l.flatMap f).count x := by
  rw [List.flatMap_cons, List.count_append]

theorem count_flatMap_modify {l : List α} {i : Nat} {a : α} (h : l[i]? = some a) (g : α → α) :
    ((l.modify i g).flatMap f).count x + (f a).count x = (l.flatMap f).count x + (f (g a)).count x := by
  induction l generalizing i with
  | nil => simp at h
  | cons b l ih =>
    cases i with
    | zero =>
      cases h
      rw [List.modify_zero_cons, count_flatMap_cons, count_flatMap_cons]
      omega
    | succ i =>
      have := ih (List.getElem?_cons_succ ▸ h)
      rw [List.modify_succ_cons, count_flatMap_cons, count_flatMap_cons]
      omega

theorem count_flatMap_eraseIdx {l : List α} {i : Nat} {a : α} (h : l[i]? = some a) :
    ((l.eraseIdx i).flatMap f).count x + (f a).count x = (l.flatMap f).count x := by
  induction l generalizing i with
  | nil => simp at h
  | cons b l ih =>
    cases i with
    | zero =>
      cases h
      rw [List.eraseIdx_zero, List.tail_cons, count_flatMap_cons]
      omega
    | succ i =>
      have := ih (List.getElem?_cons_succ ▸ h)
      rw [List.eraseIdx_cons_succ, count_flatMap_cons, count_flatMap_cons]
      omega

theorem count_flatMap_sublist {l l' : List α} (h : List.Sublist l l') :
    (l.flatMap f).count x ≤ (l'.flatMap f).count x := by
  induction h with
  | slnil => exact Nat.le_refl _
  | cons a _ ih => rw [count_flatMap_cons]; omega
  | cons_cons a _ ih => rw [count_flatMap_cons, count_flatMap_cons]; omega

theorem count_flatMap_mono {f g : α → List β} {l : List α} (h : ∀ a ∈ l, (f a).count x ≤ (g a).count x) :
    (l.flatMap f).count x ≤ (l.flatMap g).count x := by
  induction l with
  | nil => exact Nat.le_refl _
  | cons a l ih =>
    rw [count_flatMap_cons, count_flatMap_cons]
    exact Nat.add_le_add (h a List.mem_cons_self) (ih fun b hb => h b (List.mem_cons_of_mem _ hb))

theorem count_le_flatMap {l : List α} {a : α} (h : a ∈ l) : (f a).count x ≤ (l.flatMap f).count x := by
  obtain ⟨i, hi⟩ := List.getElem?_of_mem h
  have := count_flatMap_eraseIdx f x hi
  omega

/-- What is there once at most, and a list of other elements. -/
theorem add_count_le_one {n : β → Nat} {l : List β} (h : n x ≤ 1) (hnd : l.Nodup) (hnew : ∀ y ∈ l, n y = 0) :
    n x + l.count x ≤ 1 := by
  by_cases hx : x ∈ l
  · rw [hnew x hx, Nat.zero_add]
    exact List.nodup_iff_count.mp hnd x
  · rw [List.count_eq_zero.mpr hx]
    exact h

/-- Two elements at different places share no contribution that occurs once. -/
theorem flatMap_apart {l : List α} {i j : Nat} {a b : α} (hi : l[i]? = some a) (hj : l[j]? = some b)
    (hone : (l.flatMap f).count x ≤ 1) (ha : x ∈ f a) (hb : x ∈ f b) : i = j := by
  induction l generalizing i j with
  | nil => simp at hi
  | cons c l ih =>
    have hca := List.count_pos_iff.mpr ha
    have hcb := List.count_pos_iff.mpr hb
    rw [count_flatMap_cons] at hone
    cases i with
    | zero =>
      cases hi
      cases j with
      | zero => rfl
      | succ j =>
        have := count_le_flatMap f x (List.mem_of_getElem? (List.getElem?_cons_succ ▸ hj))
        omega
    | succ i =>
      cases j with
      | zero =>
        cases hj
        have := count_le_flatMap f x (List.mem_of_getElem? (List.getElem?_cons_succ ▸ hi))
        omega
      | succ j =>
        have hij := ih (List.getElem?_cons_succ ▸ hi) (List.getElem?_cons_succ ▸ hj) (by omega)
        rw [hij]

end

theorem map_modify_of_eq {α β : Type} {f : α → α} {g : α → β} (h : ∀ a, g (f a) = g a) (i : Nat) (l : List α) :
    (l.modify i f).map g = l.map g := by
  induction l generalizing i with
  | nil => simp
  | cons a l ih =>
    cases i with
    | zero => rw [List.modify_zero_cons, List.map_cons, List.map_cons, h]
    | succ i => rw [List.modify_succ_cons, List.map_cons, List.map_cons, ih]

/-- Two changes of one place that look the same. -/
theorem map_modify_congr {α β : Type} {f e : α → α} {g : α → β} {a : α} {l : List α} {i : Nat} (h : l[i]? = some a)
    (hg : g (f a) = g (e a)) : (l.modify i f).map g = (l.modify i e).map g := by
  induction l generalizing i with
  | nil => simp
  | cons b l ih =>
    cases i with
    | zero =>
      obtain rfl := Option.some.inj h
      rw [List.modify_zero_cons, List.modify_zero_cons, List.map_cons, List.map_cons, hg]
    | succ i => rw [List.modify_succ_cons, List.modify_succ_cons, List.map_cons, List.map_cons, ih h]

theorem eraseIdx_modify_self {α : Type} (f : α → α) (i : Nat) (l : List α) :
    (l.modify i f).eraseIdx i = l.eraseIdx i := by
  induction l generalizing i with
  | nil => simp
  | cons a l ih =>
    cases i with
    | zero => rfl
    | succ i => rw [List.modify_succ_cons, List.eraseIdx_cons_succ, List.eraseIdx_cons_succ, ih]

theorem modify_of_fixed {α : Type} {f : α → α} {a : α} {l : List α} {i : Nat} (h : l[i]? = some a) (hf : f a = a) :
    l.modify i f = l := by
  induction l generalizing i with
  | nil => simp
  | cons b l ih =>
    cases i with
    | zero =>
      cases h
      rw [List.modify_zero_cons, hf]
    | succ i => rw [List.modify_succ_cons, ih (List.getElem?_cons_succ ▸ h)]

theorem mem_map_eraseIdx {α β : Type} {f : α → β} {l : List α} {i : Nat} {a : α} (hnodup : (l.map f).Nodup)
    (ha : l[i]? = some a) (b : β) : b ∈ (l.eraseIdx i).map f ↔ b ∈ l.map f ∧ b ≠ f a := by
  have hi : (l.map f)[i]? = some (f a) := by rw [List.getElem?_map, ha, Option.map_some]
  have hlt : i < (l.map f).length := (List.getElem?_eq_some_iff.mp hi).1
  rw [← List.eraseIdx_map, List.mem_eraseIdx_iff_getElem?]
  constructor
  · rintro ⟨j, hj, hb⟩
    refine ⟨List.mem_of_getElem? hb, ?_⟩
    rintro rfl
    exact hj ((List.getElem?_inj (List.getElem?_eq_some_iff.mp hb).1 hnodup).mp (hb.trans hi.symm))
  · rintro ⟨hb, hne⟩
    obtain ⟨j, hj⟩ := List.getElem?_of_mem hb
    refine ⟨j, ?_, hj⟩
    rintro rfl
    rw [hi, Option.some.injEq] at hj
    exact hne hj.symm

theorem count_map_eraseIdx {α β : Type} [DecidableEq β] {f : α → β} {l : List α} {i : Nat} {a : α} (ha : l[i]? = some a)
    (b : β) : ((l.eraseIdx i).map f).count b + [f a].count b = (l.map f).count b := by
  rw [List.map_eq_flatMap, List.map_eq_flatMap]
  exact count_flatMap_eraseIdx (fun a => [f a]) b ha

/-- A fold keeps what each of its steps keeps. -/
theorem foldl_keeps {α β γ : Type} {f : β → α → β} (g : β → γ) (h : ∀ b a, g (f b a) = g b) (l : List α) (b : β) :
    g (l.foldl f b) = g b := by
  induction l generalizing b with
  | nil => rfl
  | cons a l ih => rw [List.foldl_cons, ih, h]

theorem modify_append_cons {α : Type} (f : α → α) (l r : List α) (a : α) :
    (l ++ a :: r).modify l.length f = l ++ f a :: r := by
  induction l with
  | nil => rfl
  | cons b l ih => rw [List.cons_append, List.length_cons, List.modify_succ_cons, ih, List.cons_append]

theorem findIdx?_append_cons {α : Type} {p : α → Bool} {l r : List α} {a : α} (hl : ∀ x ∈ l, p x = false)
    (ha : p a = true) : (l ++ a :: r).findIdx? p = some l.length := by
  induction l with
  | nil => rw [List.nil_append, List.findIdx?_cons, if_pos ha, List.length_nil]
  | cons x l ih =>
    rw [List.cons_append, List.findIdx?_cons, hl x (.head _), ih fun y hy => hl y (.tail _ hy)]
    rfl

theorem map_modify_comm {α β : Type} {f : α → α} {g : α → β} {k : β → β} (h : ∀ a, g (f a) = k (g a)) (i : Nat)
    (l : List α) : (l.modify i f).map g = (l.map g).modify i k := by
  induction l generalizing i with
  | nil => simp
  | cons a l ih =>
    cases i with
    | zero => rw [List.modify_zero_cons, List.map_cons, List.map_cons, List.modify_zero_cons, h]
    | succ i => rw [List.modify_succ_cons, List.map_cons, List.map_cons, List.modify_succ_cons, ih]

theorem countP_modify {α : Type} {p : α → Bool} {f : α → α} {a : α} {l : List α} {i : Nat} (h : l[i]? = some a) :
    (l.modify i f).countP p + (if p a then 1 else 0) = l.countP p + if p (f a) then 1 else 0 := by
  induction l generalizing i with
  | nil => simp at h
  | cons b l ih =>
    cases i with
    | zero =>
      cases h
      rw [List.modify_zero_cons, List.countP_cons, List.countP_cons]
      omega
    | succ i =>
      have := ih (List.getElem?_cons_succ ▸ h)
      rw [List.modify_succ_cons, List.countP_cons, List.countP_cons]
      omega

theorem countP_set_some {α : Type} {p : α → Bool} {a : α} {l : List α} {i : Nat} (h : l[i]? = some a) (b : α) :
    (l.set i b).countP p + (if p a then 1 else 0) = l.countP p + if p b then 1 else 0 := by
  have hset : l.set i b = l.modify i fun _ => b := by
    apply List.ext_getElem?
    intro j
    rw [List.getElem?_modify, List.getElem?_set]
    by_cases hij : i = j
    · subst hij
      have hlt : i < l.length := (List.getElem?_eq_some_iff.mp h).1
      simp [hlt]
    · simp [hij]
  rw [hset]
  exact countP_modify h

end Lib
