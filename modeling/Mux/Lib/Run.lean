/-!
# Runs of a labelled transition function

A system is a partial function `step` from a state and a label to the next state;
everything the environment decides is in the label. `exec` follows a list of labels.
An invariant is proved once per step and holds along every run; `Meets` restricts a
run to steps that satisfy a condition in the state they are taken from.
-/

namespace Lib

attribute [grind =] Option.map_eq_some_iff Option.bind_eq_some_iff

section
variable {σ α : Type} (step : σ → α → Option σ)

def exec : σ → List α → Option σ
  | s, [] => some s
  | s, a :: as => (step s a).bind fun s' => exec s' as

def Meets (G : σ → α → Prop) : σ → List α → Prop
  | _, [] => True
  | s, a :: as => G s a ∧ ∀ s', step s a = some s' → Meets G s' as

instance decidableMeets (G : σ → α → Prop) [∀ s a, Decidable (G s a)] :
    ∀ s as, Decidable (Meets step G s as)
  | _, [] => isTrue trivial
  | s, a :: as =>
    match h : step s a with
    | none => decidable_of_iff (G s a) ⟨fun hG => ⟨hG, fun _ hs => by rw [h] at hs; cases hs⟩, And.left⟩
    | some s' =>
      have := decidableMeets G s' as
      decidable_of_iff (G s a ∧ Meets step G s' as)
        ⟨fun ⟨hG, hm⟩ => ⟨hG, fun _ hs => Option.some.inj (h.symm.trans hs) ▸ hm⟩, fun ⟨hG, hm⟩ => ⟨hG, hm s' h⟩⟩

variable {step}

@[simp] theorem exec_nil (s : σ) : exec step s [] = some s := rfl

theorem exec_cons_some {s t : σ} {a : α} {as : List α} :
    exec step s (a :: as) = some t ↔ ∃ s', step s a = some s' ∧ exec step s' as = some t := by
  simp only [exec, Option.bind_eq_some_iff]

theorem exec_append_some {s t : σ} {as bs : List α} :
    exec step s (as ++ bs) = some t ↔ ∃ m, exec step s as = some m ∧ exec step m bs = some t := by
  induction as generalizing s with
  | nil => simp
  | cons a as ih =>
    rw [List.cons_append, exec_cons_some]
    constructor
    · rintro ⟨s', ha, h⟩
      obtain ⟨m, h1, h2⟩ := ih.mp h
      exact ⟨m, exec_cons_some.mpr ⟨s', ha, h1⟩, h2⟩
    · rintro ⟨m, h1, h2⟩
      obtain ⟨s', ha, h1⟩ := exec_cons_some.mp h1
      exact ⟨s', ha, ih.mpr ⟨m, h1, h2⟩⟩

/-- What holds at the start and is kept by every step that meets `G` holds at
the end of every run whose steps meet `G`. -/
theorem exec_inv_of_meets {G : σ → α → Prop} {I : σ → Prop}
    (hstep : ∀ s a s', G s a → step s a = some s' → I s → I s') :
    ∀ {as : List α} {s t : σ}, Meets step G s as → exec step s as = some t → I s → I t
  | [], s, t, _, h, hs => by cases h; exact hs
  | a :: as, s, t, hm, h, hs => by
    obtain ⟨s', ha, h⟩ := exec_cons_some.mp h
    exact exec_inv_of_meets hstep (hm.2 s' ha) h (hstep s a s' hm.1 ha hs)

theorem meets_of_mem {G : σ → α → Prop} :
    ∀ {as : List α} {s : σ}, (∀ a ∈ as, ∀ s, G s a) → Meets step G s as
  | [], _, _ => trivial
  | a :: as, s, h =>
    ⟨h a (by simp) s, fun _ _ => meets_of_mem fun b hb => h b (List.mem_cons_of_mem _ hb)⟩

theorem Meets.and {G H : σ → α → Prop} : ∀ {as : List α} {s : σ}, Meets step G s as → Meets step H s as →
    Meets step (fun s a => G s a ∧ H s a) s as
  | [], _, _, _ => trivial
  | _ :: _, _, hG, hH => ⟨⟨hG.1, hH.1⟩, fun s' hs => (hG.2 s' hs).and (hH.2 s' hs)⟩

theorem exec_inv {I : σ → Prop} (hstep : ∀ s a s', step s a = some s' → I s → I s')
    {as : List α} {s t : σ} (h : exec step s as = some t) (hs : I s) : I t :=
  exec_inv_of_meets (G := fun _ _ => True) (fun s a s' _ => hstep s a s')
    (meets_of_mem fun _ _ _ => trivial) h hs

/-- An invariant that speaks of the labels so far. -/
theorem exec_history {I : List α → σ → Prop}
    (hstep : ∀ done s a s', step s a = some s' → I done s → I (done ++ [a]) s') :
    ∀ {as done : List α} {s t : σ}, exec step s as = some t → I done s → I (done ++ as) t
  | [], done, s, t, h, hs => by
    cases h
    rwa [List.append_nil]
  | a :: as, done, s, t, h, hs => by
    obtain ⟨s', ha, h⟩ := exec_cons_some.mp h
    have := exec_history hstep h (hstep done s a s' ha hs)
    rwa [List.append_assoc, List.singleton_append] at this

theorem meets_append {G : σ → α → Prop} {as bs : List α} {s : σ} :
    Meets step G s (as ++ bs) ↔
      Meets step G s as ∧ ∀ m, exec step s as = some m → Meets step G m bs := by
  induction as generalizing s with
  | nil => simp [Meets]
  | cons a as ih =>
    simp only [List.cons_append, Meets, ih, exec_cons_some]
    constructor
    · rintro ⟨hG, h⟩
      exact ⟨⟨hG, fun s' hs' => (h s' hs').1⟩, fun m ⟨s', hs', hm⟩ => (h s' hs').2 m hm⟩
    · rintro ⟨⟨hG, h1⟩, h2⟩
      exact ⟨hG, fun s' hs' => ⟨h1 s' hs', fun m hm => h2 m ⟨s', hs', hm⟩⟩⟩

/-- A run meets `G` exactly if `G` holds wherever a step of it is taken. -/
theorem meets_iff_splits {G : σ → α → Prop} : ∀ {as : List α} {s t : σ}, exec step s as = some t →
    (Meets step G s as ↔ ∀ as₁ a as₂ m, as = as₁ ++ a :: as₂ → exec step s as₁ = some m → G m a)
  | [], _, _, _ => ⟨fun _ as₁ _ _ _ heq => absurd heq.symm (by simp), fun _ => trivial⟩
  | b :: as, s, t, h => by
    obtain ⟨s', hs, h⟩ := exec_cons_some.mp h
    constructor
    · intro hm as₁ a as₂ m heq hrun
      cases as₁ with
      | nil =>
        cases heq
        cases hrun
        exact hm.1
      | cons c as₁ =>
        cases heq
        obtain ⟨s'', hs', hrun⟩ := exec_cons_some.mp hrun
        rw [hs] at hs'
        cases hs'
        exact (meets_iff_splits h).mp (hm.2 s' hs) as₁ a as₂ m rfl hrun
    · intro hall
      refine ⟨hall [] b as s rfl rfl, fun s'' hs'' => ?_⟩
      rw [hs] at hs''
      cases hs''
      refine (meets_iff_splits h).mpr fun as₁ a as₂ m heq hrun => ?_
      exact hall (b :: as₁) a as₂ m (by rw [heq]; rfl) (exec_cons_some.mpr ⟨s', hs, hrun⟩)

/-- What does not hold at the start of a run and holds at its end begins to hold at some step. -/
theorem exec_enters {Q : σ → Prop} :
    ∀ {as : List α} {s t : σ}, exec step s as = some t → ¬ Q s → Q t →
      ∃ as₁ a as₂ m m', as = as₁ ++ a :: as₂ ∧ exec step s as₁ = some m ∧ ¬ Q m ∧ step m a = some m' ∧ Q m' ∧
        exec step m' as₂ = some t
  | [], s, t, h, hs, ht => by cases h; exact absurd ht hs
  | a :: as, s, t, h, hs, ht => by
    obtain ⟨s', ha, h⟩ := exec_cons_some.mp h
    by_cases hq : Q s'
    · exact ⟨[], a, as, s, s', rfl, rfl, hs, ha, hq, h⟩
    · obtain ⟨as₁, b, as₂, m, m', rfl, h1, hm, hb, hm', h2⟩ := exec_enters h hq ht
      exact ⟨a :: as₁, b, as₂, m, m', rfl, exec_cons_some.mpr ⟨s', ha, h1⟩, hm, hb, hm', h2⟩

end

/-! ## Processes by index -/

section
variable {α : Type}

theorem getElem?_set_some_iff {l : List α} {k j : Nat} {x y : α} (hk : k < l.length) :
    (l.set k x)[j]? = some y ↔ j = k ∧ x = y ∨ j ≠ k ∧ l[j]? = some y := by
  by_cases hj : j = k
  · subst hj; simp [hk]
  · simp [hj, List.getElem?_set_ne (Ne.symm hj)]

theorem getElem?_snoc_some_iff {l : List α} {j : Nat} {x y : α} :
    (l ++ [x])[j]? = some y ↔ l[j]? = some y ∨ j = l.length ∧ x = y := by
  rcases Nat.lt_trichotomy j l.length with hj | hj | hj
  · rw [List.getElem?_append_left hj]
    simp [Nat.ne_of_lt hj]
  · subst hj; simp
  · rw [List.getElem?_append_right (Nat.le_of_lt hj), List.getElem?_eq_none (by simp; omega),
      List.getElem?_eq_none (Nat.le_of_lt hj)]
    simp [Nat.ne_of_gt hj]

theorem lt_of_getElem?_some {l : List α} {k : Nat} {x : α} (h : l[k]? = some x) : k < l.length :=
  (List.getElem?_eq_some_iff.mp h).1

theorem getElem?_set_self_some {l : List α} {k : Nat} {x y : α} (h : l[k]? = some y) : (l.set k x)[k]? = some x :=
  (getElem?_set_some_iff (lt_of_getElem?_some h)).mpr (.inl ⟨rfl, rfl⟩)

theorem getElem?_set_other {l : List α} {k j : Nat} {x y : α} (hj : j ≠ k) (h : l[j]? = some y) : (l.set k x)[j]? = some y := by
  rw [List.getElem?_set_ne (Ne.symm hj)]
  exact h

theorem getElem?_modify_some_iff {l : List α} {f : α → α} {k j : Nat} {y : α} :
    (l.modify k f)[j]? = some y ↔ ∃ x, l[j]? = some x ∧ y = if k = j then f x else x := by
  rw [List.getElem?_modify]
  cases l[j]? with
  | none => simp
  | some x => by_cases hk : k = j <;> simp [hk, eq_comm]

theorem find?_filter_of_some {p q : α → Bool} {x : α} : ∀ {l : List α}, l.find? p = some x → q x = true →
    (l.filter q).find? p = some x
  | a :: l, h, hq => by
    by_cases ha : p a = true
    · rw [List.find?_cons_of_pos ha] at h
      obtain rfl := Option.some.inj h
      rw [List.filter_cons_of_pos hq, List.find?_cons_of_pos ha]
    · rw [List.find?_cons_of_neg ha] at h
      by_cases hqa : q a = true
      · rw [List.filter_cons_of_pos hqa, List.find?_cons_of_neg ha]
        exact find?_filter_of_some h hq
      · rw [List.filter_cons_of_neg hqa]
        exact find?_filter_of_some h hq

theorem countP_eraseIdx {p : α → Bool} {x : α} : ∀ {l : List α} {i : Nat}, l[i]? = some x →
    (l.eraseIdx i).countP p + (if p x then 1 else 0) = l.countP p
  | a :: l, 0, h => by
    obtain rfl := Option.some.inj h
    rw [List.eraseIdx_cons_zero, List.countP_cons]
  | a :: l, i + 1, h => by
    have ih := countP_eraseIdx (p := p) (l := l) (i := i) h
    rw [List.eraseIdx_cons_succ, List.countP_cons, List.countP_cons]
    omega

end

end Lib
