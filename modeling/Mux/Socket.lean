import Mux.Control

/-!
# Who owns the control socket

Any number of daemons run `server::bind` on one path: every pane and every query that finds
the socket unanswered starts one. The probe, the unlink, the bind and the listen are separate
steps, and a daemon can end at any of them, leaving its file behind.
-/

namespace Mux.Socket

open Lib Control

/-- Who made the socket file: a daemon that was gone from the start, or one of those here. -/
inductive Owner where
  | stale
  | daemon (i : Nat)
  deriving DecidableEq

structure State where
  path : Option Owner
  daemons : List Bind
  deriving DecidableEq

def start (stale : Bool) : State := ⟨if stale then some .stale else none, []⟩

namespace State

def answers (s : State) : Bool :=
  match s.path with
  | some (.daemon i) => s.daemons[i]?.any (·.accepts)
  | _ => false

def bindNext (s : State) (i : Nat) : Bind → Option (Option Owner × Bind)
  | .probing => some (s.path, if s.answers then .failed else .unlinking)
  | .unlinking => some (none, .binding)
  | .binding =>
    match s.path with
    | none => some (some (.daemon i), .listening)
    | some q => some (some q, .failed)
  | .listening => some (s.path, .permitting)
  | .permitting => some (s.path, if s.path.isSome then .serving else .failed)
  | .serving | .failed => none

end State

inductive Label where
  | start
  | bind (i : Nat)
  | exit (i : Nat)

def step (s : State) : Label → Option State
  | .start => some { s with daemons := s.daemons ++ [.probing] }
  | .bind i => s.daemons[i]?.bind fun b => (s.bindNext i b).map fun p => ⟨p.1, s.daemons.set i p.2⟩
  | .exit i => if i < s.daemons.length then some { s with daemons := s.daemons.set i .failed } else none

/-- The socket file at the path is of a daemon that runs. -/
def Live (s : State) (j : Nat) : Prop := s.path = some (.daemon j) ∧ ∃ b, s.daemons[j]? = some b ∧ b ≠ .failed

/-- Owning the control socket, for a run `as` that ends in `t`. -/
structure Exclusive (stale : Bool) (as : List Label) (t : State) : Prop where
  one : ∀ i j : Nat, t.daemons[i]? = some .serving → t.daemons[j]? = some .serving → i = j
  reachable : ∀ i : Nat, t.daemons[i]? = some .serving → t.path = some (.daemon i) ∧ t.answers = true
  unlinks : ∀ as₁ i as₂ m, as = as₁ ++ .bind i :: as₂ → exec step (start stale) as₁ = some m →
    m.daemons[i]? = some .unlinking → ∀ j, ¬ Live m j

/-- The file is of a daemon that does not listen on it yet. -/
def State.unheard (s : State) : Bool :=
  match s.path with
  | some (.daemon j) => decide (s.daemons[j]? = some .listening)
  | _ => false

/-- No daemon makes the socket file while another is between its unanswered probe and its
unlink, and none probes while the file is of a daemon that does not listen on it yet. -/
def Apart (s : State) : Label → Prop
  | .bind i => (s.daemons[i]? = some .probing → s.unheard = false) ∧
      (s.daemons[i]? = some .binding → s.path = none → .unlinking ∉ s.daemons)
  | _ => True

instance (s : State) : ∀ a, Decidable (Apart s a)
  | .bind _ => inferInstanceAs (Decidable (_ ∧ _))
  | .start | .exit _ => inferInstanceAs (Decidable True)

/-! ## A daemon that has bound keeps the path -/

def bound : Bind → Bool
  | .listening | .permitting | .serving => true
  | _ => false

structure Inv (s : State) : Prop where
  owns : ∀ (j : Nat) (b : Bind), s.daemons[j]? = some b → bound b = true → s.path = some (.daemon j)
  made : ∀ j, s.path = some (.daemon j) → ∃ b, s.daemons[j]? = some b ∧ (bound b = true ∨ b = .failed)
  /-- While a daemon is about to unlink, the file is nobody's. -/
  unlinking : ∀ (i j : Nat) (b : Bind), s.daemons[i]? = some .unlinking → s.path = some (.daemon j) →
    s.daemons[j]? = some b → b = .failed

theorem inv_start (stale : Bool) : Inv (start stale) := by
  refine ⟨by simp [start], ?_, by simp [start]⟩
  intro j h
  simp only [start] at h
  split at h <;> cases h

namespace Inv
variable {s : State} {i : Nat} {b b' : Bind}

/-- A step that leaves the path as it is: to end, or to go on with the file one has made. -/
theorem keep (h : Inv s) (hi : s.daemons[i]? = some b) (hb : bound b' = true → bound b = true)
    (hm : s.path = some (.daemon i) → bound b' = true ∨ b' = .failed) (hu : b' ≠ .unlinking) :
    Inv { s with daemons := s.daemons.set i b' } where
  owns := by
    intro j c hj hc
    rcases (getElem?_set_some_iff (lt_of_getElem?_some hi)).mp hj with ⟨rfl, rfl⟩ | ⟨-, hj⟩
    · exact h.owns j b hi (hb hc)
    · exact h.owns j c hj hc
  made := by
    intro j hp
    by_cases hji : j = i
    · subst hji
      exact ⟨b', getElem?_set_self_some hi, hm hp⟩
    · obtain ⟨c, hc, hcb⟩ := h.made j hp
      exact ⟨c, getElem?_set_other hji hc, hcb⟩
  unlinking := by
    intro k j c hk hp hj
    rcases (getElem?_set_some_iff (lt_of_getElem?_some hi)).mp hk with ⟨-, rfl⟩ | ⟨-, hk'⟩
    · exact absurd rfl hu
    rcases (getElem?_set_some_iff (lt_of_getElem?_some hi)).mp hj with ⟨rfl, rfl⟩ | ⟨-, hj⟩
    · -- The daemon that made the file has ended already, so it does not take a step with it.
      have := h.unlinking k j b hk' hp hi
      rcases hm hp with hb' | hb'
      · rw [this] at hb
        cases hb hb'
      · exact hb'
    · exact h.unlinking k j c hk' hp hj

theorem probe (h : Inv s) (hi : s.daemons[i]? = some .probing) (hu : s.unheard = false) (ha : s.answers = false) :
    Inv { s with daemons := s.daemons.set i .unlinking } where
  owns := by
    intro j c hj hc
    rcases (getElem?_set_some_iff (lt_of_getElem?_some hi)).mp hj with ⟨-, rfl⟩ | ⟨-, hj⟩
    · cases hc
    · exact h.owns j c hj hc
  made := by
    intro j hp
    obtain ⟨c, hc, hcb⟩ := h.made j hp
    refine ⟨c, getElem?_set_other ?_ hc, hcb⟩
    rintro rfl
    rw [hi] at hc
    cases hc
    simp [bound] at hcb
  unlinking := by
    intro k j c _ hp hj
    obtain ⟨d, hd, hdb⟩ := h.made j hp
    have hji : j ≠ i := by
      rintro rfl
      rw [hi] at hd
      cases hd
      simp [bound] at hdb
    rcases (getElem?_set_some_iff (lt_of_getElem?_some hi)).mp hj with ⟨heq, -⟩ | ⟨-, hj⟩
    · exact absurd heq hji
    rw [hd] at hj
    cases hj
    -- Nobody answered, so the file's daemon is neither accepting nor, by `Apart`, about to.
    have hp : s.path = some (.daemon j) := hp
    simp only [State.answers, State.unheard, hp, hd] at ha hu
    cases c <;> simp_all [bound, Bind.accepts]

theorem unlink (h : Inv s) (hi : s.daemons[i]? = some .unlinking) :
    Inv { path := none, daemons := s.daemons.set i .binding } where
  owns := by
    intro j c hj hc
    rcases (getElem?_set_some_iff (lt_of_getElem?_some hi)).mp hj with ⟨-, rfl⟩ | ⟨-, hj⟩
    · cases hc
    · have := h.unlinking i j c hi (h.owns j c hj hc) hj
      rw [this] at hc
      cases hc
  made := by intro j hp; cases hp
  unlinking := by intro k j c _ hp; cases hp

theorem bind (h : Inv s) (hi : s.daemons[i]? = some .binding) (hp : s.path = none) (hu : .unlinking ∉ s.daemons) :
    Inv { path := some (.daemon i), daemons := s.daemons.set i .listening } where
  owns := by
    intro j c hj hc
    rcases (getElem?_set_some_iff (lt_of_getElem?_some hi)).mp hj with ⟨rfl, -⟩ | ⟨-, hj⟩
    · rfl
    · have := h.owns j c hj hc
      rw [hp] at this
      cases this
  made := by
    intro j hj
    cases hj
    exact ⟨_, getElem?_set_self_some hi, .inl rfl⟩
  unlinking := by
    intro k j c hk _ _
    rcases (getElem?_set_some_iff (lt_of_getElem?_some hi)).mp hk with ⟨-, hk⟩ | ⟨-, hk⟩
    · cases hk
    · exact absurd (List.mem_of_getElem? hk) hu

theorem step {s' : State} {a : Label} (h : Inv s) (hG : Apart s a) (hs : step s a = some s') : Inv s' := by
  cases a with
  | start =>
    cases hs
    refine ⟨?_, ?_, ?_⟩
    · intro j b hj hb
      rcases getElem?_snoc_some_iff.mp hj with hj | ⟨-, rfl⟩
      · exact h.owns j b hj hb
      · cases hb
    · intro j hp
      obtain ⟨b, hj, hb⟩ := h.made j hp
      exact ⟨b, getElem?_snoc_some_iff.mpr (.inl hj), hb⟩
    · intro k j b hk hp hj
      obtain ⟨c, hc, -⟩ := h.made j hp
      have hbc : (s.daemons ++ [Bind.probing])[j]? = some c := getElem?_snoc_some_iff.mpr (.inl hc)
      rw [hj] at hbc
      cases hbc
      rcases getElem?_snoc_some_iff.mp hk with hk | ⟨-, hk⟩
      · exact h.unlinking k j b hk hp hc
      · cases hk
  | exit i =>
    simp only [Socket.step, Option.ite_none_right_eq_some] at hs
    obtain ⟨hlt, hs⟩ := hs
    cases hs
    obtain ⟨b, hb⟩ : ∃ b, s.daemons[i]? = some b := ⟨_, List.getElem?_eq_getElem hlt⟩
    exact h.keep hb (fun hc => by cases hc) (fun _ => .inr rfl) (by simp)
  | bind i =>
    obtain ⟨b, hb, hs⟩ := Option.bind_eq_some_iff.mp hs
    obtain ⟨⟨path, b'⟩, hn, rfl⟩ := Option.map_eq_some_iff.mp hs
    cases b with
    | probing =>
      cases hn
      by_cases ha : s.answers = true
      · simp only [ha, if_true]
        exact h.keep hb (fun hc => by cases hc) (fun _ => .inr rfl) (by simp)
      · rw [Bool.not_eq_true] at ha
        simp only [ha]
        exact h.probe hb (hG.1 hb) ha
    | unlinking => cases hn; exact h.unlink hb
    | binding =>
      cases hp : s.path with
      | none =>
        simp only [State.bindNext, hp] at hn
        cases hn
        exact h.bind hb hp (hG.2 hb hp)
      | some q =>
        simp only [State.bindNext, hp] at hn
        cases hn
        have hkeep : Inv { s with daemons := s.daemons.set i .failed } :=
          h.keep hb (fun hc => by cases hc) (fun _ => .inr rfl) (by simp)
        rwa [hp] at hkeep
    | listening =>
      cases hn
      exact h.keep hb (fun _ => rfl) (fun _ => .inl rfl) (by simp)
    | permitting =>
      have hp := h.owns i _ hb rfl
      simp only [State.bindNext, hp] at hn
      cases hn
      have hkeep : Inv { s with daemons := s.daemons.set i .serving } :=
        h.keep hb (fun _ => rfl) (fun _ => .inl rfl) (by simp)
      rwa [hp] at hkeep
    | serving => cases hn
    | failed => cases hn

end Inv

theorem inv_run {stale : Bool} {as : List Label} {t : State} (hm : Meets step Apart (start stale) as)
    (h : exec step (start stale) as = some t) : Inv t :=
  exec_inv_of_meets (fun _ _ _ hG hs hi => hi.step hG hs) hm h (inv_start stale)

/-- As long as the bind sections of the daemons stay apart, the one that has bound owns the
socket until it ends. -/
theorem control_socket_exclusive {stale : Bool} {as : List Label} {t : State}
    (hm : Meets step Apart (start stale) as) (h : exec step (start stale) as = some t) : Exclusive stale as t where
  one := by
    intro i j hi hj
    have h1 := (inv_run hm h).owns i _ hi rfl
    rw [(inv_run hm h).owns j _ hj rfl] at h1
    cases h1
    rfl
  reachable := by
    intro i hi
    have hp := (inv_run hm h).owns i _ hi rfl
    exact ⟨hp, by simp [State.answers, hp, hi, Bind.accepts]⟩
  unlinks := by
    rintro as₁ i as₂ m rfl hrun hi j ⟨hp, b, hb, hne⟩
    exact hne ((inv_run (meets_append.mp hm).1 hrun).unlinking i j b hi hp hb)

theorem bind_step {s : State} {i : Nat} {b b' : Bind} {p : Option Owner} (hi : s.daemons[i]? = some b)
    (hn : s.bindNext i b = some (p, b')) : step s (.bind i) = some ⟨p, s.daemons.set i b'⟩ := by
  simp only [step, hi, Option.bind_some, hn, Option.map_some]

/-- A daemon `j` that has made the file goes on to serve, and `k`, which found the socket
unanswered before that, then unlinks it. -/
theorem stolen_of_unlinking {s : State} {j k : Nat} (hj : s.daemons[j]? = some .listening)
    (hk : s.daemons[k]? = some .unlinking) (hp : s.path = some (.daemon j)) :
    ∃ t, exec step s [.bind j, .bind j, .bind k] = some t ∧ t.daemons[j]? = some .serving ∧ t.path = none := by
  have hjk : j ≠ k := by
    rintro rfl
    rw [hj] at hk
    cases hk
  have hlt := lt_of_getElem?_some hj
  have h1 : step s (.bind j) = some ⟨s.path, s.daemons.set j .permitting⟩ := bind_step hj rfl
  have h2 : step ⟨s.path, s.daemons.set j .permitting⟩ (.bind j) =
      some ⟨s.path, (s.daemons.set j .permitting).set j .serving⟩ :=
    bind_step (b := .permitting) (by simp [hlt]) (by simp [State.bindNext, hp])
  have h3 : step ⟨s.path, (s.daemons.set j .permitting).set j .serving⟩ (.bind k) =
      some ⟨none, ((s.daemons.set j .permitting).set j .serving).set k .binding⟩ :=
    bind_step (b := .unlinking) (by simp [List.getElem?_set_ne hjk, hk]) rfl
  refine ⟨_, exec_cons_some.mpr ⟨_, h1, exec_cons_some.mpr ⟨_, h2, exec_cons_some.mpr ⟨_, h3, rfl⟩⟩⟩, ?_, rfl⟩
  rw [List.getElem?_set_ne (Ne.symm hjk)]
  simp [hlt]

/-- Where the bind sections of two daemons meet, one that comes to serve can be cut off. -/
theorem stolen_of_not_apart {s s' : State} {i : Nat} (hG : ¬ Apart s (.bind i)) (hs : step s (.bind i) = some s') :
    ∃ as t, ∃ j : Nat, exec step s' as = some t ∧ t.daemons[j]? = some .serving ∧ t.path = none := by
  simp only [Apart, not_and_or, Classical.not_imp, Bool.not_eq_false, not_not] at hG
  rcases hG with ⟨hi, hu⟩ | ⟨hi, hp, hu⟩
  · -- `i` probes while the file is of `j`, which does not listen yet.
    unfold State.unheard at hu
    split at hu
    · rename_i j hp
      have hj := of_decide_eq_true hu
      have hij : j ≠ i := by
        rintro rfl
        rw [hi] at hj
        cases hj
      have hans : s.answers = false := by simp [State.answers, hp, hj, Bind.accepts]
      have hstep : step s (.bind i) = some ⟨s.path, s.daemons.set i .unlinking⟩ :=
        bind_step hi (by simp [State.bindNext, hans])
      rw [hs] at hstep
      cases hstep
      obtain ⟨t, ht⟩ := stolen_of_unlinking (s := ⟨s.path, s.daemons.set i .unlinking⟩) (j := j) (k := i)
        (by simp [List.getElem?_set_ne (Ne.symm hij), hj]) (by simp [lt_of_getElem?_some hi]) hp
      exact ⟨_, t, j, ht⟩
    · cases hu
  · -- `i` makes the file while `k` is about to unlink what it finds.
    obtain ⟨k, hk⟩ := List.getElem?_of_mem hu
    have hik : k ≠ i := by
      rintro rfl
      rw [hi] at hk
      cases hk
    have hstep : step s (.bind i) = some ⟨some (.daemon i), s.daemons.set i .listening⟩ :=
      bind_step hi (by simp [State.bindNext, hp])
    rw [hs] at hstep
    cases hstep
    obtain ⟨t, ht⟩ := stolen_of_unlinking (s := ⟨some (.daemon i), s.daemons.set i .listening⟩) (j := i) (k := k)
      (by simp [lt_of_getElem?_some hi]) (by simp [List.getElem?_set_ne (Ne.symm hik), hk]) rfl
    exact ⟨_, t, i, ht⟩

/-- One daemon binds over a stale file and serves; the next one finds it and exits; after the
first has ended, a third takes its place. -/
def oneAfterAnother : List Label :=
  [.start, .start, .bind 0, .bind 0, .bind 0, .bind 0, .bind 0, .bind 1, .exit 0, .start, .bind 2, .bind 2, .bind 2, .bind 2,
    .bind 2]

theorem control_socket_exclusive_turns :
    ∃ t, exec step (start true) oneAfterAnother = some t ∧ t.daemons = [.failed, .failed, .serving] ∧
      Exclusive true oneAfterAnother t :=
  ⟨_, rfl, rfl, control_socket_exclusive (by decide) rfl⟩

/-- Two daemons find the socket unanswered; the second unlinks the file of the first, which
serves already. -/
theorem control_socket_stolen :
    ¬ ∀ (stale : Bool) (as : List Label) (t : State), exec step (start stale) as = some t → Exclusive stale as t := by
  intro h
  have := (h false [.start, .start, .bind 0, .bind 1, .bind 0, .bind 0, .bind 0, .bind 0, .bind 1, .bind 1, .bind 1, .bind 1]
    _ rfl).one 0 1 rfl rfl
  cases this

end Mux.Socket
