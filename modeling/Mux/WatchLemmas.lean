import Mux.Watch

/-!
# What a step of the manager does

A task moves alone: a step of it rewrites the task, its session and at most the end of the
broadcast. `Change` lists these moves; the steps of the watch leave the manager as it is.
-/

namespace Mux.Watch

open Lib

/-! ## What a step does -/

theorem task_some {s : State} {i : Nat} {t : Task} {x : Session} (h : s.task i = some (t, x)) :
    s.tasks[i]? = some t ∧ s.sessions[t.session]? = some x := by
  simp only [State.task, bind, Option.bind_eq_some_iff, pure, Option.some.injEq, Prod.mk.injEq] at h
  obtain ⟨t', ht, x', hx, rfl, rfl⟩ := h
  exact ⟨ht, hx⟩

theorem open_some {s s' : State} {name : String} (h : s.open name = some s') :
    s.tableLocked = false ∧ s.get name = none ∧ s' = { s with sessions := s.sessions ++ [freshSession name] } := by
  unfold State.open at h
  split at h
  · cases h
  · rename_i hn
    simp only [Bool.or_eq_true, not_or, Bool.not_eq_true, Option.isSome_eq_false_iff, Option.isNone_iff_eq_none] at hn
    exact ⟨hn.1, hn.2, (Option.some.inj h).symm⟩

theorem scheduleAgent_some {s s' : State} {k : Nat} (h : s.scheduleAgent k = some s') : s' = s ∨
    ∃ x, s.sessions[k]? = some x ∧ x.reaping = false ∧
      s' = (s.setSession k { x with agentPending := true }).spawn ⟨k, .evaluation, .settle⟩ := by
  simp only [State.scheduleAgent, bind, Option.bind_eq_some_iff] at h
  obtain ⟨x, hx, h⟩ := h
  split at h
  · cases h
  · rename_i hr
    split at h
    · exact .inl (Option.some.inj h).symm
    · exact .inr ⟨x, hx, by simpa using hr, (Option.some.inj h).symm⟩

theorem kill_some {s s' : State} {name : String} (h : s.kill name = some s') : s.tableLocked = false ∧
    ∃ k x, s.get name = some k ∧ s.sessions[k]? = some x ∧
      s' = (s.setSession k { x with listed := false }).spawn ⟨k, .kill, .mark⟩ := by
  unfold State.kill at h
  split at h
  · cases h
  · rename_i hl
    simp only [bind, Option.bind_eq_some_iff] at h
    obtain ⟨k, hk, x, hx, h⟩ := h
    exact ⟨by simpa using hl, k, x, hk, hx, (Option.some.inj h).symm⟩

theorem reap_some {s s' : State} {k : Nat} (h : s.reap k = some s') : ∃ x, s.sessions[k]? = some x ∧
    s' = (s.setSession k { x with reaping := true }).spawn ⟨k, .reap, .mark⟩ := by
  simp only [State.reap, bind, Option.bind_eq_some_iff] at h
  obtain ⟨x, hx, h⟩ := h
  split at h
  · cases h
  · exact ⟨x, hx, (Option.some.inj h).symm⟩

theorem check_some {s s' : State} {i : Nat} (h : s.check i = some s') :
    ∃ t x, s.task i = some (t, x) ∧ t.phase = .settle ∧
    s' = (s.setSession t.session { x with agentPending := false }).setTask i
      { t with phase := if x.exited then .done else .refresh } := by
  simp only [State.check, bind, Option.bind_eq_some_iff] at h
  obtain ⟨⟨t, x⟩, ht, h⟩ := h
  split at h
  · exact ⟨t, x, ht, by assumption, (Option.some.inj h).symm⟩
  · cases h

theorem refresh_some {s s' : State} {i : Nat} {a : Option AgentInfo} (h : s.refresh i a = some s') :
    ∃ t x, s.task i = some (t, x) ∧ t.phase = .refresh ∧
      s' = (s.setSession t.session { x with agent := a }).setTask i { t with phase := .emit } := by
  simp only [State.refresh, bind, Option.bind_eq_some_iff] at h
  obtain ⟨⟨t, x⟩, ht, h⟩ := h
  split at h
  · exact ⟨t, x, ht, by assumption, (Option.some.inj h).symm⟩
  · cases h

theorem mark_some {s s' : State} {i : Nat} (h : s.mark i = some s') :
    ∃ t x, s.task i = some (t, x) ∧ t.phase = .mark ∧
    s' = (s.setSession t.session { x with exited := true }).setTask i { t with phase := .clear } := by
  simp only [State.mark, bind, Option.bind_eq_some_iff] at h
  obtain ⟨⟨t, x⟩, ht, h⟩ := h
  split at h
  · exact ⟨t, x, ht, by assumption, (Option.some.inj h).symm⟩
  · cases h

theorem clear_some {s s' : State} {i : Nat} (h : s.clear i = some s') :
    ∃ t x, s.task i = some (t, x) ∧ t.phase = .clear ∧
    s' = (s.setSession t.session { x with agent := none }).setTask i
      { t with phase := if t.kind = .reap then .remove else .emit } := by
  simp only [State.clear, bind, Option.bind_eq_some_iff] at h
  obtain ⟨⟨t, x⟩, ht, h⟩ := h
  split at h
  · exact ⟨t, x, ht, by assumption, (Option.some.inj h).symm⟩
  · cases h

theorem remove_some {s s' : State} {i : Nat} (h : s.remove i = some s') :
    ∃ t x, s.task i = some (t, x) ∧ t.phase = .remove ∧ s.tableLocked = false ∧
      s' = (s.setSession t.session { x with listed := false }).setTask i { t with phase := .emit } := by
  simp only [State.remove, bind, Option.bind_eq_some_iff] at h
  obtain ⟨⟨t, x⟩, ht, h⟩ := h
  split at h
  · rename_i hp
    exact ⟨t, x, ht, hp.1, hp.2, (Option.some.inj h).symm⟩
  · cases h

theorem lock_some {s s' : State} {i : Nat} (h : s.lock i = some s') :
    ∃ t x, s.task i = some (t, x) ∧ t.phase = .emit ∧ s.emitting t.session = false ∧
      s' = s.setTask i { t with phase := .send x.agent } := by
  simp only [State.lock, bind, Option.bind_eq_some_iff] at h
  obtain ⟨⟨t, x⟩, ht, h⟩ := h
  split at h
  · rename_i hp
    exact ⟨t, x, ht, hp.1, hp.2, (Option.some.inj h).symm⟩
  · cases h

theorem send_some {s s' : State} {i : Nat} {cwd : Option String} (h : s.send i cwd = some s') :
    ∃ t x a, s.task i = some (t, x) ∧ t.phase = .send a ∧
      ((x.lastEvent = some (x.event a cwd) ∧ s' = s.setTask i { t with phase := .done }) ∨
        (x.lastEvent ≠ some (x.event a cwd) ∧
          s' = { (s.setTask i { t with phase := .done }).setSession t.session { x with lastEvent := some (x.event a cwd) } with
            log := s.log ++ [⟨t.session, x.event a cwd⟩] })) := by
  simp only [State.send, bind, Option.bind_eq_some_iff] at h
  obtain ⟨⟨t, x⟩, ht, h⟩ := h
  dsimp only at h
  split at h
  · rename_i a ha
    split at h
    · exact ⟨t, x, a, ht, ha, .inl ⟨by assumption, (Option.some.inj h).symm⟩⟩
    · exact ⟨t, x, a, ht, ha, .inr ⟨by assumption, (Option.some.inj h).symm⟩⟩
  · cases h

/-- A move of task `i`, with the event it broadcasts. -/
inductive Change (i : Nat) : Label → Task → Session → Task → Session → Option PtyEvent → Prop
  | check {t x} (h : t.phase = .settle) :
      Change i (.check i) t x { t with phase := if x.exited then .done else .refresh } { x with agentPending := false } none
  | refresh {t x} (a : Option AgentInfo) (h : t.phase = .refresh) :
      Change i (.refresh i a) t x { t with phase := .emit } { x with agent := a } none
  | mark {t x} (h : t.phase = .mark) : Change i (.mark i) t x { t with phase := .clear } { x with exited := true } none
  | clear {t x} (h : t.phase = .clear) :
      Change i (.clear i) t x { t with phase := if t.kind = .reap then .remove else .emit } { x with agent := none } none
  | remove {t x} (h : t.phase = .remove) : Change i (.remove i) t x { t with phase := .emit } { x with listed := false } none
  | lock {t x} (h : t.phase = .emit) : Change i (.lock i) t x { t with phase := .send x.agent } x none
  | same {t x} (a : Option AgentInfo) (cwd : Option String) (h : t.phase = .send a) (he : x.lastEvent = some (x.event a cwd)) :
      Change i (.send i cwd) t x { t with phase := .done } x none
  | send {t x} (a : Option AgentInfo) (cwd : Option String) (h : t.phase = .send a)
      (he : x.lastEvent ≠ some (x.event a cwd)) :
      Change i (.send i cwd) t x { t with phase := .done } { x with lastEvent := some (x.event a cwd) } (some (x.event a cwd))

inductive Start (k : Nat) : Label → Session → Session → Task → Prop
  | schedule {x} (h : x.reaping = false) :
      Start k (.scheduleAgent k) x { x with agentPending := true } ⟨k, .evaluation, .settle⟩
  | kill {x} (name : String) : Start k (.kill name) x { x with listed := false } ⟨k, .kill, .mark⟩
  | reap {x} : Start k (.reap k) x { x with reaping := true } ⟨k, .reap, .mark⟩

inductive Moves (s : State) (a : Label) (s' : State) : Prop
  | quiet (h1 : s'.sessions = s.sessions) (h2 : s'.tasks = s.tasks) (h3 : s'.log = s.log)
  | opened (name : String) (hl : s.tableLocked = false) (hn : s.get name = none)
      (h : s' = { s with sessions := s.sessions ++ [freshSession name] })
  | started (k : Nat) (x x' : Session) (t : Task) (hx : s.sessions[k]? = some x) (hc : Start k a x x' t)
      (hl : x'.listed = x.listed ∨ s.tableLocked = false) (h : s' = (s.setSession k x').spawn t)
  | moved (i : Nat) (t t' : Task) (x x' : Session) (e : Option PtyEvent) (ht : s.task i = some (t, x))
      (hc : Change i a t x t' x' e) (hl : x'.listed = x.listed ∨ s.tableLocked = false)
      (h : s' = { (s.setSession t.session x').setTask i t' with log := s.log ++ (e.map fun e => ⟨t.session, e⟩).toList })

theorem setSession_self {s : State} {k : Nat} {x : Session} (h : s.sessions[k]? = some x) : s.setSession k x = s := by
  obtain ⟨hk, hx⟩ := List.getElem?_eq_some_iff.mp h
  rw [State.setSession, ← hx, List.set_getElem_self]

theorem moves {s s' : State} {a : Label} (h : step s a = some s') : Moves s a s' := by
  cases a with
  | «open» name =>
    obtain ⟨hl, hn, h⟩ := open_some h
    exact .opened name hl hn h
  | scheduleAgent k =>
    obtain rfl | ⟨x, hx, hr, rfl⟩ := scheduleAgent_some h
    · exact .quiet rfl rfl rfl
    · exact .started k x _ _ hx (.schedule hr) (.inl rfl) rfl
  | kill name =>
    obtain ⟨hl, k, x, -, hx, rfl⟩ := kill_some h
    exact .started k x _ _ hx (.kill name) (.inr hl) rfl
  | reap k =>
    obtain ⟨x, hx, rfl⟩ := reap_some h
    exact .started k x _ _ hx .reap (.inl rfl) rfl
  | check i =>
    obtain ⟨t, x, ht, hp, rfl⟩ := check_some h
    exact .moved i t _ x _ none ht (.check hp) (.inl rfl) (by simp [State.setTask, State.setSession])
  | refresh i a =>
    obtain ⟨t, x, ht, hp, rfl⟩ := refresh_some h
    exact .moved i t _ x _ none ht (.refresh a hp) (.inl rfl) (by simp [State.setTask, State.setSession])
  | mark i =>
    obtain ⟨t, x, ht, hp, rfl⟩ := mark_some h
    exact .moved i t _ x _ none ht (.mark hp) (.inl rfl) (by simp [State.setTask, State.setSession])
  | clear i =>
    obtain ⟨t, x, ht, hp, rfl⟩ := clear_some h
    exact .moved i t _ x _ none ht (.clear hp) (.inl rfl) (by simp [State.setTask, State.setSession])
  | remove i =>
    obtain ⟨t, x, ht, hp, hl, rfl⟩ := remove_some h
    exact .moved i t _ x _ none ht (.remove hp) (.inr hl) (by simp [State.setTask, State.setSession])
  | lock i =>
    obtain ⟨t, x, ht, hp, -, rfl⟩ := lock_some h
    refine .moved i t _ x x none ht (.lock hp) (.inl rfl) ?_
    rw [setSession_self (task_some ht).2]
    simp [State.setTask]
  | send i cwd =>
    obtain ⟨t, x, a, ht, hp, ⟨he, rfl⟩ | ⟨he, rfl⟩⟩ := send_some h
    · refine .moved i t _ x x none ht (.same a cwd hp he) (.inl rfl) ?_
      rw [setSession_self (task_some ht).2]
      simp [State.setTask]
    · exact .moved i t _ x _ _ ht (.send a cwd hp he) (.inl rfl) (by simp [State.setTask, State.setSession])
  | subscribe =>
    simp only [step, State.subscribe] at h
    split at h <;> cases h
    exact .quiet rfl rfl rfl
  | readTable order =>
    simp only [step, State.readTable] at h
    split at h <;> cases h
    exact .quiet rfl rfl rfl
  | readAgent =>
    simp only [step, State.readAgent] at h
    split at h
    · obtain ⟨x, -, h⟩ := Option.bind_eq_some_iff.mp h
      cases h
      exact .quiet rfl rfl rfl
    · cases h
  | readEvent cwd =>
    simp only [step, State.readEvent] at h
    split at h
    · obtain ⟨x, -, h⟩ := Option.bind_eq_some_iff.mp h
      cases h
      exact .quiet rfl rfl rfl
    · cases h
  | unlockTable =>
    simp only [step, State.unlockTable] at h
    split at h <;> cases h
    exact .quiet rfl rfl rfl
  | write =>
    simp only [step, State.write] at h
    split at h <;> cases h
    exact .quiet rfl rfl rfl
  | recv =>
    simp only [step, State.recv] at h
    split at h
    · split at h
      · cases h
        exact .quiet rfl rfl rfl
      · obtain ⟨b, -, h⟩ := Option.bind_eq_some_iff.mp h
        cases h
        exact .quiet rfl rfl rfl
    · cases h

theorem Change.session_eq {i : Nat} {a : Label} {t t' : Task} {x x' : Session} {e : Option PtyEvent}
    (h : Change i a t x t' x' e) : t'.session = t.session := by
  cases h <;> rfl

theorem Change.kind_eq {i : Nat} {a : Label} {t t' : Task} {x x' : Session} {e : Option PtyEvent}
    (h : Change i a t x t' x' e) : t'.kind = t.kind := by
  cases h <;> rfl

theorem Change.name_eq {i : Nat} {a : Label} {t t' : Task} {x x' : Session} {e : Option PtyEvent}
    (h : Change i a t x t' x' e) : x'.name = x.name := by
  cases h <;> rfl

theorem Change.silent {i : Nat} {a : Label} {t t' : Task} {x x' : Session} (h : Change i a t x t' x' none) :
    x'.lastEvent = x.lastEvent ∧ (x.exited = true → x'.exited = true) := by
  cases h with
  | mark hp => exact ⟨rfl, fun _ => rfl⟩
  | check hp => exact ⟨rfl, id⟩
  | refresh a hp => exact ⟨rfl, id⟩
  | clear hp => exact ⟨rfl, id⟩
  | remove hp => exact ⟨rfl, id⟩
  | lock hp => exact ⟨rfl, id⟩
  | same a cwd hp he => exact ⟨rfl, id⟩

theorem Start.silent {k : Nat} {a : Label} {x x' : Session} {t : Task} (h : Start k a x x' t) :
    x'.lastEvent = x.lastEvent ∧ x'.name = x.name ∧ x'.exited = x.exited ∧ x'.agent = x.agent := by
  cases h <;> exact ⟨rfl, rfl, rfl, rfl⟩

theorem Start.unlisted {k : Nat} {a : Label} {x x' : Session} {t : Task} (h : Start k a x x' t)
    (hl : x.listed = false) :
    x'.listed = false := by
  cases h with
  | schedule hr => exact hl
  | kill name => rfl
  | reap => exact hl

theorem Change.unlisted {i : Nat} {a : Label} {t t' : Task} {x x' : Session} {e : Option PtyEvent}
    (h : Change i a t x t' x' e) (hl : x.listed = false) : x'.listed = false := by
  cases h <;> first | exact hl | rfl

theorem Start.session_eq {k : Nat} {a : Label} {x x' : Session} {t : Task} (h : Start k a x x' t) :
    t.session = k := by
  cases h <;> rfl

/-! ## Invariants of a task and its session -/

/-- Every task has its session, and `L` holds of the two. -/
def TaskInv (L : Task → Session → Prop) (s : State) : Prop :=
  ∀ (i : Nat) (t : Task), s.tasks[i]? = some t → ∃ x, s.sessions[t.session]? = some x ∧ L t x

theorem TaskInv.of_task {L : Task → Session → Prop} {s : State} (h : TaskInv L s) {i : Nat} {t : Task} {x : Session}
    (ht : s.task i = some (t, x)) : L t x := by
  obtain ⟨h1, h2⟩ := task_some ht
  obtain ⟨x', hx, hl⟩ := h i t h1
  cases h2.symm.trans hx
  exact hl

theorem taskInv_init (L : Task → Session → Prop) : TaskInv L init := by
  intro i t h
  simp [init] at h

/-- A move keeps `L` if it does for the task that moves and for the others of its session. -/
theorem taskInv_step {L : Task → Session → Prop} {s s' : State} {a : Label} (h : step s a = some s')
    (hi : TaskInv L s)
    (hstart : ∀ (k : Nat) x x' t, s.sessions[k]? = some x → Start k a x x' t → L t x' ∧ ∀ u, L u x → L u x')
    (hmove : ∀ (i : Nat) t t' x x' e, s.task i = some (t, x) → Change i a t x t' x' e → L t x →
      L t' x' ∧ ∀ (j : Nat) (u : Task), j ≠ i → s.tasks[j]? = some u → u.session = t.session → L u x → L u x') : TaskInv L s' := by
  cases moves h with
  | quiet h1 h2 h3 =>
    unfold TaskInv
    rw [h1, h2]
    exact hi
  | opened name hl hn h =>
    subst h
    intro i t ht
    obtain ⟨x, hx, hL⟩ := hi i t ht
    exact ⟨x, getElem?_snoc_some_iff.mpr (.inl hx), hL⟩
  | started k x x' t hx hc hl h =>
    subst h
    have hk := lt_of_getElem?_some hx
    obtain ⟨hnew, hold⟩ := hstart k x x' t hx hc
    intro i u hu
    obtain hu | ⟨-, rfl⟩ := getElem?_snoc_some_iff.mp hu
    · obtain ⟨y, hy, hL⟩ := hi i u hu
      by_cases hku : u.session = k
      · rw [hku] at hy ⊢
        cases hx.symm.trans hy
        exact ⟨x', getElem?_set_self_some hx, hold u hL⟩
      · exact ⟨y, getElem?_set_other hku hy, hL⟩
    · exact ⟨x', (getElem?_set_some_iff hk).mpr (.inl ⟨hc.session_eq, rfl⟩), hnew⟩
  | moved i t t' x x' e ht hc hl h =>
    subst h
    obtain ⟨hti, hx⟩ := task_some ht
    have hi' := lt_of_getElem?_some hti
    have hk := lt_of_getElem?_some hx
    obtain ⟨hnew, hold⟩ := hmove i t t' x x' e ht hc (hi.of_task ht)
    intro j u hu
    obtain ⟨rfl, rfl⟩ | ⟨hj, hu⟩ := (getElem?_set_some_iff hi').mp hu
    · exact ⟨x', (getElem?_set_some_iff hk).mpr (.inl ⟨hc.session_eq, rfl⟩), hnew⟩
    · obtain ⟨y, hy, hL⟩ := hi j u hu
      by_cases hku : u.session = t.session
      · rw [hku] at hy ⊢
        cases hx.symm.trans hy
        exact ⟨x', getElem?_set_self_some hx, hold j u hj hu hku hL⟩
      · exact ⟨y, getElem?_set_other hku hy, hL⟩

end Mux.Watch
