import Mux.WatchLemmas
import Mathlib.Data.List.Basic

/-!
# The exit of a session on the watch stream

An evaluation looks at `exited` only before it starts, so it can store an agent and emit after the
exit; and kill and reap both emit, each with the directory it reads. Where every evaluation has written
before the exit and the second exit event reads the same directory, the exit is the last event of
its session and has no agent.
-/

namespace Mux.Watch

open Lib

def eventsOf (k : Nat) (log : List Broadcast) : List PtyEvent :=
  (log.filter fun b => b.session = k).map Broadcast.event

/-- An exit has no agent, and nothing comes after it. -/
def ExitIsFinal (events : List PtyEvent) : Prop :=
  ∀ before e after, events = before ++ e :: after → e.exited = true → e.agent = none ∧ after = []

/-- An evaluation writes before the exit; an exit event that is not the first reads the directory of
the first. -/
def WritesBeforeExit (s : State) : Label → Prop
  | .refresh i _ =>
    match s.task i with
    | some (_, x) => x.exited = false
    | none => True
  | .send i cwd =>
    match s.task i with
    | some (t, x) =>
      if t.kind = .evaluation then x.exited = false
      else (x.lastEvent.all fun e => !e.exited || e.cwd == cwd) = true
    | none => True
  | _ => True

instance (s : State) : (a : Label) → Decidable (WritesBeforeExit s a)
  | .refresh i a =>
    match h : s.task i with
    | some (_, x) => decidable_of_iff (x.exited = false) (by simp [WritesBeforeExit, h])
    | none => isTrue (by simp [WritesBeforeExit, h])
  | .send i cwd =>
    match h : s.task i with
    | some (t, x) =>
      decidable_of_iff
        (if t.kind = .evaluation then x.exited = false else (x.lastEvent.all fun e => !e.exited || e.cwd == cwd) = true)
        (by simp [WritesBeforeExit, h])
    | none => isTrue (by simp [WritesBeforeExit, h])
  | .open _ | .scheduleAgent _ | .kill _ | .reap _ | .check _ | .mark _ | .clear _ | .remove _ | .lock _ | .subscribe
  | .readTable _ | .readAgent | .readEvent _ | .unlockTable | .write | .recv => isTrue trivial

/-! ## Tasks -/

/-- Kill and reap: the session is marked, and once cleared its agent stays so. -/
def Leaves (t : Task) (x : Session) : Prop :=
  t.kind ≠ .evaluation → t.phase = .mark ∨ x.exited = true ∧ (t.phase = .clear ∨ x.agent = none ∧
    ∀ a, t.phase = .send a → a = none)

theorem Leaves.gone {t : Task} {x : Session} (h : Leaves t x) (hk : t.kind ≠ .evaluation) (h1 : t.phase ≠ .mark)
    (h2 : t.phase ≠ .clear) : x.exited = true ∧ x.agent = none ∧ ∀ a, t.phase = .send a → a = none := by
  obtain hm | ⟨hx, hcl | ⟨ha, hs⟩⟩ := h hk
  · exact absurd hm h1
  · exact absurd hcl h2
  · exact ⟨hx, ha, hs⟩

theorem leaves_step {s s' : State} {a : Label} (hg : WritesBeforeExit s a) (h : step s a = some s')
    (hi : TaskInv Leaves s) :
    TaskInv Leaves s' := by
  refine taskInv_step h hi ?_ ?_
  · intro k x x' t _ hc
    cases hc with
    | schedule hr => exact ⟨fun hk => absurd rfl hk, fun u hu => hu⟩
    | kill name => exact ⟨fun _ => .inl rfl, fun u hu => hu⟩
    | reap => exact ⟨fun _ => .inl rfl, fun u hu => hu⟩
  · intro i t t' x x' e ht hc hL
    cases hc with
    | check hp =>
      refine ⟨fun hk => ?_, fun _ u _ _ _ hu => hu⟩
      obtain ⟨hx, ha, -⟩ := hL.gone hk (by simp [hp]) (by simp [hp])
      refine .inr ⟨hx, .inr ⟨ha, fun a hs => ?_⟩⟩
      dsimp only at hs
      split at hs <;> cases hs
    | refresh a hp =>
      have hx : x.exited = false := by
        simp only [WritesBeforeExit, ht] at hg
        exact hg
      have hmark : ∀ u, Leaves u x → u.kind ≠ .evaluation → u.phase = .mark := by
        intro u hu hk
        obtain hm | ⟨hx', -⟩ := hu hk
        · exact hm
        · rw [hx] at hx'; cases hx'
      refine ⟨fun hk => ?_, fun _ u _ _ _ hu hk => .inl (hmark u hu hk)⟩
      have := hmark t hL hk
      rw [hp] at this
      cases this
    | mark hp =>
      refine ⟨fun _ => .inr ⟨rfl, .inl rfl⟩, fun _ u _ _ _ hu hk => ?_⟩
      obtain hm | ⟨-, hu⟩ := hu hk
      · exact .inl hm
      · exact .inr ⟨rfl, hu⟩
    | clear hp =>
      refine ⟨fun hk => ?_, fun _ u _ _ _ hu hk => ?_⟩
      · obtain hm | ⟨hx, -⟩ := hL hk
        · rw [hp] at hm; cases hm
        · refine .inr ⟨hx, .inr ⟨rfl, fun a hs => ?_⟩⟩
          dsimp only at hs
          split at hs <;> cases hs
      · obtain hm | ⟨hx, hcl | ⟨-, hs⟩⟩ := hu hk
        · exact .inl hm
        · exact .inr ⟨hx, .inl hcl⟩
        · exact .inr ⟨hx, .inr ⟨rfl, hs⟩⟩
    | remove hp =>
      refine ⟨fun hk => ?_, fun _ u _ _ _ hu => hu⟩
      obtain ⟨hx, ha, -⟩ := hL.gone hk (by simp [hp]) (by simp [hp])
      exact .inr ⟨hx, .inr ⟨ha, fun a hs => by cases hs⟩⟩
    | lock hp =>
      refine ⟨fun hk => ?_, fun _ u _ _ _ hu => hu⟩
      obtain ⟨hx, ha, -⟩ := hL.gone hk (by simp [hp]) (by simp [hp])
      exact .inr ⟨hx, .inr ⟨ha, fun a hs => by cases hs; exact ha⟩⟩
    | same a cwd hp he =>
      refine ⟨fun hk => ?_, fun _ u _ _ _ hu => hu⟩
      obtain ⟨hx, ha, -⟩ := hL.gone hk (by simp [hp]) (by simp [hp])
      exact .inr ⟨hx, .inr ⟨ha, fun a hs => by cases hs⟩⟩
    | send a cwd hp he =>
      refine ⟨fun hk => ?_, fun _ u _ _ _ hu => hu⟩
      obtain ⟨hx, ha, -⟩ := hL.gone hk (by simp [hp]) (by simp [hp])
      exact .inr ⟨hx, .inr ⟨ha, fun a hs => by cases hs⟩⟩

/-! ## The broadcast -/

structure Recorded (k : Nat) (x : Session) (log : List Broadcast) : Prop where
  last : (eventsOf k log).getLast? = x.lastEvent
  final : ExitIsFinal (eventsOf k log)
  named : ∀ e ∈ eventsOf k log, e.name = x.name
  marked : ∀ e ∈ eventsOf k log, e.exited = true → x.exited = true

structure LogInv (s : State) : Prop where
  known : ∀ b ∈ s.log, b.session < s.sessions.length
  recorded : ∀ (k : Nat) (x : Session), s.sessions[k]? = some x → Recorded k x s.log

theorem eventsOf_append_self (k : Nat) (log : List Broadcast) (e : PtyEvent) :
    eventsOf k (log ++ [⟨k, e⟩]) = eventsOf k log ++ [e] := by
  simp [eventsOf]

theorem eventsOf_append_ne {j k : Nat} (h : k ≠ j) (log : List Broadcast) (e : PtyEvent) :
    eventsOf j (log ++ [⟨k, e⟩]) = eventsOf j log := by
  simp [eventsOf, h]

theorem eventsOf_unknown {s : State} (hi : LogInv s) {k : Nat} (hk : s.sessions.length ≤ k) :
    eventsOf k s.log = [] := by
  rw [eventsOf, List.map_eq_nil_iff, List.filter_eq_nil_iff]
  intro b hb
  have := hi.known b hb
  simp only [decide_eq_true_eq]
  omega

theorem exitIsFinal_nil : ExitIsFinal [] := by
  intro before e after heq
  exact absurd heq (by simp)

theorem exitIsFinal_snoc {l : List PtyEvent} {e : PtyEvent} (hl : ∀ d ∈ l, d.exited = false)
    (he : e.exited = true → e.agent = none) : ExitIsFinal (l ++ [e]) := by
  intro before d after heq hd
  obtain rfl | ⟨after', c, rfl⟩ : after = [] ∨ ∃ after' c, after = after' ++ [c] := List.eq_nil_or_concat' after
  · obtain ⟨-, h2⟩ := List.append_inj' heq rfl
    cases h2
    exact ⟨he hd, rfl⟩
  · rw [← List.cons_append, ← List.append_assoc] at heq
    obtain ⟨h1, -⟩ := List.append_inj' heq rfl
    have := hl d (by rw [h1]; simp)
    rw [this] at hd
    cases hd

/-- With an exit among the events, the last one is it. -/
theorem ExitIsFinal.last {l : List PtyEvent} (h : ExitIsFinal l) {e : PtyEvent} (he : e ∈ l) (hx : e.exited = true) :
    l.getLast? = some e ∧ e.agent = none := by
  obtain ⟨before, after, rfl⟩ := List.append_of_mem he
  obtain ⟨ha, rfl⟩ := h before e after rfl hx
  exact ⟨by simp, ha⟩

theorem recorded_same {k : Nat} {x x' : Session} {log : List Broadcast} (h : Recorded k x log)
    (h1 : x'.lastEvent = x.lastEvent)
    (h2 : x'.name = x.name) (h3 : x.exited = true → x'.exited = true) : Recorded k x' log :=
  ⟨h1 ▸ h.last, h.final, h2 ▸ h.named, fun e he hx => h3 (h.marked e he hx)⟩

/-- An event that is broadcast is the first of its session to say that it exited. -/
theorem recorded_send {k : Nat} {t : Task} {x : Session} {a : Option AgentInfo} {cwd : Option String}
    {log : List Broadcast}
    (h : Recorded k x log) (hp : t.phase = .send a) (hL : Leaves t x) (he : x.lastEvent ≠ some (x.event a cwd))
    (hg : if t.kind = .evaluation then x.exited = false else (x.lastEvent.all fun e => !e.exited || e.cwd == cwd) = true) :
    Recorded k { x with lastEvent := some (x.event a cwd) } (log ++ [⟨k, x.event a cwd⟩]) := by
  have hagent : x.exited = true → a = none := by
    intro hx
    by_cases hk : t.kind = .evaluation
    · rw [if_pos hk, hx] at hg
      cases hg
    · exact (hL.gone hk (by simp [hp]) (by simp [hp])).2.2 a hp
  have hnone : ∀ d ∈ eventsOf k log, d.exited = false := by
    intro d hd
    by_contra hdx
    have hdx : d.exited = true := by simpa using hdx
    obtain ⟨hlast, hda⟩ := h.final.last hd hdx
    have hx := h.marked d hd hdx
    have hlast' : x.lastEvent = some d := h.last.symm.trans hlast
    by_cases hk : t.kind = .evaluation
    · rw [if_pos hk, hx] at hg
      cases hg
    · rw [if_neg hk, hlast'] at hg
      have hcwd : d.cwd = cwd := by simpa [hdx] using hg
      apply he
      rw [hlast', Option.some.injEq]
      -- the same name, no agent, the same directory, exited
      obtain ⟨n, ag, c, ex⟩ := d
      have hn : n = x.name := h.named _ hd
      simp only at hdx hda hcwd
      simp only [Session.event, hn, hda, hcwd, hdx, hx, hagent hx]
  refine ⟨?_, ?_, ?_, ?_⟩
  · rw [eventsOf_append_self]
    simp
  · rw [eventsOf_append_self]
    exact exitIsFinal_snoc hnone hagent
  · intro e hmem
    rw [eventsOf_append_self, List.mem_append, List.mem_singleton] at hmem
    obtain hmem | rfl := hmem
    · exact h.named e hmem
    · rfl
  · intro e hmem hx
    rw [eventsOf_append_self, List.mem_append, List.mem_singleton] at hmem
    obtain hmem | rfl := hmem
    · exact h.marked e hmem hx
    · exact hx

theorem recorded_other {j k : Nat} {x : Session} {log : List Broadcast} {e : PtyEvent} (hne : k ≠ j)
    (h : Recorded j x log) :
    Recorded j x (log ++ [⟨k, e⟩]) := by
  have := eventsOf_append_ne hne log e
  exact ⟨this ▸ h.last, this ▸ h.final, this ▸ h.named, this ▸ h.marked⟩

theorem logInv_set {s s' : State} {k : Nat} {x x' : Session} (hx : s.sessions[k]? = some x)
    (h1 : s'.sessions = s.sessions.set k x') (hlog : ∀ b ∈ s'.log, b.session < s.sessions.length)
    (hself : Recorded k x' s'.log)
    (hother : ∀ (j : Nat) (y : Session), j ≠ k → s.sessions[j]? = some y → Recorded j y s'.log) : LogInv s' := by
  refine ⟨?_, ?_⟩
  · rw [h1, List.length_set]
    exact hlog
  · rw [h1]
    intro j y hy
    obtain ⟨rfl, rfl⟩ | ⟨hj, hy⟩ := (getElem?_set_some_iff (lt_of_getElem?_some hx)).mp hy
    · exact hself
    · exact hother j y hj hy

theorem logInv_step {s s' : State} {a : Label} (hg : WritesBeforeExit s a) (h : step s a = some s')
    (ht : TaskInv Leaves s)
    (hi : LogInv s) : LogInv s' := by
  cases moves h with
  | quiet h1 h2 h3 => exact ⟨by rw [h1, h3]; exact hi.known, by rw [h1, h3]; exact hi.recorded⟩
  | opened name hl hn h =>
    subst h
    refine ⟨fun b hb => ?_, fun k x hx => ?_⟩
    · have := hi.known b hb
      simp only [List.length_append, List.length_singleton]
      omega
    · obtain hx | ⟨rfl, rfl⟩ := getElem?_snoc_some_iff.mp hx
      · exact hi.recorded k x hx
      · have hnil := eventsOf_unknown hi (Nat.le_refl _)
        constructor
        · rw [hnil]; rfl
        · rw [hnil]; exact exitIsFinal_nil
        · rw [hnil]; simp
        · rw [hnil]; simp
  | started k x x' t hx hc hl h =>
    subst h
    obtain ⟨h1, h2, h3, -⟩ := hc.silent
    exact logInv_set hx rfl hi.known (recorded_same (hi.recorded k x hx) h1 h2 fun h => h3 ▸ h) fun j y _ hy => hi.recorded j y hy
  | moved i t t' x x' e htask hc hl h =>
    obtain ⟨hti, hx⟩ := task_some htask
    have hrec := hi.recorded t.session x hx
    have hlog : s'.log = s.log ++ (e.map fun e => (⟨t.session, e⟩ : Broadcast)).toList := by rw [h]
    have hset : s'.sessions = s.sessions.set t.session x' := by rw [h]; rfl
    cases e with
    | none =>
      have hlog : s'.log = s.log := by simpa using hlog
      obtain ⟨h1, h3⟩ := hc.silent
      refine logInv_set hx hset (by rw [hlog]; exact hi.known) (by rw [hlog]; exact recorded_same hrec h1 hc.name_eq h3) ?_
      rw [hlog]
      exact fun j y _ hy => hi.recorded j y hy
    | some e =>
      have hlog : s'.log = s.log ++ [⟨t.session, e⟩] := by simpa using hlog
      refine logInv_set hx hset ?_ ?_ ?_
      · rw [hlog]
        intro b hb
        rw [List.mem_append, List.mem_singleton] at hb
        obtain hb | rfl := hb
        · exact hi.known b hb
        · exact lt_of_getElem?_some hx
      · rw [hlog]
        cases hc with
        | send a cwd hp he =>
          simp only [WritesBeforeExit, htask] at hg
          exact recorded_send hrec hp (ht.of_task htask) he hg
      · rw [hlog]
        exact fun j y hj hy => recorded_other (Ne.symm hj) (hi.recorded j y hy)

/-- In a run in which evaluations write before the exit and exit events agree on the directory, an
exit event has no agent and is the last of its session. -/
theorem exit_is_final (tr : List Label) (s : State) (h : exec step init tr = some s)
    (hg : Meets step WritesBeforeExit init tr)
    (k : Nat) : ExitIsFinal (eventsOf k s.log) := by
  have hinit : TaskInv Leaves init ∧ LogInv init := ⟨taskInv_init _, by simp [init], by simp [init]⟩
  obtain ⟨-, hi⟩ := exec_inv_of_meets (I := fun s => TaskInv Leaves s ∧ LogInv s)
    (fun s a s' hg hs hi => ⟨leaves_step hg hs hi.1, logInv_step hg hs hi.1 hi.2⟩) hg h hinit
  by_cases hk : k < s.sessions.length
  · exact (hi.recorded k _ (List.getElem?_eq_getElem hk)).final
  · rw [eventsOf_unknown hi (Nat.le_of_not_lt hk)]
    exact exitIsFinal_nil

def claude : AgentInfo := ⟨"claude", "working", ""⟩

/-- An evaluation, a kill and the reaper, one after the other. -/
def orderlyExit : List Label :=
  [.open "a", .scheduleAgent 0, .check 0, .refresh 0 (some claude), .lock 0, .send 0 (some "/home"), .kill "a", .mark 1, .clear 1, .lock 1,
    .send 1 none, .reap 0, .mark 2, .clear 2, .remove 2, .lock 2, .send 2 none]

theorem exit_is_final_orderly : ∃ s, exec step init orderlyExit = some s ∧
    eventsOf 0 s.log = [⟨"a", some claude, some "/home", false⟩, ⟨"a", none, none, true⟩] ∧ ExitIsFinal (eventsOf 0 s.log) :=
  ⟨_, rfl, rfl, exit_is_final orderlyExit _ rfl (by decide) 0⟩

/-- An evaluation that stores and emits after the kill; and a reaper that reads another directory
than the kill did. -/
theorem exit_not_final :
    (∃ s, exec step init [.open "a", .scheduleAgent 0, .check 0, .kill "a", .mark 1, .clear 1, .refresh 0 (some claude), .lock 0,
        .send 0 none] = some s ∧ eventsOf 0 s.log = [⟨"a", some claude, none, true⟩] ∧ ¬ ExitIsFinal (eventsOf 0 s.log)) ∧
    ∃ s, exec step init [.open "a", .kill "a", .mark 0, .clear 0, .lock 0, .send 0 (some "/home"), .reap 0, .mark 1, .clear 1,
        .remove 1, .lock 1, .send 1 none] = some s ∧
      eventsOf 0 s.log = [⟨"a", none, some "/home", true⟩, ⟨"a", none, none, true⟩] ∧ ¬ ExitIsFinal (eventsOf 0 s.log) := by
  refine ⟨⟨_, rfl, rfl, fun h => ?_⟩, _, rfl, rfl, fun h => ?_⟩
  · have := (h [] ⟨"a", some claude, none, true⟩ [] rfl rfl).1
    cases this
  · have := (h [] ⟨"a", none, some "/home", true⟩ [⟨"a", none, none, true⟩] rfl rfl).2
    cases this

end Mux.Watch
