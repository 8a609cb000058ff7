import Mux.WatchLemmas
import Mathlib.Data.List.Basic

/-!
# What the manager's last event says

A session that has left the table has said so or is about to; the agent it said last is its agent
or an evaluation is about to say it; and the last event broadcast under a name is the last one of the
newest session of that name. The last needs that only the newest session of a name broadcasts, the one
before that the evaluations of a session do not overlap.
-/

namespace Mux.Watch

open Lib

def Leaving (s : State) (k : Nat) : Prop :=
  ∃ (j : Nat) (u : Task), s.tasks[j]? = some u ∧ u.session = k ∧ u.kind ≠ .evaluation ∧ u.phase ≠ .done

def Phase.writing : Phase → Bool
  | .emit | .send _ => true
  | _ => false

/-- An evaluation of the session has stored an agent and is to emit it. -/
def Writing (s : State) (k : Nat) : Prop :=
  ∃ (j : Nat) (u : Task), s.tasks[j]? = some u ∧ u.session = k ∧ u.kind = .evaluation ∧ u.phase.writing = true

def Newest (s : State) (k : Nat) (x : Session) : Prop :=
  s.sessions[k]? = some x ∧ ∀ (j : Nat) (y : Session), k < j → s.sessions[j]? = some y → y.name ≠ x.name

def lastFor (name : String) (events : List PtyEvent) : Option PtyEvent :=
  (events.filter fun e => e.name = name).getLast?

def Session.saidExit (x : Session) : Bool := x.lastEvent.any PtyEvent.exited

def State.newest (s : State) (name : String) : Option Session := (s.sessions.filter fun x => x.name = name).getLast?

/-- Evaluations of a session do not overlap, only the newest session of a name broadcasts, and when the
table is read again no name is missing from it whose exit was dropped. -/
def InOrder (s : State) : Label → Prop
  | .refresh i _ =>
    match s.task i with
    | some (t, _) => ∀ u ∈ s.tasks, u.session = t.session → u.kind = .evaluation → u.phase.writing = false
    | none => True
  | .send i cwd =>
    match s.task i with
    | some (t, x) =>
      match t.phase with
      | .send a => x.lastEvent = some (x.event a cwd) ∨ ∀ y ∈ s.sessions.drop (t.session + 1), y.name ≠ x.name
      | _ => True
    | none => True
  | .readTable _ =>
    ∀ e ∈ s.watcher.skipped, (s.get e.name).isSome = true ∨ (∃ b ∈ s.log.drop s.watcher.pos, b.event.name = e.name) ∨
      (s.newest e.name).all (fun x => !x.saidExit) = true
  | _ => True

instance (s : State) : (a : Label) → Decidable (InOrder s a)
  | .refresh i _ =>
    match h : s.task i with
    | some (t, _) =>
      decidable_of_iff (∀ u ∈ s.tasks, u.session = t.session → u.kind = .evaluation → u.phase.writing = false)
        (by simp only [InOrder, h])
    | none => isTrue (by simp [InOrder, h])
  | .send i cwd =>
    match h : s.task i with
    | some (t, x) =>
      match hp : t.phase with
      | .send a =>
        have : Decidable (∀ y ∈ s.sessions.drop (t.session + 1), y.name ≠ x.name) := inferInstance
        decidable_of_iff (x.lastEvent = some (x.event a cwd) ∨ ∀ y ∈ s.sessions.drop (t.session + 1), y.name ≠ x.name)
          (by simp only [InOrder, h, hp])
      | .settle | .refresh | .mark | .clear | .remove | .emit | .done => isTrue (by simp [InOrder, h, hp])
    | none => isTrue (by simp [InOrder, h])
  | .readTable _ =>
    decidable_of_iff (∀ e ∈ s.watcher.skipped, (s.get e.name).isSome = true ∨
      (∃ b ∈ s.log.drop s.watcher.pos, b.event.name = e.name) ∨ (s.newest e.name).all (fun x => !x.saidExit) = true) Iff.rfl
  | .open _ | .scheduleAgent _ | .kill _ | .reap _ | .check _ | .mark _ | .clear _ | .remove _ | .lock _ | .subscribe
  | .readAgent | .readEvent _ | .unlockTable | .write | .recv => isTrue trivial

/-! ## Tasks -/

/-- What a task has done to its session so far. -/
structure Progress (t : Task) (x : Session) : Prop where
  evaluation : t.kind = .evaluation → t.phase ≠ .mark ∧ t.phase ≠ .clear ∧ t.phase ≠ .remove
  exit : t.kind ≠ .evaluation → t.phase ≠ .settle ∧ t.phase ≠ .refresh
  marked : t.kind ≠ .evaluation → t.phase ≠ .mark → x.exited = true
  killed : t.kind = .kill → x.listed = false
  reaped : t.kind = .reap → t.phase.writing = true ∨ t.phase = .done → x.listed = false
  read : t.kind = .evaluation → ∀ a, t.phase = .send a → x.exited = false → a = x.agent

theorem Progress.is_evaluation {t : Task} {x : Session} (h : Progress t x)
    (hp : t.phase = .settle ∨ t.phase = .refresh) :
    t.kind = .evaluation := by
  by_contra hk
  obtain ⟨h1, h2⟩ := h.exit hk
  exact hp.elim h1 h2

theorem Progress.mono {t : Task} {x x' : Session} (h : Progress t x) (h1 : x.exited = true → x'.exited = true)
    (h2 : x.listed = false → x'.listed = false)
    (h3 : t.kind = .evaluation → ∀ a, t.phase = .send a → x'.exited = false → x'.agent = x.agent) :
    Progress t x' where
  evaluation := h.evaluation
  exit := h.exit
  marked hk hp := h1 (h.marked hk hp)
  killed hk := h2 (h.killed hk)
  reaped hk hp := h2 (h.reaped hk hp)
  read hk a ha hx := by
    rw [h3 hk a ha hx]
    refine h.read hk a ha ?_
    cases hx' : x.exited with
    | false => rfl
    | true => rw [h1 hx'] at hx; cases hx

theorem progress_step {s s' : State} {a : Label} (hg : InOrder s a) (h : step s a = some s')
    (hi : TaskInv Progress s) :
    TaskInv Progress s' := by
  refine taskInv_step h hi ?_ ?_
  · intro k x x' t _ hc
    cases hc with
    | schedule hr => exact ⟨by constructor <;> simp, fun u hu => hu.mono id id fun _ _ _ _ => rfl⟩
    | kill name => exact ⟨by constructor <;> simp, fun u hu => hu.mono id (fun _ => rfl) fun _ _ _ _ => rfl⟩
    | reap => exact ⟨by constructor <;> simp [Phase.writing], fun u hu => hu.mono id id fun _ _ _ _ => rfl⟩
  · intro i t t' x x' e ht hc hL
    cases hc with
    | check hp =>
      have hk := hL.is_evaluation (.inl hp)
      refine ⟨?_, fun _ u _ _ _ hu => hu.mono id id fun _ _ _ _ => rfl⟩
      cases x.exited <;> constructor <;> simp [hk]
    | refresh a hp =>
      have hk := hL.is_evaluation (.inr hp)
      refine ⟨by constructor <;> simp [hk], fun j u _ hj hs hu => hu.mono id id fun hku b hb _ => ?_⟩
      simp only [InOrder, ht] at hg
      have := hg u (List.mem_of_getElem? hj) hs hku
      rw [hb] at this
      cases this
    | mark hp =>
      have hk : t.kind ≠ .evaluation := fun hk => (hL.evaluation hk).1 hp
      refine ⟨?_, fun _ u _ _ _ hu => hu.mono (fun _ => rfl) id fun _ _ _ hx => by cases hx⟩
      constructor <;> simp [hk, Phase.writing]
      exact hL.killed
    | clear hp =>
      have hk : t.kind ≠ .evaluation := fun hk => (hL.evaluation hk).2.1 hp
      have hx : x.exited = true := hL.marked hk (by simp [hp])
      refine ⟨?_, fun _ u _ _ _ hu => hu.mono id id fun _ _ _ hx' => by rw [hx] at hx'; cases hx'⟩
      cases hkind : t.kind with
      | evaluation => exact absurd hkind hk
      | kill => constructor <;> simp [hx, hL.killed hkind]
      | reap => constructor <;> simp [hx, Phase.writing]
    | remove hp =>
      have hk : t.kind ≠ .evaluation := fun hk => (hL.evaluation hk).2.2 hp
      have hx : x.exited = true := hL.marked hk (by simp [hp])
      refine ⟨?_, fun _ u _ _ _ hu => hu.mono id (fun _ => rfl) fun _ _ _ _ => rfl⟩
      constructor <;> simp [hk, hx]
    | lock hp =>
      refine ⟨?_, fun _ u _ _ _ hu => hu⟩
      refine ⟨by simp, by simp, fun hk _ => hL.marked hk (by simp [hp]), hL.killed, fun hk _ => hL.reaped hk (.inl ?_), ?_⟩
      · rw [hp]; rfl
      · rintro - a ⟨⟩ -
        rfl
    | same a cwd hp he =>
      refine ⟨?_, fun _ u _ _ _ hu => hu⟩
      refine ⟨by simp, by simp, fun hk _ => hL.marked hk (by simp [hp]), hL.killed, fun hk _ => hL.reaped hk (.inl ?_), by simp⟩
      rw [hp]; rfl
    | send a cwd hp he =>
      refine ⟨?_, fun _ u _ _ _ hu => hu.mono id id fun _ _ _ _ => rfl⟩
      refine ⟨by simp, by simp, fun hk _ => hL.marked hk (by simp [hp]), hL.killed, fun hk _ => hL.reaped hk (.inl ?_), by simp⟩
      rw [hp]; rfl

/-! ## Tasks under way -/

theorem leaving_mono {s s' : State} {k : Nat}
    (h : ∀ (j : Nat) (u : Task), s.tasks[j]? = some u → s'.tasks[j]? = some u)
    (hl : Leaving s k) : Leaving s' k := by
  obtain ⟨j, u, hj, hu⟩ := hl
  exact ⟨j, u, h j u hj, hu⟩

theorem writing_mono {s s' : State} {k : Nat}
    (h : ∀ (j : Nat) (u : Task), s.tasks[j]? = some u → s'.tasks[j]? = some u)
    (hw : Writing s k) : Writing s' k := by
  obtain ⟨j, u, hj, hu⟩ := hw
  exact ⟨j, u, h j u hj, hu⟩

section
variable {s s' : State} {i : Nat} {t t' : Task} (hi : s.tasks[i]? = some t) (hset : s'.tasks = s.tasks.set i t')
include hi hset

/-- Only the task that moved can be missing among those of a kind. -/
theorem under_way_set {P : Task → Prop} (h : ∃ (j : Nat) (u : Task), s.tasks[j]? = some u ∧ P u) :
    (∃ (j : Nat) (u : Task), s'.tasks[j]? = some u ∧ P u) ∨ P t ∧ ¬ P t' := by
  obtain ⟨j, u, hj, hu⟩ := h
  rw [hset]
  by_cases hji : j = i
  · subst hji
    cases hi.symm.trans hj
    by_cases ht' : P t'
    · exact .inl ⟨j, t', getElem?_set_self_some hi, ht'⟩
    · exact .inr ⟨hu, ht'⟩
  · exact .inl ⟨j, u, getElem?_set_other hji hj, hu⟩

variable (hs : t'.session = t.session) (hk : t'.kind = t.kind)
include hs hk

theorem leaving_set {k : Nat} (h : Leaving s k) :
    Leaving s' k ∨ t.session = k ∧ t.kind ≠ .evaluation ∧ t'.phase = .done := by
  obtain h | ⟨⟨h1, h2, -⟩, hn⟩ := under_way_set hi hset h
  · exact .inl h
  · refine .inr ⟨h1, h2, ?_⟩
    by_contra hd
    exact hn ⟨hs.trans h1, fun he => h2 (hk.symm.trans he), hd⟩

theorem writing_set {k : Nat} (h : Writing s k) :
    Writing s' k ∨ t.session = k ∧ t.kind = .evaluation ∧ t.phase.writing = true ∧ t'.phase.writing = false := by
  obtain h | ⟨⟨h1, h2, h3⟩, hn⟩ := under_way_set hi hset h
  · exact .inl h
  · refine .inr ⟨h1, h2, h3, ?_⟩
    by_contra hw
    exact hn ⟨hs.trans h1, hk.trans h2, by simpa using hw⟩

theorem leaving_self (h1 : t.kind ≠ .evaluation) (h2 : t'.phase ≠ .done) : Leaving s' t.session := by
  refine ⟨i, t', ?_, hs, fun h => h1 (hk.symm.trans h), h2⟩
  rw [hset]
  exact getElem?_set_self_some hi

theorem writing_self (h1 : t.kind = .evaluation) (h2 : t'.phase.writing = true) : Writing s' t.session := by
  refine ⟨i, t', ?_, hs, hk.trans h1, h2⟩
  rw [hset]
  exact getElem?_set_self_some hi

end

/-! ## What was said last -/

/-- The agent `ag` is the one last said, or the session is leaving, or an evaluation is about to say it. -/
def Said (s : State) (k : Nat) (x : Session) (le : PtyEvent) (ag : Option AgentInfo) : Prop :=
  le.exited = true ∨ Leaving s k ∨ ag = le.agent ∨ ag = x.agent ∧ Writing s k

theorem said_mono {s s' : State} {k : Nat} {x x' : Session} {le : PtyEvent} {ag : Option AgentInfo}
    (hl : Leaving s k → Leaving s' k)
    (hw : Writing s k → Writing s' k) (hag : x'.agent = x.agent) (h : Said s k x le ag) : Said s' k x' le ag := by
  obtain h | h | h | ⟨h, hwr⟩ := h
  · exact .inl h
  · exact .inr (.inl (hl h))
  · exact .inr (.inr (.inl h))
  · exact .inr (.inr (.inr ⟨h.trans hag.symm, hw hwr⟩))

theorem said_change {s s' : State} {a : Label} {i : Nat} {t t' : Task} {x x' : Session} {le : PtyEvent}
    {ag : Option AgentInfo} (hg : InOrder s a) (ht : s.task i = some (t, x)) (hc : Change i a t x t' x' none)
    (hset : s'.tasks = s.tasks.set i t') (hP : Progress t x) (hle : x.lastEvent = some le)
    (h : Said s t.session x le ag) :
    Said s' t.session x' le ag := by
  have hi := (task_some ht).1
  have hs := hc.session_eq
  have hk := hc.kind_eq
  -- the agent and the evaluations to say it are touched only by the moves below
  have keep : x'.agent = x.agent → t'.phase ≠ .done → (t.phase.writing = true → t'.phase.writing = true) →
      Said s' t.session x' le ag := by
    intro hag hd hw
    obtain h | h | h | ⟨h, hwr⟩ := h
    · exact .inl h
    · obtain h | ⟨-, -, h⟩ := leaving_set hi hset hs hk h
      · exact .inr (.inl h)
      · exact absurd h hd
    · exact .inr (.inr (.inl h))
    · obtain hwr | ⟨-, -, h1, h2⟩ := writing_set hi hset hs hk hwr
      · exact .inr (.inr (.inr ⟨h.trans hag.symm, hwr⟩))
      · rw [hw h1] at h2; cases h2
  have leave : t.kind ≠ .evaluation → t'.phase ≠ .done → Said s' t.session x' le ag :=
    fun h1 h2 => .inr (.inl (leaving_self hi hset hs hk h1 h2))
  cases hc with
  | check hp =>
    have hke := hP.is_evaluation (.inl hp)
    obtain h | h | h | ⟨h, hwr⟩ := h
    · exact .inl h
    · obtain h | ⟨-, h, -⟩ := leaving_set hi hset hs hk h
      · exact .inr (.inl h)
      · exact absurd hke h
    · exact .inr (.inr (.inl h))
    · obtain hwr | ⟨-, -, h1, -⟩ := writing_set hi hset hs hk hwr
      · exact .inr (.inr (.inr ⟨h, hwr⟩))
      · rw [hp] at h1; cases h1
  | refresh a hp =>
    obtain h | h | h | ⟨-, j, u, hj, hu1, hu2, hu3⟩ := h
    · exact .inl h
    · obtain h | ⟨-, -, h⟩ := leaving_set hi hset hs hk h
      · exact .inr (.inl h)
      · cases h
    · exact .inr (.inr (.inl h))
    · simp only [InOrder, ht] at hg
      rw [hg u (List.mem_of_getElem? hj) hu1 hu2] at hu3
      cases hu3
  | mark hp => exact leave (fun hk => (hP.evaluation hk).1 hp) (by simp)
  | clear hp => exact leave (fun hk => (hP.evaluation hk).2.1 hp) (by dsimp only; split <;> simp)
  | remove hp => exact leave (fun hk => (hP.evaluation hk).2.2 hp) (by simp)
  | lock hp => exact keep rfl (by simp) fun _ => rfl
  | same a cwd hp he =>
    have hev : le = x.event a cwd := Option.some.inj (hle.symm.trans he)
    cases hx : x.exited with
    | true => exact .inl (by rw [hev]; exact hx)
    | false =>
      have hke : t.kind = .evaluation := by
        by_contra hk
        rw [hP.marked hk (by simp [hp])] at hx
        cases hx
      obtain h | h | h | ⟨h, -⟩ := h
      · exact .inl h
      · obtain h | ⟨-, h, -⟩ := leaving_set hi hset hs hk h
        · exact .inr (.inl h)
        · exact absurd hke h
      · exact .inr (.inr (.inl h))
      · refine .inr (.inr (.inl ?_))
        rw [h, hev]
        exact (hP.read hke a hp hx).symm

/-! ## Sessions -/

structure Sound (s : State) (k : Nat) (x : Session) : Prop where
  marked : x.saidExit = true → x.exited = true
  named : ∀ le, x.lastEvent = some le → le.name = x.name
  said : ∀ le, x.lastEvent = some le → Said s k x le x.agent
  unlisted : x.exited = true → x.listed = false ∨ Leaving s k
  leaving : x.listed = false ∨ x.exited = true → x.saidExit = true ∨ Leaving s k
  newest : x.listed = true → Newest s k x
  logged : ∀ le, Newest s k x → x.lastEvent = some le → lastFor x.name (s.log.map Broadcast.event) = some le

def SoundAll (s : State) : Prop := ∀ (k : Nat) (x : Session), s.sessions[k]? = some x → Sound s k x

theorem saidExit_iff {x : Session} : x.saidExit = true ↔ ∃ le, x.lastEvent = some le ∧ le.exited = true := by
  unfold Session.saidExit
  cases x.lastEvent <;> simp

theorem lastFor_snoc_self {n : String} {l : List PtyEvent} {e : PtyEvent} (h : e.name = n) :
    lastFor n (l ++ [e]) = some e := by
  simp [lastFor, h]

theorem lastFor_append {n : String} {l m : List PtyEvent} : lastFor n (l ++ m) = (lastFor n m).or (lastFor n l) := by
  rw [lastFor, List.filter_append, List.getLast?_append]
  rfl

theorem lastFor_eq_none {n : String} {l : List PtyEvent} : lastFor n l = none ↔ ∀ e ∈ l, e.name ≠ n := by
  simp [lastFor]

theorem lastFor_some {n : String} {l : List PtyEvent} {e : PtyEvent} (h : lastFor n l = some e) :
    e ∈ l ∧ e.name = n := by
  have := List.mem_of_getLast? h
  rw [List.mem_filter] at this
  exact ⟨this.1, by simpa using this.2⟩

theorem lastFor_append_of_ne {n : String} {l m : List PtyEvent} (h : ∀ e ∈ m, e.name ≠ n) :
    lastFor n (l ++ m) = lastFor n l := by
  rw [lastFor_append, lastFor_eq_none.mpr h]
  rfl

section
variable {s s' : State} {k : Nat} {x x' : Session} (hx : s.sessions[k]? = some x)
  (hset : s'.sessions = s.sessions.set k x')
  (hn : x'.name = x.name)
include hx hset hn

/-- A session changes and keeps its name: the names in order are as before. -/
theorem newest_set {j : Nat} {y y' : Session} (hy : s.sessions[j]? = some y) (hy' : s'.sessions[j]? = some y')
    (hyn : y'.name = y.name) : Newest s' j y' ↔ Newest s j y := by
  have hk := lt_of_getElem?_some hx
  constructor
  · rintro ⟨-, h⟩
    refine ⟨hy, fun m z hm hz => ?_⟩
    rw [← hyn]
    by_cases hmk : m = k
    · subst hmk
      cases hx.symm.trans hz
      rw [← hn]
      exact h m x' hm (by rw [hset]; exact getElem?_set_self_some hx)
    · exact h m z hm (by rw [hset]; exact getElem?_set_other hmk hz)
  · rintro ⟨-, h⟩
    refine ⟨hy', fun m z hm hz => ?_⟩
    rw [hyn]
    rw [hset] at hz
    obtain ⟨rfl, rfl⟩ | ⟨-, hz⟩ := (getElem?_set_some_iff hk).mp hz
    · rw [hn]
      exact h m x hm hx
    · exact h m z hm hz

theorem sound_other {j : Nat} {y : Session} (hj : j ≠ k) (hy : s.sessions[j]? = some y) (h : Sound s j y)
    (hlv : Leaving s j → Leaving s' j) (hwr : Writing s j → Writing s' j)
    (hlog : Newest s j y → lastFor y.name (s'.log.map Broadcast.event) = lastFor y.name (s.log.map Broadcast.event)) :
    Sound s' j y := by
  have hy' : s'.sessions[j]? = some y := by
    rw [hset]
    exact getElem?_set_other hj hy
  have hnew := newest_set hx hset hn hy hy' rfl
  refine ⟨h.marked, h.named, fun le hle => ?_, fun he => ?_, fun hl => ?_, fun hl => hnew.mpr (h.newest hl),
    fun le hN hle => ?_⟩
  · exact said_mono hlv hwr rfl (h.said le hle)
  · exact (h.unlisted he).imp_right hlv
  · exact (h.leaving hl).imp_right hlv
  · have := hnew.mp hN
    rw [hlog this]
    exact h.logged le this hle

end

theorem sound_opened {s : State} (hi : SoundAll s) {name : String} (hn : s.get name = none) :
    SoundAll { s with sessions := s.sessions ++ [freshSession name] } := by
  intro k x hx
  obtain hx | ⟨rfl, rfl⟩ := getElem?_snoc_some_iff.mp hx
  · have h := hi k x hx
    refine ⟨h.marked, h.named, h.said, h.unlisted, h.leaving, fun hl => ?_, fun le hN hle => ?_⟩
    · obtain ⟨-, hnew⟩ := h.newest hl
      refine ⟨getElem?_snoc_some_iff.mpr (.inl hx), fun j y hj hy => ?_⟩
      obtain hy | ⟨-, rfl⟩ := getElem?_snoc_some_iff.mp hy
      · exact hnew j y hj hy
      · intro heq
        have := List.findIdx?_eq_none_iff.mp hn x (List.mem_of_getElem? hx)
        simp only [hl, Bool.true_and, beq_eq_false_iff_ne] at this
        exact this heq.symm
    · refine h.logged le ⟨hx, fun j y hj hy => hN.2 j y hj (getElem?_snoc_some_iff.mpr (.inl hy))⟩ hle
  · refine ⟨by simp [freshSession, Session.saidExit], by simp [freshSession], by simp [freshSession], by simp [freshSession],
      by simp [freshSession], fun _ => ⟨hx, fun j y hj hy => ?_⟩, by simp [freshSession]⟩
    have := lt_of_getElem?_some hy
    simp only [List.length_append, List.length_singleton] at this
    omega

theorem sound_started {s : State} (hi : SoundAll s) {a : Label} {k : Nat} {x x' : Session} {t : Task}
    (hx : s.sessions[k]? = some x) (hc : Start k a x x' t) : SoundAll ((s.setSession k x').spawn t) := by
  have hold : ∀ (j : Nat) (u : Task), s.tasks[j]? = some u → ((s.setSession k x').spawn t).tasks[j]? = some u :=
    fun j u hu => getElem?_snoc_some_iff.mpr (.inl hu)
  obtain ⟨h1, h2, h3, h4⟩ := hc.silent
  intro j y hy
  obtain ⟨rfl, rfl⟩ | ⟨hj, hy⟩ := (getElem?_set_some_iff (lt_of_getElem?_some hx)).mp hy
  · have h := hi j x hx
    have hsaid : x'.saidExit = x.saidExit := by rw [Session.saidExit, h1]; rfl
    have hy' : ((s.setSession j x').spawn t).sessions[j]? = some x' :=
      getElem?_set_self_some hx
    have hnew : Newest ((s.setSession j x').spawn t) j x' ↔ Newest s j x := newest_set hx rfl h2 hx hy' h2
    refine ⟨?_, ?_, ?_, ?_, ?_, ?_, ?_⟩
    · rw [hsaid, h3]; exact h.marked
    · rw [h1, h2]; exact h.named
    · intro le hle
      rw [h1] at hle
      rw [h4]
      exact said_mono (leaving_mono hold) (writing_mono hold) h4 (h.said le hle)
    · intro he
      rw [h3] at he
      obtain hl | hl := h.unlisted he
      · exact .inl (hc.unlisted hl)
      · exact .inr (leaving_mono hold hl)
    · intro hl
      rw [hsaid]
      by_cases hlx : x.listed = false ∨ x.exited = true
      · exact (h.leaving hlx).imp_right (leaving_mono hold)
      · -- it was in the table and alive: this is the kill
        refine .inr ⟨s.tasks.length, t, getElem?_snoc_some_iff.mpr (.inr ⟨rfl, rfl⟩), hc.session_eq, ?_⟩
        rw [h3] at hl
        cases hc with
        | schedule hr => exact absurd hl hlx
        | kill name => exact ⟨by simp, by simp⟩
        | reap => exact ⟨by simp, by simp⟩
    · intro hl
      refine hnew.mpr (h.newest ?_)
      cases hlx : x.listed with
      | true => rfl
      | false => rw [hc.unlisted hlx] at hl; cases hl
    · intro le hN hle
      rw [h1] at hle
      rw [h2]
      exact h.logged le (hnew.mp hN) hle
  · exact sound_other hx rfl h2 hj hy (hi j y hy) (leaving_mono hold) (writing_mono hold) fun _ => rfl

/-- A kill or a reap that is done has taken the session out of the table. -/
theorem Progress.done {t : Task} {x : Session} (h : Progress t x) (hk : t.kind ≠ .evaluation) (hd : t.phase = .done) :
    x.exited = true ∧ x.listed = false := by
  refine ⟨h.marked hk (by simp [hd]), ?_⟩
  cases hkind : t.kind with
  | evaluation => exact absurd hkind hk
  | kill => exact h.killed hkind
  | reap => exact h.reaped hkind (.inr hd)

/-- An evaluation leaves alone what says whether the session is there. -/
theorem Change.evaluation {i : Nat} {a : Label} {t t' : Task} {x x' : Session} {e : Option PtyEvent}
    (h : Change i a t x t' x' e)
    (hP : Progress t x) (hk : t.kind = .evaluation) : x'.listed = x.listed ∧ x'.exited = x.exited := by
  cases h with
  | mark hp => exact absurd hp (hP.evaluation hk).1
  | remove hp => exact absurd hp (hP.evaluation hk).2.2
  | check hp => exact ⟨rfl, rfl⟩
  | refresh a hp => exact ⟨rfl, rfl⟩
  | clear hp => exact ⟨rfl, rfl⟩
  | lock hp => exact ⟨rfl, rfl⟩
  | same a cwd hp he => exact ⟨rfl, rfl⟩
  | send a cwd hp he => exact ⟨rfl, rfl⟩

/-- A kill or a reap that ends silently finds its exit said. -/
theorem saidExit_of_done {i : Nat} {a : Label} {t t' : Task} {x x' : Session} (h : Change i a t x t' x' none)
    (hP : Progress t x)
    (hk : t.kind ≠ .evaluation) (hd : t'.phase = .done) : x.saidExit = true := by
  cases h with
  | same a cwd hp he => exact saidExit_iff.mpr ⟨_, he, hP.marked hk (by simp [hp])⟩
  | check hp => exact absurd hp (hP.exit hk).1
  | clear hp =>
    dsimp only at hd
    split at hd <;> cases hd
  | refresh a hp => cases hd
  | mark hp => cases hd
  | remove hp => cases hd
  | lock hp => cases hd

section
variable {s s' : State} {a : Label} {i : Nat} {t t' : Task} {x x' : Session} (ht : s.task i = some (t, x))
  (hset : s'.sessions = s.sessions.set t.session x') (htasks : s'.tasks = s.tasks.set i t') (hP : Progress t x)
  (hP' : Progress t' x')
  (h : Sound s t.session x)
include ht hset htasks hP hP' h

theorem sound_silent (hg : InOrder s a) (hc : Change i a t x t' x' none) (hlog : s'.log = s.log) :
    Sound s' t.session x' := by
  obtain ⟨hti, hx⟩ := task_some ht
  have hs := hc.session_eq
  have hk := hc.kind_eq
  obtain ⟨hle, hex⟩ := hc.silent
  have hx' : s'.sessions[t.session]? = some x' := by
    rw [hset]
    exact getElem?_set_self_some hx
  have hnew : Newest s' t.session x' ↔ Newest s t.session x := newest_set hx hset hc.name_eq hx hx' hc.name_eq
  have hsaid : x'.saidExit = x.saidExit := by rw [Session.saidExit, hle]; rfl
  refine ⟨?_, ?_, ?_, ?_, ?_, ?_, ?_⟩
  · rw [hsaid]
    exact fun hse => hex (h.marked hse)
  · rw [hle, hc.name_eq]
    exact h.named
  · intro le hl
    rw [hle] at hl
    by_cases hag : x'.agent = x.agent
    · rw [hag]
      exact said_change hg ht hc htasks hP hl (h.said le hl)
    · -- the move stores an agent
      cases hc with
      | refresh a hp =>
        have hke := hP.is_evaluation (.inr hp)
        exact .inr (.inr (.inr ⟨rfl, writing_self hti htasks hs hk hke rfl⟩))
      | clear hp =>
        have hke : t.kind ≠ .evaluation := fun hk => (hP.evaluation hk).2.1 hp
        exact .inr (.inl (leaving_self hti htasks hs hk hke (by dsimp only; split <;> simp)))
      | check hp => exact absurd rfl hag
      | mark hp => exact absurd rfl hag
      | remove hp => exact absurd rfl hag
      | lock hp => exact absurd rfl hag
      | same a cwd hp he => exact absurd rfl hag
  · intro he
    by_cases hke : t.kind = .evaluation
    · obtain ⟨h1, h2⟩ := hc.evaluation hP hke
      rw [h2] at he
      obtain hl | hl := h.unlisted he
      · exact .inl (h1.trans hl)
      · obtain hl | ⟨-, hl, -⟩ := leaving_set hti htasks hs hk hl
        · exact .inr hl
        · exact absurd hke hl
    · by_cases hd : t'.phase = .done
      · exact .inl (hP'.done (fun h => hke (hk.symm.trans h)) hd).2
      · exact .inr (leaving_self hti htasks hs hk hke hd)
  · intro hl
    rw [hsaid]
    by_cases hke : t.kind = .evaluation
    · obtain ⟨h1, h2⟩ := hc.evaluation hP hke
      rw [h1, h2] at hl
      obtain hl | hl := h.leaving hl
      · exact .inl hl
      · obtain hl | ⟨-, hl, -⟩ := leaving_set hti htasks hs hk hl
        · exact .inr hl
        · exact absurd hke hl
    · by_cases hd : t'.phase = .done
      · exact .inl (saidExit_of_done hc hP hke hd)
      · exact .inr (leaving_self hti htasks hs hk hke hd)
  · intro hl
    refine hnew.mpr (h.newest ?_)
    cases hlx : x.listed with
    | true => rfl
    | false => rw [hc.unlisted hlx] at hl; cases hl
  · intro le hN hl
    rw [hle] at hl
    rw [hc.name_eq, hlog]
    exact h.logged le (hnew.mp hN) hl

theorem sound_sent {e : PtyEvent} (hc : Change i a t x t' x' (some e)) (hlog : s'.log = s.log ++ [⟨t.session, e⟩]) :
    Sound s' t.session x' := by
  obtain ⟨hti, hx⟩ := task_some ht
  have hs := hc.session_eq
  have hk := hc.kind_eq
  have hx' : s'.sessions[t.session]? = some x' := by
    rw [hset]
    exact getElem?_set_self_some hx
  have hnew : Newest s' t.session x' ↔ Newest s t.session x := newest_set hx hset hc.name_eq hx hx' hc.name_eq
  cases hc with
  | send ag cwd hp he =>
    -- only an evaluation speaks of a live session
    have hke : x.exited = false → t.kind = .evaluation := by
      intro hex
      by_contra hk
      rw [hP.marked hk (by simp [hp])] at hex
      cases hex
    refine ⟨id, ?_, ?_, ?_, ?_, fun hl => hnew.mpr (h.newest hl), ?_⟩
    · rintro le ⟨⟩
      rfl
    · rintro le ⟨⟩
      cases hex : x.exited with
      | true => exact .inl hex
      | false => exact .inr (.inr (.inl (hP.read (hke hex) ag hp hex).symm))
    · intro hex
      obtain hl | hl := h.unlisted hex
      · exact .inl hl
      · obtain hl | ⟨-, h1, h2⟩ := leaving_set hti htasks hs hk hl
        · exact .inr hl
        · exact .inl (hP'.done h1 h2).2
    · intro hl
      cases hex : x.exited with
      | true => exact .inl hex
      | false =>
        obtain hse | hlv := h.leaving hl
        · rw [h.marked hse] at hex
          cases hex
        · obtain hlv | ⟨-, h1, -⟩ := leaving_set hti htasks hs hk hlv
          · exact .inr hlv
          · exact absurd (hke hex) h1
    · rintro le - ⟨⟩
      rw [hlog, List.map_append]
      exact lastFor_snoc_self rfl

end

/-- Of two sessions of one name the broadcaster is the later one. -/
theorem broadcast_other {s : State} {a : Label} {i : Nat} {t t' : Task} {x x' : Session} {e : Option PtyEvent}
    (hg : InOrder s a)
    (ht : s.task i = some (t, x)) (hc : Change i a t x t' x' e) {j : Nat} {y : Session} (hj : j ≠ t.session)
    (hN : Newest s j y) :
    ∀ b ∈ (e.map fun e => (⟨t.session, e⟩ : Broadcast)).toList, b.event.name ≠ y.name := by
  cases e with
  | none => simp
  | some e =>
    intro b hb
    obtain rfl : b = ⟨t.session, e⟩ := by simpa using hb
    cases hc with
    | send ag cwd hp he =>
      intro hn
      simp only [InOrder, ht, hp] at hg
      have hg := hg.resolve_left he
      obtain hjk | hjk := Nat.lt_or_gt_of_ne hj
      · exact hN.2 t.session x hjk (task_some ht).2 hn
      · have hjd : t.session + 1 + (j - (t.session + 1)) = j := by omega
        refine hg y ?_ hn.symm
        refine List.mem_of_getElem? (i := j - (t.session + 1)) ?_
        rw [List.getElem?_drop, hjd]
        exact hN.1

theorem sound_moved {s s' : State} {a : Label} {i : Nat} {t t' : Task} {x x' : Session} {e : Option PtyEvent}
    (hg : InOrder s a)
    (ht : s.task i = some (t, x)) (hc : Change i a t x t' x' e) (hset : s'.sessions = s.sessions.set t.session x')
    (htasks : s'.tasks = s.tasks.set i t')
    (hlog : s'.log = s.log ++ (e.map fun e => (⟨t.session, e⟩ : Broadcast)).toList)
    (hP : Progress t x) (hP' : Progress t' x') (hi : SoundAll s) : SoundAll s' := by
  obtain ⟨hti, hx⟩ := task_some ht
  have hself := hi t.session x hx
  intro j y hy'
  rw [hset] at hy'
  obtain ⟨rfl, rfl⟩ | ⟨hj, hy⟩ := (getElem?_set_some_iff (lt_of_getElem?_some hx)).mp hy'
  · cases e with
    | none => exact sound_silent ht hset htasks hP hP' hself hg hc (by simpa using hlog)
    | some e => exact sound_sent ht hset htasks hP hP' hself hc (by simpa using hlog)
  · refine sound_other hx hset hc.name_eq hj hy (hi j y hy) (fun hl => ?_) (fun hw => ?_) fun hN => ?_
    · obtain hl | ⟨h1, -⟩ := leaving_set hti htasks hc.session_eq hc.kind_eq hl
      · exact hl
      · exact absurd h1.symm hj
    · obtain hw | ⟨h1, -⟩ := writing_set hti htasks hc.session_eq hc.kind_eq hw
      · exact hw
      · exact absurd h1.symm hj
    · rw [hlog, List.map_append, lastFor_append_of_ne]
      intro e he
      obtain ⟨b, hb, rfl⟩ := List.mem_map.mp he
      exact broadcast_other hg ht hc hj hN b hb

theorem soundAll_init : SoundAll init := by
  intro k x hx
  simp [init] at hx

theorem soundAll_step {s s' : State} {a : Label} (hg : InOrder s a) (h : step s a = some s') (hP : TaskInv Progress s)
    (hi : SoundAll s) : SoundAll s' := by
  have hP' := progress_step hg h hP
  cases moves h with
  | quiet h1 h2 h3 =>
    intro k x hx
    rw [h1] at hx
    obtain ⟨g1, g2, g3, g4, g5, g6, g7⟩ := hi k x hx
    have hl : Leaving s' k = Leaving s k := by unfold Leaving; rw [h2]
    have hw : Writing s' k = Writing s k := by unfold Writing; rw [h2]
    have hN : Newest s' k x = Newest s k x := by unfold Newest; rw [h1]
    refine ⟨g1, g2, ?_, ?_, ?_, ?_, ?_⟩
    · unfold Said
      rw [hl, hw]
      exact g3
    · rw [hl]; exact g4
    · rw [hl]; exact g5
    · rw [hN]; exact g6
    · rw [hN, h3]; exact g7
  | opened name hl hn h =>
    rw [h]
    exact sound_opened hi hn
  | started k x x' t hx hc hl h =>
    rw [h]
    exact sound_started hi hx hc
  | moved i t t' x x' e ht hc hl h =>
    obtain ⟨hti, hx⟩ := task_some ht
    have ht' : s'.task i = some (t', x') := by
      subst h
      simp [State.task, State.setTask, State.setSession, lt_of_getElem?_some hti, lt_of_getElem?_some hx, hc.session_eq]
    exact sound_moved hg ht hc (by rw [h]; rfl) (by rw [h]; rfl) (by rw [h]) (hP.of_task ht) (hP'.of_task ht') hi

/-! ## What the newest session of a name said -/

/-- The session was there, a step has kept what it said, and nothing new is said under its name. -/
structure Kept (s s' : State) (k : Nat) (x x' : Session) : Prop where
  newest : Newest s k x
  name : x'.name = x.name
  last : x'.lastEvent = x.lastEvent
  log : ∃ new, s'.log = s.log ++ new ∧ ∀ b ∈ new, b.event.name ≠ x.name
  said : ∀ le ag, x.lastEvent = some le → Said s k x le ag → Said s' k x' le ag
  leaving : ∀ le, x.lastEvent = some le → le.exited = false → Leaving s k → Leaving s' k

/-- After a step the newest session of a name has said nothing yet, or the step broadcast what it
says, or it is as before. -/
theorem newest_step {s s' : State} {a : Label} (hg : InOrder s a) (h : step s a = some s') (hP : TaskInv Progress s)
    {k : Nat} {x' : Session} (hN : Newest s' k x') : x'.lastEvent = none ∨
      (∃ e, x'.lastEvent = some e ∧ e.name = x'.name ∧ s'.log = s.log ++ [⟨k, e⟩]) ∨ ∃ x, Kept s s' k x x' := by
  cases moves h with
  | quiet h1 h2 h3 =>
    have hl : Leaving s k → Leaving s' k := leaving_mono fun j u hu => by rw [h2]; exact hu
    have hw : Writing s k → Writing s' k := writing_mono fun j u hu => by rw [h2]; exact hu
    have hN : Newest s k x' := by unfold Newest at hN; rw [h1] at hN; exact hN
    exact .inr (.inr ⟨x', hN, rfl, rfl, ⟨[], by simp [h3], by simp⟩, fun le ag _ => said_mono hl hw rfl, fun _ _ _ => hl⟩)
  | opened name hlk hn h =>
    subst h
    obtain ⟨hx, hlater⟩ := hN
    obtain hx | ⟨-, rfl⟩ := getElem?_snoc_some_iff.mp hx
    · have hN : Newest s k x' := ⟨hx, fun j y hj hy => hlater j y hj (getElem?_snoc_some_iff.mpr (.inl hy))⟩
      exact .inr (.inr ⟨x', hN, rfl, rfl, ⟨[], by simp, by simp⟩, fun le ag _ => id, fun _ _ _ => id⟩)
    · exact .inl rfl
  | started m y y' t hy hc hlk h =>
    subst h
    have hold : ∀ (j : Nat) (u : Task), s.tasks[j]? = some u → ((s.setSession m y').spawn t).tasks[j]? = some u :=
      fun j u hu => getElem?_snoc_some_iff.mpr (.inl hu)
    obtain ⟨h1, h2, -, h4⟩ := hc.silent
    obtain ⟨rfl, rfl⟩ | ⟨hkm, hx⟩ := (getElem?_set_some_iff (lt_of_getElem?_some hy)).mp hN.1
    · exact .inr (.inr ⟨y, (newest_set hy rfl h2 hy hN.1 h2).mp hN, h2, h1,
        ⟨[], by simp [State.spawn, State.setSession], by simp⟩,
        fun le ag _ => said_mono (leaving_mono hold) (writing_mono hold) h4, fun _ _ _ => leaving_mono hold⟩)
    · exact .inr (.inr ⟨x', (newest_set hy rfl h2 hx hN.1 rfl).mp hN, rfl, rfl,
        ⟨[], by simp [State.spawn, State.setSession], by simp⟩,
        fun le ag _ => said_mono (leaving_mono hold) (writing_mono hold) rfl, fun _ _ _ => leaving_mono hold⟩)
  | moved i t t' y y' e ht hc hlk h =>
    obtain ⟨hti, hy⟩ := task_some ht
    have hset : s'.sessions = s.sessions.set t.session y' := by rw [h]; rfl
    have htasks : s'.tasks = s.tasks.set i t' := by rw [h]; rfl
    have hlog : s'.log = s.log ++ (e.map fun e => (⟨t.session, e⟩ : Broadcast)).toList := by rw [h]
    have hx' := hN.1
    rw [hset] at hx'
    obtain ⟨rfl, rfl⟩ | ⟨hkt, hx⟩ := (getElem?_set_some_iff (lt_of_getElem?_some hy)).mp hx'
    · have hN' : Newest s t.session y := (newest_set hy hset hc.name_eq hy hN.1 hc.name_eq).mp hN
      cases e with
      | some e =>
        cases hc with
        | send ag cwd hp he => exact .inr (.inl ⟨_, rfl, rfl, by simpa using hlog⟩)
      | none =>
        have hPt := hP.of_task ht
        refine .inr (.inr ⟨y, hN', hc.name_eq, hc.silent.1, ⟨[], by simpa using hlog, by simp⟩,
          fun le ag hle => said_change hg ht hc htasks hPt hle, fun le hle hex hl => ?_⟩)
        obtain hl | ⟨-, hk, hd⟩ := leaving_set hti htasks hc.session_eq hc.kind_eq hl
        · exact hl
        · -- a kill or a reap ends with the exit said
          have := saidExit_of_done hc hPt hk hd
          rw [Session.saidExit, hle] at this
          simp [hex] at this
    · have hN' : Newest s k x' := (newest_set hy hset hc.name_eq hx hN.1 rfl).mp hN
      have hl : Leaving s k → Leaving s' k := fun hl =>
        (leaving_set hti htasks hc.session_eq hc.kind_eq hl).resolve_right fun h => hkt h.1.symm
      have hw : Writing s k → Writing s' k := fun hw =>
        (writing_set hti htasks hc.session_eq hc.kind_eq hw).resolve_right fun h => hkt h.1.symm
      exact .inr (.inr ⟨x', hN', rfl, rfl, ⟨_, hlog, broadcast_other hg ht hc hkt hN'⟩, fun le ag _ => said_mono hl hw rfl,
        fun _ _ _ => hl⟩)

end Mux.Watch
