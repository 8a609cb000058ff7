import Mux.WatchInv

/-!
# What a watcher was told

What a watcher was told, will write, or has still to receive is one list: the last event of a name in
it is what the newest session of the name says, or the session is yet to be read.
-/

namespace Mux.Watch

open Lib

def View.todo : View → List Nat
  | .reading todo _ => todo
  | _ => []

/-- What was sent and what is to come, with the events a lag has dropped. -/
def Watcher.told (w : Watcher) (log : List Broadcast) : List PtyEvent :=
  w.sent ++ w.skipped ++ w.snapshot ++ (log.drop w.pos).map Broadcast.event

/-- The event says what the session said last, or it is newer and the session is about to say it. -/
def Current (s : State) (k : Nat) (x : Session) (le e : PtyEvent) : Prop :=
  (e.exited = le.exited ∨ le.exited = false ∧ Leaving s k) ∧ Said s k x le e.agent

/-- Of each name the last event told is current, unless its session is yet to be read. -/
def Agrees (s : State) (w : Watcher) : Prop :=
  ∀ k x le e, Newest s k x → x.lastEvent = some le → lastFor x.name (w.told s.log) = some e →
    k ∈ w.view.todo ∨ Current s k x le e

def Named (s : State) (name : String) : Prop := ∃ x ∈ s.sessions, x.name = name

structure WatcherInv (s : State) : Prop where
  idle : s.watcher.view = .idle → s.watcher.sent = [] ∧ s.watcher.snapshot = []
  pos : s.watcher.pos ≤ s.log.length
  skipped : s.watcher.view ≠ .behind → s.watcher.skipped = []
  behind : s.watcher.view = .behind → s.watcher.snapshot = []
  listed : ∀ k ∈ s.watcher.view.todo, ∃ x, s.sessions[k]? = some x ∧ x.listed = true
  logged : ∀ b ∈ s.log, Named s b.event.name
  named : ∀ e ∈ s.watcher.sent ++ s.watcher.snapshot, Named s e.name
  read : ∀ k todo ag x le, s.watcher.view = .reading (k :: todo) (some ag) → s.sessions[k]? = some x →
    x.lastEvent = some le → (∃ b ∈ s.log.drop s.watcher.pos, b.event.name = x.name) ∨ Said s k x le ag
  agrees : s.watcher.view ≠ .idle → Agrees s s.watcher

/-! ## Steps of the manager -/

def Label.watches : Label → Bool
  | .subscribe | .readTable _ | .readAgent | .readEvent _ | .unlockTable | .write | .recv => true
  | _ => false

theorem watcher_eq {s s' : State} {a : Label} (h : step s a = some s') (ha : a.watches = false) :
    s'.watcher = s.watcher := by
  cases a with
  | «open» name =>
    obtain ⟨-, -, rfl⟩ := open_some h
    rfl
  | scheduleAgent k =>
    obtain rfl | ⟨x, -, -, rfl⟩ := scheduleAgent_some h <;> rfl
  | kill name =>
    obtain ⟨-, k, x, -, -, rfl⟩ := kill_some h
    rfl
  | reap k =>
    obtain ⟨x, -, rfl⟩ := reap_some h
    rfl
  | check i =>
    obtain ⟨t, x, -, -, rfl⟩ := check_some h
    rfl
  | refresh i a =>
    obtain ⟨t, x, -, -, rfl⟩ := refresh_some h
    rfl
  | mark i =>
    obtain ⟨t, x, -, -, rfl⟩ := mark_some h
    rfl
  | clear i =>
    obtain ⟨t, x, -, -, rfl⟩ := clear_some h
    rfl
  | remove i =>
    obtain ⟨t, x, -, -, -, rfl⟩ := remove_some h
    rfl
  | lock i =>
    obtain ⟨t, x, -, -, -, rfl⟩ := lock_some h
    rfl
  | send i cwd =>
    obtain ⟨t, x, a, -, -, ⟨-, rfl⟩ | ⟨-, rfl⟩⟩ := send_some h <;> rfl
  | subscribe => cases ha
  | readTable order => cases ha
  | readAgent => cases ha
  | readEvent cwd => cases ha
  | unlockTable => cases ha
  | write => cases ha
  | recv => cases ha

theorem named_set {s s' : State} {k : Nat} {x x' : Session} (hx : s.sessions[k]? = some x)
    (hset : s'.sessions = s.sessions.set k x') (hn : x'.name = x.name) {n : String} (h : Named s n) : Named s' n := by
  obtain ⟨y, hy, rfl⟩ := h
  obtain ⟨j, hj⟩ := List.mem_iff_getElem?.mp hy
  rw [Named, hset]
  by_cases hjk : j = k
  · subst hjk
    cases hx.symm.trans hj
    exact ⟨x', List.mem_of_getElem? (getElem?_set_self_some hx), hn⟩
  · exact ⟨y, List.mem_of_getElem? (getElem?_set_other hjk hj), rfl⟩

/-- Names stay known, and what is broadcast is of a session. -/
theorem named_step {s s' : State} {a : Label} (h : step s a = some s') : (∀ n, Named s n → Named s' n) ∧
    ∃ new, s'.log = s.log ++ new ∧ ∀ b ∈ new, Named s' b.event.name := by
  cases moves h with
  | quiet h1 h2 h3 =>
    refine ⟨fun n hn => ?_, [], by simp [h3], by simp⟩
    unfold Named
    rw [h1]
    exact hn
  | opened name hl hn h =>
    subst h
    refine ⟨fun n hn => ?_, [], by simp, by simp⟩
    obtain ⟨x, hx, rfl⟩ := hn
    exact ⟨x, List.mem_append_left _ hx, rfl⟩
  | started k x x' t hx hc hl h =>
    subst h
    exact ⟨fun n => named_set hx rfl hc.silent.2.1, [], by simp [State.spawn, State.setSession], by simp⟩
  | moved i t t' x x' e ht hc hl h =>
    obtain ⟨-, hx⟩ := task_some ht
    have hset : s'.sessions = s.sessions.set t.session x' := by rw [h]; rfl
    have hkeep : ∀ n, Named s n → Named s' n := fun n => named_set hx hset hc.name_eq
    refine ⟨hkeep, _, by rw [h], fun b hb => ?_⟩
    cases hc with
    | send a cwd hp he =>
      obtain rfl : b = ⟨t.session, x.event a cwd⟩ := by simpa using hb
      exact hkeep _ ⟨x, List.mem_of_getElem? hx, rfl⟩
    | check hp => simp at hb
    | refresh a hp => simp at hb
    | mark hp => simp at hb
    | clear hp => simp at hb
    | remove hp => simp at hb
    | lock hp => simp at hb
    | same a cwd hp he => simp at hb

theorem listed_set {s s' : State} {m : Nat} {y y' : Session} (hy : s.sessions[m]? = some y)
    (hset : s'.sessions = s.sessions.set m y') (hly : y'.listed = y.listed) {k : Nat} {x : Session}
    (hx : s.sessions[k]? = some x)
    (hlx : x.listed = true) : ∃ x', s'.sessions[k]? = some x' ∧ x'.listed = true := by
  rw [hset]
  by_cases hkm : k = m
  · subst hkm
    cases hx.symm.trans hy
    exact ⟨y', getElem?_set_self_some hy, hly.trans hlx⟩
  · exact ⟨x, getElem?_set_other hkm hx, hlx⟩

theorem listed_step {s s' : State} {a : Label} (h : step s a = some s') (hl : s.tableLocked = true) {k : Nat}
    {x : Session}
    (hx : s.sessions[k]? = some x) (hlx : x.listed = true) : ∃ x', s'.sessions[k]? = some x' ∧ x'.listed = true := by
  cases moves h with
  | quiet h1 h2 h3 => exact ⟨x, by rw [h1]; exact hx, hlx⟩
  | opened name hn _ h => rw [hl] at hn; cases hn
  | started m y y' t hy hc hly h => exact listed_set hy (by rw [h]; rfl) (hly.resolve_right (by simp [hl])) hx hlx
  | moved i t t' y y' e ht hc hly h =>
    exact listed_set (task_some ht).2 (by rw [h]; rfl) (hly.resolve_right (by simp [hl])) hx hlx

theorem current_kept {s s' : State} {k : Nat} {x x' : Session} {le e : PtyEvent} (hk : Kept s s' k x x')
    (hle : x.lastEvent = some le)
    (h : Current s k x le e) : Current s' k x' le e := by
  obtain ⟨hex, hs⟩ := h
  exact ⟨hex.imp_right fun ⟨h1, h2⟩ => ⟨h1, hk.leaving le hle h1 h2⟩, hk.said le e.agent hle hs⟩

theorem told_append {w : Watcher} {log new : List Broadcast} (h : w.pos ≤ log.length) :
    w.told (log ++ new) = w.told log ++ new.map Broadcast.event := by
  rw [Watcher.told, Watcher.told, List.drop_append_of_le_length h, List.map_append, List.append_assoc _ _ (List.map _ new)]

theorem watcherInv_manager {s s' : State} {a : Label} (hg : InOrder s a) (h : step s a = some s')
    (ha : a.watches = false)
    (hP : TaskInv Progress s) (hS' : SoundAll s') (hi : WatcherInv s) : WatcherInv s' := by
  have hw := watcher_eq h ha
  obtain ⟨hnamed, new, hlog, hnew⟩ := named_step h
  have hlisted : ∀ k ∈ s.watcher.view.todo, ∃ x, s'.sessions[k]? = some x ∧ x.listed = true := by
    intro k hk
    obtain ⟨x, hx, hl⟩ := hi.listed k hk
    refine listed_step h ?_ hx hl
    unfold State.tableLocked
    cases hv : s.watcher.view <;> rw [hv] at hk <;> first | rfl | cases hk
  constructor
  · rw [hw]; exact hi.idle
  · rw [hw, hlog, List.length_append]
    exact Nat.le_add_right_of_le hi.pos
  · rw [hw]; exact hi.skipped
  · rw [hw]; exact hi.behind
  · rw [hw]; exact hlisted
  · rw [hlog]
    intro b hb
    obtain hb | hb := List.mem_append.mp hb
    · exact hnamed _ (hi.logged b hb)
    · exact hnew b hb
  · rw [hw]
    exact fun e he => hnamed _ (hi.named e he)
  · rw [hw]
    intro k todo ag x le hv hx hle
    have hl : x.listed = true := by
      obtain ⟨y, hy, hl⟩ := hlisted k (by simp [hv, View.todo])
      cases hx.symm.trans hy
      exact hl
    obtain hn | ⟨e, he, hname, hlog'⟩ | ⟨y, hk⟩ := newest_step hg h hP ((hS' k x hx).newest hl)
    · rw [hn] at hle; cases hle
    · refine .inl ⟨⟨k, e⟩, ?_, hname⟩
      rw [hlog', List.drop_append_of_le_length hi.pos]
      simp
    · rw [hk.last] at hle
      obtain ⟨b, hb, hbn⟩ | hs := hi.read k todo ag y le hv hk.newest.1 hle
      · refine .inl ⟨b, ?_, hbn.trans hk.name.symm⟩
        rw [hlog, List.drop_append_of_le_length hi.pos]
        exact List.mem_append_left _ hb
      · exact .inr (hk.said le ag hle hs)
  · rw [hw]
    intro hv k x le e hN hle hlast
    obtain hn | ⟨e', he, hname, hlog'⟩ | ⟨y, hk⟩ := newest_step hg h hP hN
    · rw [hn] at hle; cases hle
    · -- the step broadcast it
      rw [hlog', told_append hi.pos, List.map_singleton, lastFor_snoc_self hname] at hlast
      cases hlast
      cases he.symm.trans hle
      exact .inr ⟨.inl rfl, .inr (.inr (.inl rfl))⟩
    · obtain ⟨new', hlog', hne⟩ := hk.log
      rw [hk.last] at hle
      rw [hlog', told_append hi.pos, hk.name, lastFor_append_of_ne] at hlast
      · exact (hi.agrees hv k y le e hk.newest hle hlast).imp_right (current_kept hk hle)
      · intro d hd
        obtain ⟨b, hb, rfl⟩ := List.mem_map.mp hd
        exact hne b hb

/-! ## The newest session of a name -/

theorem get_some {s : State} {n : String} {k : Nat} (h : s.get n = some k) :
    ∃ x, s.sessions[k]? = some x ∧ x.listed = true ∧ x.name = n := by
  obtain ⟨hk, hp, -⟩ := List.findIdx?_eq_some_iff_getElem.mp h
  simp only [Bool.and_eq_true, beq_iff_eq] at hp
  exact ⟨_, List.getElem?_eq_getElem hk, hp⟩

theorem newest_unique {s : State} {j k : Nat} {x y : Session} (hx : Newest s j x) (hy : Newest s k y)
    (hn : x.name = y.name) :
    j = k := by
  obtain h | h | h := Nat.lt_trichotomy j k
  · exact absurd hn.symm (hx.2 k y h hy.1)
  · exact h
  · exact absurd hn (hy.2 j x h hx.1)

theorem newest_eq {s : State} {k : Nat} {x : Session} (h : Newest s k x) : s.newest x.name = some x := by
  obtain ⟨hk, hx⟩ := List.getElem?_eq_some_iff.mp h.1
  have hlater : (s.sessions.drop (k + 1)).filter (fun y => y.name = x.name) = [] := by
    rw [List.filter_eq_nil_iff]
    intro y hy
    obtain ⟨j, hj⟩ := List.mem_iff_getElem?.mp hy
    rw [List.getElem?_drop] at hj
    simpa using h.2 _ y (by omega) hj
  have hsplit : s.sessions = s.sessions.take k ++ x :: s.sessions.drop (k + 1) := by
    rw [← hx, List.getElem_cons_drop, List.take_append_drop]
  unfold State.newest
  rw [hsplit, List.filter_append, List.filter_cons, if_pos (by simp), hlater, List.getLast?_concat]

theorem exists_newest {s : State} {n : String} :
    ∀ (d k : Nat) (x : Session), s.sessions.length - k ≤ d → s.sessions[k]? = some x →
    x.name = n → ∃ j y, Newest s j y ∧ y.name = n
  | 0, k, x, hd, hx, _ => by
    have := lt_of_getElem?_some hx
    omega
  | d + 1, k, x, hd, hx, hn => by
    by_cases h : ∃ (j : Nat) (y : Session), k < j ∧ s.sessions[j]? = some y ∧ y.name = x.name
    · obtain ⟨j, y, hj, hy, hyn⟩ := h
      exact exists_newest d j y (by omega) hy (hyn.trans hn)
    · exact ⟨k, x, ⟨hx, fun j y hj hy hyn => h ⟨j, y, hj, hy, hyn⟩⟩, hn⟩

theorem exited_current {s : State} {k : Nat} {x : Session} {le : PtyEvent} (h : Sound s k x)
    (hle : x.lastEvent = some le) :
    x.exited = le.exited ∨ le.exited = false ∧ Leaving s k := by
  have hse : x.saidExit = le.exited := by rw [Session.saidExit, hle]; rfl
  cases hl : le.exited with
  | true => exact .inl (h.marked (hse.trans hl))
  | false =>
    cases hx : x.exited with
    | false => exact .inl rfl
    | true => exact .inr ⟨rfl, (h.leaving (.inr hx)).resolve_left (by simp [hse, hl])⟩

/-! ## Steps of the watch -/

theorem Agrees.of_told {s : State} {w w' : Watcher} (h : Agrees s w) (htold : w'.told s.log = w.told s.log)
    (htodo : w'.view.todo = w.view.todo) : Agrees s w' := by
  unfold Agrees
  rw [htold, htodo]
  exact h

theorem subscribe_watcherInv {s s' : State} (h : s.subscribe = some s') (hi : WatcherInv s) : WatcherInv s' := by
  unfold State.subscribe at h
  split at h
  · rename_i hv
    cases h
    obtain ⟨hsent, hsnap⟩ := hi.idle hv
    have hskip : s.watcher.skipped = [] := hi.skipped (by simp [hv])
    refine ⟨by simp, Nat.le_refl _, fun _ => hskip, fun _ => hsnap, by simp [View.todo], hi.logged, hi.named, by simp, ?_⟩
    -- nothing was told before
    intro _ k x le e hN hle hlast
    simp [Watcher.told, hsent, hskip, hsnap, lastFor] at hlast
  · cases h

theorem readAgent_watcherInv {s s' : State} (h : s.readAgent = some s') (hS : SoundAll s) (hi : WatcherInv s) :
    WatcherInv s' := by
  unfold State.readAgent at h
  split at h
  · rename_i k todo hv
    obtain ⟨x, hx, h⟩ := Option.bind_eq_some_iff.mp h
    cases h
    refine ⟨by simp, hi.pos, fun _ => hi.skipped (by simp [hv]), by simp, ?_, hi.logged, hi.named, ?_, ?_⟩
    · have := hi.listed
      rw [hv] at this
      exact this
    · rintro j todo' ag y le ⟨⟩ hy hle
      cases hx.symm.trans hy
      exact .inr ((hS k x hx).said le hle)
    · exact fun _ => (hi.agrees (by simp [hv])).of_told rfl (by rw [hv]; rfl)
  · cases h

theorem unlockTable_watcherInv {s s' : State} (h : s.unlockTable = some s') (hi : WatcherInv s) : WatcherInv s' := by
  unfold State.unlockTable at h
  split at h
  · rename_i hv
    cases h
    exact ⟨by simp, hi.pos, fun _ => hi.skipped (by simp [hv]), by simp, by simp [View.todo], hi.logged, hi.named, by simp,
      fun _ => (hi.agrees (by simp [hv])).of_told rfl (by rw [hv]; rfl)⟩
  · cases h

theorem write_watcherInv {s s' : State} (h : s.write = some s') (hi : WatcherInv s) : WatcherInv s' := by
  unfold State.write at h
  split at h
  · rename_i e rest hv hsnap
    cases h
    have hskip : s.watcher.skipped = [] := hi.skipped (by simp [hv])
    have hnamed := hi.named
    have hag := hi.agrees (by simp [hv])
    rw [hsnap] at hnamed
    refine ⟨by simp [hv], hi.pos, fun _ => hskip, by simp [hv], hi.listed, hi.logged, ?_, by simp [hv], fun _ => ?_⟩
    · intro d hd
      exact hnamed d (by simpa using hd)
    · exact hag.of_told (by simp [Watcher.told, hsnap, hskip]) rfl
  · cases h

theorem recv_watcherInv {s s' : State} (h : s.recv = some s') (hi : WatcherInv s) : WatcherInv s' := by
  unfold State.recv at h
  split at h
  · rename_i hv
    obtain ⟨hv, hsnap⟩ := hv
    have hskip : s.watcher.skipped = [] := hi.skipped (by simp [hv])
    have hnamed := hi.named
    have hag := hi.agrees (by simp [hv])
    have hpos := hi.pos
    dsimp only at h
    split at h
    · rename_i hlag
      cases h
      -- what is skipped and what is left is what was to come
      have hsplit : s.log.drop s.watcher.pos = (s.log.take (s.log.length - eventBacklog)).drop s.watcher.pos ++
          s.log.drop (s.log.length - eventBacklog) := by
        conv => lhs; rw [← List.take_append_drop (s.log.length - eventBacklog) s.log]
        refine List.drop_append_of_le_length ?_
        rw [List.length_take]
        omega
      refine ⟨by simp, Nat.sub_le _ _, by simp, fun _ => hsnap, by simp [View.todo], hi.logged, hnamed, by simp, fun _ => ?_⟩
      exact hag.of_told (by simp [Watcher.told, hsnap, hskip, hsplit, - List.map_drop, - List.map_take]) (by rw [hv]; rfl)
    · obtain ⟨b, hb, h⟩ := Option.bind_eq_some_iff.mp h
      cases h
      have hlt := lt_of_getElem?_some hb
      have hdrop : s.log.drop s.watcher.pos = b :: s.log.drop (s.watcher.pos + 1) := by
        rw [List.drop_eq_getElem_cons hlt]
        rw [List.getElem?_eq_getElem hlt] at hb
        rw [Option.some.inj hb]
      refine ⟨by simp [hv], hlt, fun _ => hskip, by simp [hv], hi.listed, hi.logged, ?_, by simp [hv], fun _ => ?_⟩
      · intro e he
        obtain he | he := List.mem_append.mp he
        · exact hnamed e (List.mem_append_left _ he)
        · obtain rfl := List.mem_singleton.mp he
          exact hi.logged b (List.mem_of_getElem? hb)
      · exact hag.of_told (by simp [Watcher.told, hsnap, hskip, hdrop, - List.map_drop]) rfl
  · cases h

/-- A session that is not in the table and of which a lag dropped an event has yet to say that it exited. -/
theorem dropped_leaving {s : State} {order : List Nat} (hg : InOrder s (.readTable order)) (hS : SoundAll s)
    {k : Nat} {x : Session}
    (hN : Newest s k x) (hl : x.listed = false) {d : PtyEvent} (hd : d ∈ s.watcher.skipped) (hdn : d.name = x.name)
    (htail : ∀ b ∈ s.log.drop s.watcher.pos, b.event.name ≠ x.name) : x.saidExit = false ∧ Leaving s k := by
  obtain hget | ⟨b, hb, hbn⟩ | hnew := hg d hd
  · obtain ⟨j, hj⟩ := Option.isSome_iff_exists.mp hget
    obtain ⟨y, hy, hyl, hyn⟩ := get_some hj
    have hjk := newest_unique ((hS j y hy).newest hyl) hN (hyn.trans hdn)
    subst hjk
    cases hy.symm.trans hN.1
    rw [hl] at hyl
    cases hyl
  · exact absurd (hbn.trans hdn) (htail b hb)
  · rw [hdn, newest_eq hN] at hnew
    have hse : x.saidExit = false := by simpa using hnew
    exact ⟨hse, ((hS k x hN.1).leaving (.inl hl)).resolve_left (by simp [hse])⟩

/-- The table is read again: of a name that is not in it the last event told is still current. -/
theorem readTable_watcherInv {s s' : State} {order : List Nat} (hg : InOrder s (.readTable order))
    (h : s.readTable order = some s')
    (hS : SoundAll s) (hi : WatcherInv s) : WatcherInv s' := by
  unfold State.readTable at h
  split at h
  · rename_i hv
    obtain ⟨hv, hperm⟩ := hv
    cases h
    have hsnap := hi.behind hv
    have hag := hi.agrees (by simp [hv])
    have hmem : ∀ k, k ∈ order ↔ ∃ x, s.sessions[k]? = some x ∧ x.listed = true := by
      intro k
      rw [hperm.mem_iff, List.mem_filter, List.mem_range]
      constructor
      · rintro ⟨hk, hl⟩
        rw [List.getElem?_eq_getElem hk] at hl
        exact ⟨_, List.getElem?_eq_getElem hk, hl⟩
      · rintro ⟨x, hx, hl⟩
        exact ⟨lt_of_getElem?_some hx, by rw [hx]; exact hl⟩
    refine ⟨by simp, hi.pos, fun _ => rfl, by simp, fun k hk => (hmem k).mp hk, hi.logged, hi.named, by simp, ?_⟩
    intro _ k x le e hN hle hlast
    cases hl : x.listed with
    | true => exact .inl ((hmem k).mpr ⟨x, hN.1, hl⟩)
    | false =>
      refine .inr ?_
      have hold : lastFor x.name (s.watcher.told s.log) = some e → Current s k x le e := fun hlast =>
        (hag k x le e hN hle hlast).resolve_left (by simp [hv, View.todo])
      have htail : ∀ l, lastFor x.name (l ++ (s.log.drop s.watcher.pos).map Broadcast.event) =
        (lastFor x.name ((s.log.drop s.watcher.pos).map Broadcast.event)).or (lastFor x.name l) := fun l => lastFor_append
      simp only [Watcher.told, hsnap, List.append_nil] at hlast hold
      rw [htail] at hlast hold
      cases ht : lastFor x.name ((s.log.drop s.watcher.pos).map Broadcast.event) with
      | some d =>
        rw [ht] at hlast hold
        exact hold hlast
      | none =>
        rw [ht, Option.none_or] at hlast hold
        by_cases hsk : ∀ d ∈ s.watcher.skipped, d.name ≠ x.name
        · rw [lastFor_append_of_ne hsk] at hold
          exact hold hlast
        · -- an event of it was dropped, and it has not said that it exited
          push Not at hsk
          obtain ⟨d, hd, hdn⟩ := hsk
          have htail : ∀ b ∈ s.log.drop s.watcher.pos, b.event.name ≠ x.name :=
            fun b hb => lastFor_eq_none.mp ht _ (List.mem_map_of_mem hb)
          have hlv := dropped_leaving hg hS hN hl hd hdn htail
          have hex : le.exited = false := by simpa [Session.saidExit, hle] using hlv.1
          exact ⟨.inr ⟨hex, hlv.2⟩, .inr (.inl hlv.2)⟩
  · cases h

/-- A session is read: what the snapshot says of it is current, and so is what comes after. -/
theorem readEvent_watcherInv {s s' : State} {cwd : Option String} (h : s.readEvent cwd = some s') (hS : SoundAll s)
    (hi : WatcherInv s) : WatcherInv s' := by
  unfold State.readEvent at h
  split at h
  · rename_i k todo ag hv
    obtain ⟨x, hx, h⟩ := Option.bind_eq_some_iff.mp h
    cases h
    have hskip : s.watcher.skipped = [] := hi.skipped (by simp [hv])
    have hag := hi.agrees (by simp [hv])
    have hlisted := hi.listed
    rw [hv] at hlisted
    have hl : x.listed = true := by
      obtain ⟨y, hy, hl⟩ := hlisted k (by simp [View.todo])
      cases hx.symm.trans hy
      exact hl
    have hNx := (hS k x hx).newest hl
    refine ⟨by simp, hi.pos, fun _ => hskip, by simp, fun j hj => hlisted j (List.mem_cons_of_mem _ hj), hi.logged, ?_,
      by simp, ?_⟩
    · intro e he
      rw [← List.append_assoc, List.mem_append, List.mem_singleton] at he
      obtain he | rfl := he
      · exact hi.named e he
      · exact ⟨x, List.mem_of_getElem? hx, rfl⟩
    · intro _ j y le e hN hle hlast
      simp only [Watcher.told, hskip, List.append_nil] at hlast
      rw [lastFor_append, ← List.append_assoc] at hlast
      by_cases hjk : j = k
      · subst hjk
        cases hx.symm.trans hN.1
        refine .inr ?_
        cases ht : lastFor x.name ((s.log.drop s.watcher.pos).map Broadcast.event) with
        | some d =>
          -- the last broadcast is still to come
          have hlog := (hS j x hx).logged le hN hle
          rw [← List.take_append_drop s.watcher.pos s.log, List.map_append, lastFor_append, ht] at hlog
          rw [ht] at hlast
          cases hlast
          cases hlog
          exact ⟨.inl rfl, .inr (.inr (.inl rfl))⟩
        | none =>
          have hself : (x.event ag cwd).name = x.name := rfl
          rw [ht, Option.none_or, lastFor_snoc_self hself] at hlast
          cases hlast
          have hex := exited_current (hS j x hx) hle
          refine ⟨hex, (hi.read j todo ag x le hv hx hle).resolve_left ?_⟩
          rintro ⟨b, hb, hbn⟩
          exact lastFor_eq_none.mp ht _ (List.mem_map_of_mem hb) hbn
      · have hne : y.name ≠ x.name := fun hn => hjk (newest_unique hN hNx hn)
        rw [lastFor_append_of_ne] at hlast
        · have := hag j y le e hN hle (by rw [Watcher.told, lastFor_append, hskip, List.append_nil]; exact hlast)
          refine this.imp_left fun hj => ?_
          rw [hv] at hj
          exact (List.mem_cons.mp hj).resolve_left hjk
        · intro d hd
          obtain rfl := List.mem_singleton.mp hd
          exact Ne.symm hne
  · cases h

/-! ## Runs -/

theorem watcherInv_init : WatcherInv init := by
  refine ⟨fun _ => ⟨rfl, rfl⟩, Nat.le_refl _, fun _ => rfl, fun _ => rfl, ?_, ?_, ?_, ?_, fun h => absurd rfl h⟩
  · simp [init, View.todo]
  · simp [init]
  · simp [init]
  · simp [init]

structure Inv (s : State) : Prop where
  progress : TaskInv Progress s
  sound : SoundAll s
  watcher : WatcherInv s

theorem inv_step {s s' : State} {a : Label} (hg : InOrder s a) (h : step s a = some s') (hi : Inv s) : Inv s' := by
  have hS' := soundAll_step hg h hi.progress hi.sound
  refine ⟨progress_step hg h hi.progress, hS', ?_⟩
  by_cases ha : a.watches = false
  · exact watcherInv_manager hg h ha hi.progress hS' hi.watcher
  · cases a with
    | subscribe => exact subscribe_watcherInv h hi.watcher
    | readTable order => exact readTable_watcherInv hg h hi.sound hi.watcher
    | readAgent => exact readAgent_watcherInv h hi.sound hi.watcher
    | readEvent cwd => exact readEvent_watcherInv h hi.sound hi.watcher
    | unlockTable => exact unlockTable_watcherInv h hi.watcher
    | write => exact write_watcherInv h hi.watcher
    | recv => exact recv_watcherInv h hi.watcher
    | _ => exact absurd rfl ha

/-- Nothing is in progress, and the watcher has received and written everything. -/
structure Settled (s : State) : Prop where
  tasks : ∀ t ∈ s.tasks, t.phase = .done
  view : s.watcher.view = .serving
  snapshot : s.watcher.snapshot = []
  drained : s.watcher.pos = s.log.length

def State.live (s : State) (name : String) : Option Session :=
  (s.get name).bind fun k => s.sessions[k]?.filter fun x => !x.exited

/-- The last event sent for a name says whether a live session has it, and that session's last
emitted agent. -/
def ViewAgrees (s : State) : Prop :=
  ∀ name e, lastFor name s.watcher.sent = some e →
    (∀ x, s.live name = some x → e.exited = false ∧ x.lastEvent.map PtyEvent.agent = some e.agent) ∧
      (s.live name = none → e.exited = true)

theorem Settled.not_leaving {s : State} (h : Settled s) (k : Nat) : ¬ Leaving s k := by
  rintro ⟨j, u, hj, -, -, hd⟩
  exact hd (h.tasks u (List.mem_of_getElem? hj))

theorem Settled.not_writing {s : State} (h : Settled s) (k : Nat) : ¬ Writing s k := by
  rintro ⟨j, u, hj, -, -, hw⟩
  rw [h.tasks u (List.mem_of_getElem? hj)] at hw
  cases hw

theorem live_some {s : State} {name : String} {x : Session} (h : s.live name = some x) :
    ∃ k : Nat, s.sessions[k]? = some x ∧ x.listed = true ∧ x.name = name ∧ x.exited = false := by
  obtain ⟨k, hk, hx⟩ := Option.bind_eq_some_iff.mp h
  obtain ⟨y, hy, hl, hn⟩ := get_some hk
  rw [hy, Option.filter_eq_some_iff] at hx
  obtain ⟨hxy, hex⟩ := hx
  cases hxy
  exact ⟨k, hy, hl, hn, by simpa using hex⟩

/-- With nothing in progress, the newest session of a name that no live session has said that it exited. -/
theorem Settled.saidExit {s : State} (h : Settled s) (hS : SoundAll s) {k : Nat} {x : Session} (hN : Newest s k x)
    (hlive : s.live x.name = none) : x.saidExit = true := by
  have hsound := hS k x hN.1
  refine (hsound.leaving ?_).resolve_right (h.not_leaving k)
  by_contra hcon
  rw [not_or, Bool.not_eq_false, Bool.not_eq_true] at hcon
  obtain ⟨hl, hex⟩ := hcon
  have hget : (s.get x.name).isSome = true := by
    unfold State.get
    rw [List.findIdx?_isSome, List.any_eq_true]
    exact ⟨x, List.mem_of_getElem? hN.1, by simp [hl]⟩
  obtain ⟨j, hj⟩ := Option.isSome_iff_exists.mp hget
  obtain ⟨y, hy, hyl, hyn⟩ := get_some hj
  obtain rfl := newest_unique ((hS j y hy).newest hyl) hN hyn
  cases hy.symm.trans hN.1
  simp [State.live, hj, hy, hex] at hlive

/-- In a run in which the evaluations of a session do not overlap, only the newest session of a name
broadcasts, and no lag loses the exit of a name, a settled watcher agrees with the table, once
every session in it has emitted. -/
theorem watch_view_agrees (tr : List Label) (s : State) (h : exec step init tr = some s)
    (hg : Meets step InOrder init tr)
    (hset : Settled s) (hspoke : ∀ x ∈ s.sessions, x.listed = true → x.lastEvent.isSome = true) : ViewAgrees s := by
  have hi : Inv s := exec_inv_of_meets (fun _ _ _ hg hs hi => inv_step hg hs hi) hg h
    ⟨taskInv_init _, soundAll_init, watcherInv_init⟩
  intro name e hlast
  have hskip : s.watcher.skipped = [] := hi.watcher.skipped (by simp [hset.view])
  have htold : s.watcher.told s.log = s.watcher.sent := by simp [Watcher.told, hskip, hset.snapshot, hset.drained]
  obtain ⟨he, rfl⟩ := lastFor_some hlast
  obtain ⟨y, hy, hyn⟩ := hi.watcher.named e (List.mem_append_left _ he)
  obtain ⟨m, hm⟩ := List.mem_iff_getElem?.mp hy
  obtain ⟨k, x, hN, hn⟩ := exists_newest _ m y (Nat.le_refl _) hm hyn
  rw [← hn] at hlast ⊢
  -- the newest session of the name has emitted
  have hcur : ∀ le, x.lastEvent = some le → e.exited = le.exited ∧ (le.exited = true ∨ e.agent = le.agent) := by
    intro le hle
    obtain hk | ⟨hex, hsaid⟩ := hi.watcher.agrees (by simp [hset.view]) k x le e hN hle (by rw [htold]; exact hlast)
    · simp [hset.view, View.todo] at hk
    · refine ⟨hex.resolve_right fun h => hset.not_leaving k h.2, ?_⟩
      obtain h | h | h | ⟨-, h⟩ := hsaid
      · exact .inl h
      · exact absurd h (hset.not_leaving k)
      · exact .inr h
      · exact absurd h (hset.not_writing k)
  constructor
  · intro z hz
    obtain ⟨j, hj, hl, hzn, hzx⟩ := live_some hz
    obtain rfl := newest_unique ((hi.sound j z hj).newest hl) hN hzn
    cases hj.symm.trans hN.1
    obtain ⟨le, hle⟩ := Option.isSome_iff_exists.mp (hspoke x (List.mem_of_getElem? hj) hl)
    obtain ⟨hex, hag⟩ := hcur le hle
    have hlex : le.exited = false := by
      by_contra hcon
      have := (hi.sound j x hj).marked (saidExit_iff.mpr ⟨le, hle, by simpa using hcon⟩)
      rw [hzx] at this
      cases this
    refine ⟨hex.trans hlex, ?_⟩
    rw [hle, hag.resolve_left (by simp [hlex])]
    rfl
  · intro hlive
    obtain ⟨le, hle, hlex⟩ := saidExit_iff.mp (hset.saidExit hi.sound hN hlive)
    exact (hcur le hle).1.trans hlex

def claudeIdle : AgentInfo := ⟨"claude", "idle", ""⟩

/-- A session is opened, seen, killed and opened again, with a snapshot in between. -/
def reopened : List Label :=
  [.open "a", .scheduleAgent 0, .check 0, .refresh 0 (some claudeIdle), .lock 0, .send 0 none, .subscribe, .readTable [0], .readAgent,
    .readEvent (some "/"), .unlockTable, .write, .kill "a", .mark 1, .clear 1, .lock 1, .send 1 none, .recv, .write, .open "a",
    .scheduleAgent 1, .check 2, .refresh 2 none, .lock 2, .send 2 none, .recv, .write]

theorem watch_view_agrees_reopened : ∃ s, exec step init reopened = some s ∧
    s.watcher.sent = [⟨"a", some claudeIdle, some "/", false⟩, ⟨"a", none, none, true⟩, ⟨"a", none, none, false⟩] ∧ ViewAgrees s :=
  ⟨_, rfl, rfl, watch_view_agrees reopened _ rfl (by decide) ⟨by decide, rfl, rfl, rfl⟩ (by decide)⟩

/-- The kill of a session emits after its name was opened again and the new session seen. -/
def lateExit : List Label :=
  [.subscribe, .readTable [], .unlockTable, .open "a", .scheduleAgent 0, .check 0, .refresh 0 none, .lock 0, .send 0 none, .kill "a",
    .open "a", .scheduleAgent 1, .check 2, .refresh 2 none, .lock 2, .send 2 none, .mark 1, .clear 1, .lock 1, .send 1 none, .reap 0,
    .mark 3, .clear 3, .remove 3, .lock 3, .send 3 none, .recv, .write, .recv, .write, .recv, .write]

theorem late_exit_seen_last : ∃ s, exec step init lateExit = some s ∧ Settled s ∧
    (∀ x ∈ s.sessions, x.listed = true → x.lastEvent.isSome = true) ∧
    s.watcher.sent = [⟨"a", none, none, false⟩, ⟨"a", none, none, false⟩, ⟨"a", none, none, true⟩] ∧
    (s.live "a").map Session.lastEvent = some (some ⟨"a", none, none, false⟩) ∧ ¬ ViewAgrees s := by
  refine ⟨_, rfl, ⟨by decide, rfl, rfl, rfl⟩, by decide, rfl, rfl, fun h => ?_⟩
  have := ((h "a" ⟨"a", none, none, true⟩ rfl).1 _ rfl).1
  cases this

end Mux.Watch
