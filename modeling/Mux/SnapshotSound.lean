import Mathlib.Data.List.Dedup
import Mathlib.Data.List.Forall2
import Mux.WindowFocus

/-!
# Snapshots of a window

A window is rebuilt session by session, each restore focusing a pane of its own session.
The ids of different sessions differ, so every focus call reaches a view that does not have
the keys yet and the session is told. What comes back is the list of the sessions that had a
tree.
-/

namespace Mux.Tiling

open Lib

/-- The panes a restore makes. -/
def SessionSnapshot.ids (saved : SessionSnapshot) : List PaneId := saved.tree.leaves.dedup

theorem SessionSnapshot.mem_ids {saved : SessionSnapshot} {x : PaneId} : x ∈ saved.ids ↔ x ∈ saved.tree.leaves :=
  List.mem_dedup

namespace Window

/-! ## Restoring the sessions -/

/-- A restored session, once its focus call is made. -/
def restored (ref : Nat) (saved : SessionSnapshot) : Session :=
  ((Session.new ref).rebuild saved).setFocused (some saved.aim)

def restoredAll : Nat → List SessionSnapshot → List Session
  | _, [] => []
  | ref, saved :: rest => restored ref saved :: restoredAll (ref + 1) rest

theorem keys_newSessions (ref : Nat) (saved : List SessionSnapshot) :
    (newSessions ref saved).flatMap Session.keys = [] := by
  induction saved generalizing ref with
  | nil => rfl
  | cons first rest ih => rw [newSessions, List.flatMap_cons, ih]; rfl

theorem length_restoredAll (ref : Nat) (saved : List SessionSnapshot) :
    (restoredAll ref saved).length = saved.length := by
  induction saved generalizing ref with
  | nil => rfl
  | cons first rest ih => rw [restoredAll, List.length_cons, ih, List.length_cons]

theorem count_restored (ref : Nat) (saved : SessionSnapshot) (x : PaneId) :
    (restored ref saved).keys.count x = saved.ids.count x :=
  ((Session.new ref).count_rebuild saved x).trans (List.count_dedup saved.tree.leaves x).symm

theorem restored_good {saved : SessionSnapshot} (hone : ∀ x, saved.tree.leaves.count x ≤ 1) (ref : Nat) :
    (restored ref saved).Good :=
  ⟨Session.count_rebuild_new rfl hone, saved.aim, rfl, (rebuild_mem rfl saved _).mpr saved.aim_mem⟩

theorem restoredAll_good {saved : List SessionSnapshot} (hone : ∀ s ∈ saved, ∀ x, s.tree.leaves.count x ≤ 1)
    (ref : Nat) :
    ∀ s ∈ restoredAll ref saved, s.Good := by
  induction saved generalizing ref with
  | nil => exact fun s hs => absurd hs List.not_mem_nil
  | cons first rest ih =>
    intro s hs
    obtain rfl | hs := List.mem_cons.mp hs
    · exact restored_good (hone first List.mem_cons_self) ref
    · exact ih (fun s hs => hone s (List.mem_cons_of_mem _ hs)) (ref + 1) s hs

theorem count_restoredAll (saved : List SessionSnapshot) (ref : Nat) (x : PaneId) :
    ((restoredAll ref saved).flatMap Session.keys).count x = (saved.flatMap SessionSnapshot.ids).count x := by
  induction saved generalizing ref with
  | nil => rfl
  | cons first rest ih => rw [restoredAll, count_flatMap_cons, count_flatMap_cons, count_restored, ih]

theorem restoredAll_focused (saved : List SessionSnapshot) (ref : Nat) :
    ∀ s ∈ restoredAll ref saved, s.tree.isSome = true ∧ ∃ f, s.focusedID = some f ∧ f ∈ s.keys := by
  induction saved generalizing ref with
  | nil => exact fun s hs => absurd hs List.not_mem_nil
  | cons first rest ih =>
    intro s hs
    obtain rfl | hs := List.mem_cons.mp hs
    · exact ⟨rfl, first.aim, rfl, (rebuild_mem rfl first _).mpr first.aim_mem⟩
    · exact ih (ref + 1) s hs

/-- Session by session; `before` are the ones that are back. -/
theorem restoreEach_eq : ∀ (saved : List SessionSnapshot) (ref : Nat) (w : Window) (before : List Session),
    w.sessions = before ++ newSessions ref saved →
    (∀ x, (before.flatMap Session.keys).count x + (saved.flatMap SessionSnapshot.ids).count x ≤ 1) →
    (∀ r, w.responder = some r → r ∉ saved.flatMap SessionSnapshot.ids) →
    (w.restoreEach before.length saved).sessions = before ++ restoredAll ref saved ∧
    (w.restoreEach before.length saved).active = w.active := by
  intro saved
  induction saved with
  | nil => intro ref w before h _ _; exact ⟨h, rfl⟩
  | cons first rest ih =>
    intro ref w before h hone hr
    have hget : w.sessions[before.length]? = some (Session.new ref) := by
      rw [h]
      simp [newSessions]
    have haim : first.aim ∈ first.ids := SessionSnapshot.mem_ids.mpr first.aim_mem
    have hedit : (w.edit before.length fun s => s.rebuild first).sessions =
        before ++ (Session.new ref).rebuild first :: newSessions (ref + 1) rest := by
      show w.sessions.modify before.length _ = _
      rw [h, newSessions, modify_append_cons]
    have honce : ∀ x, (w.edit before.length fun s => s.rebuild first).keys.count x ≤ 1 := fun x => by
      have h1 := hone x
      have h2 : ((Session.new ref).rebuild first).keys.count x = first.ids.count x := count_restored ref first x
      unfold Window.keys
      rw [hedit, count_flatMap_append, count_flatMap_cons, keys_newSessions, h2]
      rw [count_flatMap_cons] at h1
      simp only [List.count_nil]
      omega
    have hresp : w.responder ≠ some first.aim := fun hc =>
      hr _ hc (List.mem_flatMap.mpr ⟨first, List.mem_cons_self, haim⟩)
    have hrestore : w.restore before.length first = ((w.edit before.length fun s => s.rebuild first).edit before.length
        fun s => s.setFocused (some first.aim)).setResponder (some first.aim) := by
      rw [restore_eq hget rfl]
      exact focus_eq honce (get_edit hget _) ((rebuild_mem rfl first _).mpr first.aim_mem) hresp
    have hsess : (w.restore before.length first).sessions =
        (before ++ [restored ref first]) ++ newSessions (ref + 1) rest := by
      rw [hrestore, List.append_assoc]
      show (w.edit before.length fun s => s.rebuild first).sessions.modify before.length _ = _
      rw [hedit, modify_append_cons]
      rfl
    obtain ⟨h1, h2⟩ := ih (ref + 1) (w.restore before.length first) (before ++ [restored ref first]) hsess
      (fun x => by
        have h1 := hone x
        rw [count_flatMap_append, count_flatMap_cons, count_restored]
        rw [count_flatMap_cons] at h1
        simp only [List.flatMap_nil, List.count_nil]
        omega)
      (fun r hc hmem => by
        rw [hrestore] at hc
        obtain rfl : first.aim = r := Option.some.inj hc
        have h1 := hone first.aim
        rw [count_flatMap_cons] at h1
        have h2 := List.count_pos_iff.mpr hmem
        have h3 := List.count_pos_iff.mpr haim
        omega)
    rw [List.length_append, List.length_singleton] at h1 h2
    have hactive : (w.restore before.length first).active = w.active := by
      rw [hrestore]
      rfl
    refine ⟨?_, h2.trans hactive⟩
    show ((w.restore before.length first).restoreEach (before.length + 1) rest).sessions = _
    rw [h1, List.append_assoc]
    rfl

/-- The focused pane of the active session is told what it was told before. -/
theorem focusActive_same {w : Window} (hone : ∀ x, w.keys.count x ≤ 1) {s : Session} (hs : w.activeSession = some s)
    (hfocus : ∃ f, s.focusedID = some f ∧ f ∈ s.keys) : w.focusActive.sessions = w.sessions := by
  obtain ⟨f, hf, hmem⟩ := hfocus
  obtain ⟨p, hp⟩ := Session.pane?_of_mem hmem
  have heq : w.focusActive = w.focus f := by
    unfold focusActive Session.focusedPane
    rw [hs, Option.bind_some, hf, Option.bind_some, hp]
    exact congrArg w.focus (Session.pane?_id hp)
  rw [heq]
  by_cases hr : w.responder = some f
  · rw [focus, if_pos hr]
  · rw [focus_eq hone hs hmem hr]
    show w.sessions.modify w.active _ = w.sessions
    refine modify_of_fixed hs ?_
    unfold Session.setFocused
    rw [← hf]

section
variable {w : Window} (hr : w.responder = none) (fresh : Nat) {saved : List SessionSnapshot} (hne : saved ≠ [])
  (active : Int) (hone : ∀ x, (saved.flatMap SessionSnapshot.ids).count x ≤ 1)
include hr hne hone

/-- The last focus call finds everything as it is. -/
theorem restoreSessions_eq :
    (w.restoreSessions fresh saved active).sessions = restoredAll fresh saved ∧
    (w.restoreSessions fresh saved active).active = min active.toNat (saved.length - 1) ∧
    ∃ v : Window, v.sessions = restoredAll fresh saved ∧ v.active = min active.toNat (saved.length - 1) ∧
      w.restoreSessions fresh saved active = v.focusActive := by
  obtain ⟨h1, h2⟩ := restoreEach_eq saved fresh
    ((w.setSessions (newSessions fresh saved)).setActive (min active.toNat (saved.length - 1))) [] rfl
    (fun x => by simpa using hone x) fun r hc => by
      have hc : w.responder = some r := hc
      rw [hr] at hc
      cases hc
  have hunfold : w.restoreSessions fresh saved active = (((w.setSessions (newSessions fresh saved)).setActive
      (min active.toNat (saved.length - 1))).restoreEach 0 saved).focusActive := by
    unfold restoreSessions
    rw [if_neg (by rw [List.isEmpty_iff]; exact hne)]
  rw [hunfold]
  generalize ((w.setSessions (newSessions fresh saved)).setActive (min active.toNat (saved.length - 1))).restoreEach 0
    saved = v at h1 h2 ⊢
  have h1 : v.sessions = restoredAll fresh saved := h1
  have h2 : v.active = min active.toNat (saved.length - 1) := h2
  have honce : ∀ x, v.keys.count x ≤ 1 := fun x => by
    unfold Window.keys
    rw [h1, count_restoredAll]
    exact hone x
  have hlt : v.active < v.sessions.length := by
    have hpos := List.length_pos_iff.mpr hne
    rw [h1, h2, length_restoredAll]
    omega
  have hget : v.activeSession = some v.sessions[v.active] := List.getElem?_eq_getElem hlt
  have hmem : v.sessions[v.active] ∈ restoredAll fresh saved := h1 ▸ List.getElem_mem hlt
  have hsame := focusActive_same honce hget (restoredAll_focused saved fresh _ hmem).2
  exact ⟨hsame.trans h1, (shaped_focusActive v).active.trans h2, v, h1, h2, rfl⟩

end

theorem restoreSessions_full {w : Window} (hr : w.responder = none) (fresh : Nat) {saved : List SessionSnapshot}
    (hne : saved ≠ []) (active : Int) (hone : ∀ x, (saved.flatMap fun s => s.tree.leaves).count x ≤ 1) :
    (w.restoreSessions fresh saved active).Full ∧ (w.restoreSessions fresh saved active).Law := by
  have heach : ∀ s ∈ saved, ∀ x, s.tree.leaves.count x ≤ 1 := fun s hs x =>
    Nat.le_trans (count_le_flatMap (fun s : SessionSnapshot => s.tree.leaves) x hs) (hone x)
  have hids : ∀ x, (saved.flatMap SessionSnapshot.ids).count x ≤ 1 := fun x => by
    have hle : (saved.flatMap SessionSnapshot.ids).count x ≤ (saved.flatMap fun s => s.tree.leaves).count x :=
      count_flatMap_mono x fun s _ => (List.dedup_sublist s.tree.leaves).count_le x
    exact Nat.le_trans hle (hone x)
  obtain ⟨-, -, v, h1, h2, heq⟩ := restoreSessions_eq hr fresh hne active hids
  have hpos := List.length_pos_iff.mpr hne
  rw [heq]
  refine focusActive_spec (fun x => ?_) ?_ ?_
  · unfold Window.keys
    rw [h1, count_restoredAll]
    exact hids x
  · rw [h1]
    exact restoredAll_good heach fresh
  · rw [h1, h2, length_restoredAll]
    omega

end Window

/-! ## What comes back -/

namespace Session

/-- The same tree, panes with all their data, focus and zoom. -/
structure Same (s s' : Session) : Prop where
  tree : s'.tree = s.tree
  panes : ∀ x, s'.pane? x = s.pane? x
  focused : s'.focusedID = s.focusedID
  zoomed : s'.zoomedID = s.zoomedID

theorem pane?_setPane (s : Session) (p : PaneView) (x : PaneId) :
    (s.setPane p).pane? x = if x = p.id then some p else s.pane? x := by
  unfold setPane pane?
  rw [List.find?_append, List.find?_filter]
  by_cases hx : x = p.id
  · subst hx
    have hnone : (s.panes.find? fun q => decide ((!(q.id == p.id)) = true ∧ (q.id == p.id) = true)) = none := by
      rw [List.find?_eq_none]
      intro q _
      simp
    rw [if_pos rfl, hnone, Option.none_or]
    simp
  · have hsame : (fun q : PaneView => decide ((!(q.id == p.id)) = true ∧ (q.id == x) = true)) = fun q => q.id == x := by
      funext q
      by_cases hq : q.id = x
      · simp [hq, hx]
      · simp [hq]
    rw [if_neg hx, hsame, List.find?_cons_of_neg (by simpa using Ne.symm hx), List.find?_nil, Option.or_none]

theorem pane?_rebuild (s : Session) (saved : SessionSnapshot) (x : PaneId) :
    (s.rebuild saved).pane? x =
      if x ∈ saved.tree.leaves then some (PaneView.restored x (saved.panes.lookup x)) else s.pane? x := by
  have hfold : ∀ (ids : List PaneId) (s : Session),
      (ids.foldl (fun s id => s.setPane (PaneView.restored id (saved.panes.lookup id))) s).pane? x =
        if x ∈ ids then some (PaneView.restored x (saved.panes.lookup x)) else s.pane? x := by
    intro ids
    induction ids with
    | nil => intro s; simp
    | cons id ids ih =>
      intro s
      rw [List.foldl_cons, ih, pane?_setPane]
      by_cases hx : x ∈ ids
      · simp [hx]
      · by_cases he : x = id
        · subst he
          simp [hx, PaneView.restored]
        · simp [hx, he, PaneView.restored]
  exact hfold saved.tree.leaves s

theorem lookup_snapshot (l : List PaneView) (x : PaneId) :
    (l.map fun p => (p.id, p.snapshot)).lookup x = (l.find? fun p => p.id == x).map PaneView.snapshot := by
  induction l with
  | nil => rfl
  | cons p l ih =>
    rw [List.map_cons, List.lookup_cons]
    by_cases hx : x = p.id
    · rw [List.find?_cons_of_pos (by simpa using hx.symm), beq_iff_eq.mpr hx]
      rfl
    · rw [List.find?_cons_of_neg (by simpa using Ne.symm hx), ← ih, beq_eq_false_iff_ne.mpr hx]

end Session

/-- Absent and default say the same. -/
theorem PaneView.restored_snapshot (p : PaneView) : PaneView.restored p.id (some p.snapshot) = p := by
  cases p with
  | mk id pwd target fontDelta requiresExisting =>
    unfold restored snapshot
    by_cases hf : fontDelta = 0
    · cases requiresExisting <;> simp [hf]
    · cases requiresExisting <;> simp [hf]

namespace Session

/-- The panes are the leaves as a set, and the focus is one of them. -/
def Whole (s : Session) : Prop :=
  (∀ x, x ∈ s.keys ↔ x ∈ s.leaves) ∧ ∃ f, s.focusedID = some f ∧ f ∈ s.keys

theorem restored_same {s : Session} (hs : s.Whole) {saved : SessionSnapshot} (h : s.snapshot = some saved)
    (ref : Nat) :
    s.Same (Window.restored ref saved) := by
  obtain ⟨tree, htree, rfl⟩ := Option.map_eq_some_iff.mp h
  have hleaves : ∀ x, x ∈ s.keys ↔ x ∈ tree.leaves := fun x => by
    have := hs.1 x
    rw [Session.leaves, htree] at this
    exact this
  refine ⟨htree.symm, fun x => ?_, ?_, rfl⟩
  · show ((Session.new ref).rebuild _).pane? x = _
    rw [pane?_rebuild]
    by_cases hx : x ∈ tree.leaves
    · obtain ⟨p, hp⟩ := pane?_of_mem ((hleaves x).mpr hx)
      have hlook : (s.panes.map fun p => (p.id, p.snapshot)).lookup x = some p.snapshot := by
        rw [lookup_snapshot]
        exact congrArg (Option.map PaneView.snapshot) hp
      rw [if_pos hx, hlook, hp, ← pane?_id hp, PaneView.restored_snapshot]
    · rw [if_neg hx]
      cases hp : s.pane? x with
      | none => rfl
      | some p => exact absurd ((hleaves x).mp (pane?_mem hp)) hx
  · obtain ⟨f, hf, hmem⟩ := hs.2
    show some (SessionSnapshot.aim _) = s.focusedID
    unfold SessionSnapshot.aim
    simp only [hf, Option.filter_some, List.contains_iff_mem.mpr ((hleaves f).mp hmem), if_true, Option.getD_some]

end Session

/-- The same tree, pane data, focus and zoom, as saved. -/
structure SessionSnapshot.Same (t t' : SessionSnapshot) : Prop where
  tree : t'.tree = t.tree
  panes : ∀ x, t'.panes.lookup x = t.panes.lookup x
  focused : t'.focused = t.focused
  zoomed : t'.zoomed = t.zoomed

theorem Session.Same.snapshot {s s' : Session} (h : s.Same s') {t t' : SessionSnapshot} (ht : s.snapshot = some t)
    (ht' : s'.snapshot = some t') : t.Same t' := by
  obtain ⟨tree, htree, rfl⟩ := Option.map_eq_some_iff.mp ht
  obtain ⟨tree', htree', rfl⟩ := Option.map_eq_some_iff.mp ht'
  refine ⟨?_, fun x => ?_, h.focused, h.zoomed⟩
  · have := h.tree
    rw [htree, htree'] at this
    exact Option.some.inj this
  · rw [Session.lookup_snapshot, Session.lookup_snapshot]
    exact congrArg (Option.map PaneView.snapshot) (h.panes x)

namespace Window

/-- The sessions that have a tree. -/
def filled (w : Window) : List Session := w.sessions.filter fun s => s.tree.isSome

/-- The active session, or where it has no panes the next one that has, or the last. -/
def shown (w : Window) : Option Session :=
  ((w.sessions.drop w.active).find? fun s => s.tree.isSome).or w.filled.getLast?

/-- Every session is empty or whole, and no pane is in two of them. -/
structure Whole (w : Window) : Prop where
  once : w.keys.Nodup
  sessions : ∀ s ∈ w.sessions, s.Empty ∨ s.Whole

theorem snapshot_isSome (s : Session) : s.snapshot.isSome = s.tree.isSome := Option.isSome_map

theorem length_snapshots (l : List Session) :
    (l.filterMap Session.snapshot).length = (l.filter fun s => s.tree.isSome).length := by
  rw [List.length_filterMap_eq_countP, List.countP_eq_length_filter]
  exact congrArg List.length (List.filter_congr fun s _ => snapshot_isSome s)

section
variable {l : List Session} (hl : ∀ s ∈ l, s.Empty ∨ s.Whole)
include hl

theorem restoredAll_same (ref : Nat) :
    List.Forall₂ Session.Same (l.filter fun s => s.tree.isSome) (restoredAll ref (l.filterMap Session.snapshot)) := by
  induction l generalizing ref with
  | nil => exact .nil
  | cons s l ih =>
    have hrest := ih fun t ht => hl t (List.mem_cons_of_mem _ ht)
    cases htree : s.tree with
    | none =>
      rw [List.filter_cons_of_neg (by simp [htree]), List.filterMap_cons_none (by simp [Session.snapshot, htree])]
      exact hrest ref
    | some t =>
      have hsnap : s.snapshot = some ⟨t, s.panes.map fun p => (p.id, p.snapshot), s.focusedID, s.zoomedID⟩ := by
        rw [Session.snapshot, htree]
        rfl
      rw [List.filter_cons_of_pos (by simp [htree]), List.filterMap_cons_some hsnap]
      refine .cons ?_ (hrest (ref + 1))
      obtain he | hw := hl s List.mem_cons_self
      · rw [he.1] at htree
        cases htree
      · exact Session.restored_same hw hsnap ref

theorem count_snapshots (x : PaneId) :
    ((l.filterMap Session.snapshot).flatMap SessionSnapshot.ids).count x ≤ (l.flatMap Session.keys).count x := by
  induction l with
  | nil => exact Nat.le_refl _
  | cons s l ih =>
    have hrest := ih fun t ht => hl t (List.mem_cons_of_mem _ ht)
    rw [count_flatMap_cons]
    cases htree : s.tree with
    | none =>
      rw [List.filterMap_cons_none (by simp [Session.snapshot, htree])]
      exact Nat.le_trans hrest (Nat.le_add_left _ _)
    | some t =>
      have hsnap : s.snapshot = some ⟨t, s.panes.map fun p => (p.id, p.snapshot), s.focusedID, s.zoomedID⟩ := by
        rw [Session.snapshot, htree]
        rfl
      rw [List.filterMap_cons_some hsnap, count_flatMap_cons]
      refine Nat.add_le_add ?_ hrest
      show (t.leaves.dedup).count x ≤ _
      rw [List.count_dedup]
      split
      · rename_i hx
        obtain he | hw := hl s List.mem_cons_self
        · rw [he.1] at htree
          cases htree
        · have := (hw.1 x).mpr (by rw [Session.leaves, htree]; exact hx)
          exact List.count_pos_iff.mpr this
      · exact Nat.zero_le _

end

/-- The index that is saved is that of the session shown. -/
theorem shown_eq (w : Window) :
    w.filled[min ((w.sessions.take w.active).filterMap Session.snapshot).length (w.filled.length - 1)]? = w.shown := by
  have hsplit : w.filled = ((w.sessions.take w.active).filter fun s => s.tree.isSome) ++
      (w.sessions.drop w.active).filter fun s => s.tree.isSome := by
    unfold filled
    rw [← List.filter_append, List.take_append_drop]
  have hhead : ((w.sessions.drop w.active).find? fun s => s.tree.isSome) =
      ((w.sessions.drop w.active).filter fun s => s.tree.isSome).head? := List.head?_filter.symm
  unfold shown
  rw [length_snapshots, hhead, hsplit]
  generalize ((w.sessions.take w.active).filter fun s => s.tree.isSome) = before
  cases hafter : (w.sessions.drop w.active).filter fun s => s.tree.isSome with
  | nil =>
    rw [List.append_nil, List.head?_nil, Option.none_or, List.getLast?_eq_getElem?]
    rw [Nat.min_eq_right (by omega)]
  | cons s after =>
    rw [List.head?_cons, Option.some_or, Nat.min_eq_left (by rw [List.length_append, List.length_cons]; omega)]
    simp

/-- `v` is `w` again, without its empty sessions. -/
structure Back (w v : Window) : Prop where
  sessions : List.Forall₂ Session.Same w.filled v.filled
  filled : w.filled ≠ [] → ∀ s ∈ v.sessions, s.tree.isSome = true
  active : ∀ s, w.activeSession = some s → s.tree.isSome = true → ∃ s', v.activeSession = some s' ∧ s.Same s'
  shown : ∀ s, w.shown = some s → ∃ s', v.activeSession = some s' ∧ s.Same s'
  again : List.Forall₂ SessionSnapshot.Same w.snapshot.sessions v.snapshot.sessions
  index : v.snapshot.activeSession = w.snapshot.activeSession

theorem shown_of_active {w : Window} {s : Session} (hs : w.activeSession = some s) (ht : s.tree.isSome = true) :
    w.shown = some s := by
  obtain ⟨hlt, hget⟩ := List.getElem?_eq_some_iff.mp hs
  unfold shown
  rw [List.drop_eq_getElem_cons hlt, hget, List.find?_cons, ht]
  rfl

theorem snapshots_same {l l' : List Session} (h : List.Forall₂ Session.Same l l')
    (hl : ∀ s ∈ l, s.tree.isSome = true) :
    List.Forall₂ SessionSnapshot.Same (l.filterMap Session.snapshot) (l'.filterMap Session.snapshot) := by
  induction h with
  | nil => exact .nil
  | cons hs _ ih =>
    rename_i s s' l l' _
    have hsome := hl s List.mem_cons_self
    obtain ⟨t, ht⟩ := Option.isSome_iff_exists.mp ((snapshot_isSome s).trans hsome)
    obtain ⟨t', ht'⟩ := Option.isSome_iff_exists.mp ((snapshot_isSome s').trans (by rw [hs.tree]; exact hsome))
    rw [List.filterMap_cons_some ht, List.filterMap_cons_some ht']
    exact .cons (hs.snapshot ht ht') (ih fun x hx => hl x (List.mem_cons_of_mem _ hx))

theorem filterMap_filled (w : Window) : w.filled.filterMap Session.snapshot = w.sessions.filterMap Session.snapshot := by
  unfold filled
  rw [List.filterMap_filter]
  refine congrArg (fun f => w.sessions.filterMap f) (funext fun s => ?_)
  cases ht : s.tree with
  | none => simp [Session.snapshot, ht]
  | some t => simp

section
variable {w : Window} (hw : w.Whole) (id ref fresh : Nat)
include hw

/-- At least one session has panes. -/
theorem restore_snapshot (hne : w.filled ≠ []) :
    ((new id ref).restoreSessions fresh w.snapshot.sessions w.snapshot.activeSession).sessions =
      restoredAll fresh w.snapshot.sessions ∧
    ((new id ref).restoreSessions fresh w.snapshot.sessions w.snapshot.activeSession).active =
      min ((w.sessions.take w.active).filterMap Session.snapshot).length (w.filled.length - 1) := by
  have hlen : w.snapshot.sessions.length = w.filled.length := length_snapshots w.sessions
  have hsaved : w.snapshot.sessions ≠ [] := by
    intro h
    rw [h] at hlen
    exact hne (List.length_eq_zero_iff.mp hlen.symm)
  obtain ⟨h1, h2, -⟩ := restoreSessions_eq (w := new id ref) rfl fresh hsaved w.snapshot.activeSession fun x =>
    Nat.le_trans (count_snapshots hw.sessions x) (List.nodup_iff_count.mp hw.once x)
  refine ⟨h1, h2.trans ?_⟩
  have hactive : w.snapshot.activeSession.toNat =
      min ((w.sessions.take w.active).filterMap Session.snapshot).length (w.snapshot.sessions.length - 1) := rfl
  rw [hactive, hlen]
  omega

theorem snapshot_round_trip :
    w.Back ((new id ref).restoreSessions fresh w.snapshot.sessions w.snapshot.activeSession) := by
  by_cases hne : w.filled = []
  · -- nothing was saved, and the new window stays as it is
    have hsaved : w.snapshot.sessions = [] := by
      rw [← List.length_eq_zero_iff, show w.snapshot.sessions.length = w.filled.length from length_snapshots w.sessions,
        hne, List.length_nil]
    have hindex : w.snapshot.activeSession = 0 := by
      show ((min _ (w.snapshot.sessions.length - 1) : Nat) : Int) = 0
      rw [hsaved, List.length_nil, Nat.min_zero]
      rfl
    have hnone : w.shown = none := by
      rw [← shown_eq, hne]
      rfl
    have hsame : (new id ref).restoreSessions fresh w.snapshot.sessions w.snapshot.activeSession = new id ref := by
      rw [hsaved]
      rfl
    rw [hsame]
    refine ⟨by rw [hne]; exact .nil, fun h => absurd hne h, fun s hs ht => ?_, fun s hs => ?_, ?_, ?_⟩
    · rw [shown_of_active hs ht] at hnone
      cases hnone
    · rw [hnone] at hs
      cases hs
    · rw [hsaved]
      exact .nil
    · rw [hindex]
      rfl
  · obtain ⟨h1, h2⟩ := restore_snapshot hw id ref fresh hne
    generalize (new id ref).restoreSessions fresh w.snapshot.sessions w.snapshot.activeSession = v at h1 h2 ⊢
    have hall : ∀ s ∈ v.sessions, s.tree.isSome = true := by
      rw [h1]
      exact fun s hs => (restoredAll_focused _ fresh s hs).1
    have hfilled : v.filled = v.sessions := List.filter_eq_self.mpr hall
    have hsame : List.Forall₂ Session.Same w.filled v.filled := by
      rw [hfilled, h1]
      exact restoredAll_same hw.sessions fresh
    have hshown : ∀ s, w.shown = some s → ∃ s', v.activeSession = some s' ∧ s.Same s' := by
      intro s hs
      rw [← shown_eq, ← h2] at hs
      obtain ⟨hlt, hget⟩ := List.getElem?_eq_some_iff.mp hs
      have hlt' : v.active < v.filled.length := hsame.length_eq ▸ hlt
      have hs' := hsame.get hlt hlt'
      rw [List.get_eq_getElem, List.get_eq_getElem, hget] at hs'
      refine ⟨v.filled[v.active], ?_, hs'⟩
      rw [← List.getElem?_eq_getElem hlt', hfilled]
      rfl
    refine ⟨hsame, fun _ => hall, fun s hs ht => hshown s (shown_of_active hs ht), hshown, ?_, ?_⟩
    · have := snapshots_same hsame fun s hs => (List.mem_filter.mp hs).2
      rw [filterMap_filled, filterMap_filled] at this
      exact this
    · have hlen : v.filled.length = w.filled.length := hsame.length_eq.symm
      have hsel : ((v.sessions.take v.active).filterMap Session.snapshot).length = v.active := by
        rw [length_snapshots, List.filter_eq_self.mpr fun s hs => hall s (List.mem_of_mem_take hs), List.length_take]
        have := List.length_pos_iff.mpr hne
        rw [← hfilled, hlen]
        omega
      show ((min _ ((v.sessions.filterMap Session.snapshot).length - 1) : Nat) : Int) =
        (min _ ((w.sessions.filterMap Session.snapshot).length - 1) : Nat)
      have hv : (v.sessions.filterMap Session.snapshot).length = w.filled.length := (length_snapshots _).trans hlen
      have hw' : (w.sessions.filterMap Session.snapshot).length = w.filled.length := length_snapshots _
      rw [hsel, hv, hw', h2]
      omega

end

/-- A pane with metadata. -/
def paneA : PaneView := ⟨1, some "/src", some "ix:vm", 2, true⟩

def paneB : PaneView := ⟨2, none, none, 0, false⟩

/-- Two sessions around an empty one; the last one is active, split and zoomed. -/
def mixed : Window :=
  ⟨7, [⟨0, some (.leaf 3), [⟨3, none, none, 0, false⟩], some 3, none, []⟩, Session.new 1,
    ⟨2, some (.split .vertical (3 / 10) (.leaf 1) (.leaf 2)), [paneB, paneA], some 2, some 1, []⟩], 2, [], none⟩

theorem mixed_whole : mixed.Whole := by
  refine ⟨by decide, fun s hs => ?_⟩
  have hs : s ∈ [_, _, _] := hs
  rw [List.mem_cons, List.mem_cons, List.mem_singleton] at hs
  obtain rfl | rfl | rfl := hs
  · refine .inr ⟨fun x => ?_, 3, rfl, by decide⟩
    exact Iff.rfl
  · exact .inl ⟨rfl, rfl⟩
  · refine .inr ⟨fun x => ?_, 2, rfl, by decide⟩
    show x ∈ [2, 1] ↔ x ∈ [1, 2]
    rw [List.mem_pair, List.mem_pair, or_comm]

theorem snapshot_round_trip_mixed :
    mixed.Whole ∧ mixed.Back ((new 7 9).restoreSessions 10 mixed.snapshot.sessions mixed.snapshot.activeSession) :=
  ⟨mixed_whole, snapshot_round_trip mixed_whole 7 9 10⟩

/-- The empty session is the active one. -/
def emptyShown : Window := ⟨7, [⟨0, some (.leaf 2), [paneB], some 2, none, []⟩, Session.new 1], 1, [], none⟩

theorem empty_session_not_restored :
    ¬ ∀ (w : Window) (id ref fresh : Nat), w.Whole → w.sessions.countP (fun s => s.tree.isNone) ≤ 1 →
      ∀ s, w.activeSession = some s → ∃ s', ((new id ref).restoreSessions fresh w.snapshot.sessions
        w.snapshot.activeSession).activeSession = some s' ∧ s.Same s' := by
  intro h
  have hwhole : emptyShown.Whole := by
    refine ⟨by decide, fun s hs => ?_⟩
    have hs : s ∈ [_, _] := hs
    rw [List.mem_cons, List.mem_singleton] at hs
    obtain rfl | rfl := hs
    · exact .inr ⟨fun x => Iff.rfl, 2, rfl, by decide⟩
    · exact .inl ⟨rfl, rfl⟩
  obtain ⟨s', hs', hsame⟩ := h emptyShown 7 9 10 hwhole (by decide) (Session.new 1) rfl
  have htree : s'.tree = some (.leaf 2) := by
    have := congrArg (fun o : Option Session => o.bind fun s => s.tree) hs'
    exact this.symm
  rw [hsame.tree] at htree
  cases htree

end Window

end Mux.Tiling
