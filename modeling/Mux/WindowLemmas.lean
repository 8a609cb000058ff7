import Mux.AppWindows
import Mux.Lib.Count

/-!
# What the operations do to panes and leaves

`total` counts a pane over the sessions and the closed panes of a window. A session is `Ok`
when no leaf occurs more often than the pane is a key, which with distinct keys says that
the leaves are distinct keys. Each operation is described by its effect on these counts.
-/

namespace Mux.Tiling

open Lib

/-! ## Panes of a session -/

namespace Session

def Ok (s : Session) : Prop := ∀ x, (leavesOf s.tree).count x ≤ s.keys.count x

def leaves (s : Session) : List PaneId := leavesOf s.tree

theorem contains_iff {s : Session} {id : PaneId} : s.contains id = true ↔ id ∈ s.keys :=
  List.contains_iff_mem

theorem pane?_id {s : Session} {id : PaneId} {p : PaneView} (h : s.pane? id = some p) : p.id = id := by
  have hp := List.find?_some h
  exact eq_of_beq hp

theorem pane?_mem {s : Session} {id : PaneId} {p : PaneView} (h : s.pane? id = some p) : id ∈ s.keys := by
  rw [← pane?_id h]
  exact List.mem_map_of_mem (List.mem_of_find?_eq_some h)

theorem pane?_of_mem {s : Session} {id : PaneId} (h : id ∈ s.keys) : ∃ p, s.pane? id = some p := by
  obtain ⟨p, hp, rfl⟩ := List.mem_map.mp h
  cases hf : s.pane? p.id with
  | some q => exact ⟨q, rfl⟩
  | none => exact absurd (beq_self_eq_true p.id) (List.find?_eq_none.mp hf p hp)

theorem focusedPane_some {s : Session} {p : PaneView} (h : s.focusedPane = some p) :
    s.focusedID = some p.id ∧ s.pane? p.id = some p ∧ p.id ∈ s.keys := by
  obtain ⟨id, hid, hp⟩ := Option.bind_eq_some_iff.mp h
  obtain rfl := pane?_id hp
  exact ⟨hid, hp, pane?_mem hp⟩

theorem count_filter_keys (l : List PaneView) (id x : PaneId) :
    ((l.filter fun q => !(q.id == id)).map fun p => p.id).count x =
      if x = id then 0 else (l.map fun p => p.id).count x := by
  induction l with
  | nil => simp
  | cons q l ih =>
    by_cases hq : q.id = id
    · rw [List.filter_cons_of_neg (by simp [hq]), ih, List.map_cons]
      by_cases hx : x = id
      · simp [hx]
      · rw [if_neg hx, if_neg hx, List.count_cons_of_ne (fun h => hx (h.symm.trans hq))]
    · rw [List.filter_cons_of_pos (by simp [hq]), List.map_cons, List.map_cons]
      by_cases hx : x = q.id
      · subst hx
        rw [if_neg hq] at ih ⊢
        rw [List.count_cons_self, List.count_cons_self, ih]
      · rw [List.count_cons_of_ne (Ne.symm hx), List.count_cons_of_ne (Ne.symm hx), ih]

theorem count_setPane (s : Session) (p : PaneView) (x : PaneId) :
    (s.setPane p).keys.count x = if x = p.id then 1 else s.keys.count x := by
  have hf := count_filter_keys s.panes p.id x
  have hl := SplitNode.count_leaf p.id x
  unfold setPane keys
  rw [List.map_append, List.count_append, hf]
  have hl' : ([p].map fun p => p.id).count x = if x = p.id then 1 else 0 := hl
  rw [hl']
  split <;> rfl

theorem count_dropPane (s : Session) (id x : PaneId) :
    (s.dropPane id).keys.count x = if x = id then 0 else s.keys.count x :=
  count_filter_keys s.panes id x

@[simp] theorem keys_setTree (s : Session) (t : Option SplitNode) : (s.setTree t).keys = s.keys := rfl

/-- What focus, zoom and close requests leave alone. -/
def shape (s : Session) : Session := ⟨s.ref, s.tree, s.panes, none, none, []⟩

theorem shape_setFocused (s : Session) (f : Option PaneId) : (s.setFocused f).shape = s.shape := rfl

theorem shape_setZoomed (s : Session) (z : Option PaneId) : (s.setZoomed z).shape = s.shape := rfl

theorem shape_setClosing (s : Session) (l : List PaneId) : (s.setClosing l).shape = s.shape := rfl

/-- The reply to a close of `pane` is in. -/
def answer (pane : PaneId) (s : Session) : Session := s.setClosing (s.closingPanes.filter fun x => !(x == pane))

theorem shape_answer (pane : PaneId) (s : Session) : (s.answer pane).shape = s.shape := rfl

theorem shape_unzoomIf (s : Session) (b : Bool) : (s.unzoomIf b).shape = s.shape := by
  unfold unzoomIf
  split <;> rfl

theorem ok_new (ref : Nat) : (Session.new ref).Ok := fun _ => Nat.zero_le _

/-- The panes a restore makes are the leaves, each once. -/
theorem count_rebuild (s : Session) (saved : SessionSnapshot) (x : PaneId) :
    (s.rebuild saved).keys.count x = if x ∈ saved.tree.leaves then 1 else s.keys.count x := by
  have hfold : ∀ (ids : List PaneId) (s : Session),
      (ids.foldl (fun s id => s.setPane (PaneView.restored id (saved.panes.lookup id))) s).keys.count x =
        if x ∈ ids then 1 else s.keys.count x := by
    intro ids
    induction ids with
    | nil => intro s; simp
    | cons id ids ih =>
      intro s
      rw [List.foldl_cons, ih, count_setPane]
      by_cases hx : x ∈ ids
      · simp [hx]
      · by_cases he : x = id
        · simp [he, PaneView.restored]
        · simp [hx, he, PaneView.restored]
  exact hfold saved.tree.leaves s

theorem count_rebuild_new {s : Session} (hs : s.keys = []) {saved : SessionSnapshot}
    (hone : ∀ x, saved.tree.leaves.count x ≤ 1) (x : PaneId) :
    (s.rebuild saved).keys.count x = saved.tree.leaves.count x := by
  rw [count_rebuild, hs]
  split
  · rename_i hx
    have := hone x
    have := List.count_pos_iff.mpr hx
    omega
  · rename_i hx
    rw [List.count_eq_zero.mpr hx]
    rfl

theorem ref_rebuild (s : Session) (saved : SessionSnapshot) : (s.rebuild saved).ref = s.ref := by
  show (saved.tree.leaves.foldl (fun s id => s.setPane (PaneView.restored id (saved.panes.lookup id))) s).ref = s.ref
  apply foldl_keeps fun s : Session => s.ref
  exact fun _ _ => rfl

end Session

/-! ## Windows up to focus -/

namespace Window

def total (w : Window) (x : PaneId) : Nat := w.keys.count x + w.closedPanes.ids.count x

structure Ok (w : Window) : Prop where
  nonempty : w.sessions ≠ []
  active_lt : w.active < w.sessions.length
  ok : ∀ s ∈ w.sessions, s.Ok
  empties : w.sessions.countP (fun s => s.tree.isNone) ≤ 1

/-- The same sessions up to focus, zoom and close requests. -/
structure Shaped (w w' : Window) : Prop where
  sessions : w'.sessions.map Session.shape = w.sessions.map Session.shape
  active : w'.active = w.active
  closed : w'.closedPanes = w.closedPanes

theorem Shaped.refl (w : Window) : Shaped w w := ⟨rfl, rfl, rfl⟩

theorem Shaped.trans {a b c : Window} (h : Shaped a b) (h' : Shaped b c) : Shaped a c :=
  ⟨h'.sessions.trans h.sessions, h'.active.trans h.active, h'.closed.trans h.closed⟩

section
variable {w w' : Window} (h : Shaped w w')
include h

theorem Shaped.length : w'.sessions.length = w.sessions.length := by
  have := congrArg List.length h.sessions
  rwa [List.length_map, List.length_map] at this

theorem Shaped.keys : w'.keys = w.keys := by
  have hk : ∀ l : List Session, l.flatMap Session.keys = (l.map Session.shape).flatMap Session.keys := fun l => by
    rw [List.flatMap_map]
    rfl
  unfold Window.keys
  rw [hk, h.sessions, ← hk]

theorem Shaped.refs : w'.refs = w.refs := by
  have hr : ∀ l : List Session, (l.map fun s => s.ref) = (l.map Session.shape).map fun s => s.ref := fun l => by
    rw [List.map_map]
    rfl
  unfold Window.refs
  rw [hr, h.sessions, ← hr]

theorem Shaped.total (x : PaneId) : w'.total x = w.total x := by
  unfold Window.total
  rw [h.keys, h.closed]

/-- A session keeps its place and its shape. -/
theorem Shaped.get {i : Nat} {s' : Session} (hs : w'.sessions[i]? = some s') :
    ∃ s, w.sessions[i]? = some s ∧ s'.shape = s.shape := by
  have hget := congrArg (fun l => l[i]?) h.sessions
  simp only [List.getElem?_map, hs, Option.map_some] at hget
  obtain ⟨s, hs', heq⟩ := Option.map_eq_some_iff.mp hget.symm
  exact ⟨s, hs', heq.symm⟩

theorem Shaped.activeRef : w'.activeSession.map (fun s => s.ref) = w.activeSession.map fun s => s.ref := by
  have hr : ∀ v : Window, v.activeSession.map (fun s => s.ref) = (v.sessions.map Session.shape)[v.active]?.map
      fun s => s.ref := fun v => by
    rw [List.getElem?_map, Option.map_map]
    rfl
  rw [hr, hr, h.sessions, h.active]

theorem Shaped.ok (hw : w.Ok) : w'.Ok := by
  refine ⟨fun hnil => ?_, ?_, fun s' hs' => ?_, ?_⟩
  · have hlen := h.length
    rw [hnil, List.length_nil] at hlen
    exact hw.nonempty (List.length_eq_zero_iff.mp hlen.symm)
  · rw [h.active, h.length]
    exact hw.active_lt
  · obtain ⟨i, hi⟩ := List.getElem?_of_mem hs'
    obtain ⟨s, hs, heq⟩ := h.get hi
    have hok := hw.ok s (List.mem_of_getElem? hs)
    intro x
    have htree : s'.shape.tree = s.shape.tree := by rw [heq]
    have hpanes : s'.shape.panes = s.shape.panes := by rw [heq]
    show (leavesOf s'.shape.tree).count x ≤ (s'.shape.panes.map fun p => p.id).count x
    rw [htree, hpanes]
    exact hok x
  · have hc : ∀ l : List Session, (l.map Session.shape).countP (fun s => s.tree.isNone) =
        l.countP fun s => s.tree.isNone := fun l => by
      rw [List.countP_map]
      rfl
    rw [← hc, h.sessions, hc]
    exact hw.empties

end

theorem shaped_edit (w : Window) (i : Nat) {f : Session → Session} (hf : ∀ s, (f s).shape = s.shape) :
    Shaped w (w.edit i f) := by
  exact ⟨map_modify_of_eq hf i w.sessions, rfl, rfl⟩

theorem shaped_setResponder (w : Window) (r : Option PaneId) : Shaped w (w.setResponder r) := ⟨rfl, rfl, rfl⟩

theorem shaped_noteFocused (w : Window) (id : PaneId) : Shaped w (w.noteFocused id) := by
  unfold noteFocused
  split
  · exact shaped_edit w _ fun s => s.shape_setFocused _
  · exact .refl w

theorem shaped_focus (w : Window) (id : PaneId) : Shaped w (w.focus id) := by
  unfold focus
  split
  · exact .refl w
  · exact (shaped_noteFocused w id).trans (shaped_setResponder _ _)

theorem shaped_focusActive (w : Window) : Shaped w w.focusActive := by
  unfold focusActive
  split
  · exact shaped_focus w _
  · exact .refl w

theorem shaped_removeView (w : Window) (id : PaneId) : Shaped w (w.removeView id) := by
  unfold removeView
  split
  · exact shaped_setResponder w none
  · exact .refl w

theorem shaped_selectFocus (w : Window) (i : Nat) (id : PaneId) {f : Session → Session}
    (hf : ∀ s, (f s).shape = s.shape) : Shaped w ((w.edit i f).focus id) :=
  (shaped_edit w i hf).trans (shaped_focus _ id)

/-! ## Changing the sessions of a window -/

section
variable {w : Window} {i : Nat} {s : Session} (hi : w.sessions[i]? = some s)
include hi

theorem keys_edit (f : Session → Session) (x : PaneId) :
    (w.edit i f).keys.count x + s.keys.count x = w.keys.count x + (f s).keys.count x :=
  count_flatMap_modify Session.keys x hi f

theorem count_le_keys (x : PaneId) : s.keys.count x ≤ w.keys.count x :=
  count_le_flatMap Session.keys x (List.mem_of_getElem? hi)

theorem total_edit (f : Session → Session) (x : PaneId) :
    (w.edit i f).total x + s.keys.count x = w.total x + (f s).keys.count x := by
  have := keys_edit hi f x
  show (w.edit i f).keys.count x + w.closedPanes.ids.count x + _ = w.keys.count x + w.closedPanes.ids.count x + _
  omega

theorem mem_edit {f : Session → Session} {s' : Session} (h : s' ∈ (w.edit i f).sessions) :
    s' = f s ∨ s' ∈ w.sessions := by
  obtain ⟨j, hj⟩ := List.getElem?_of_mem h
  have hj : (w.sessions.modify i f)[j]? = some s' := hj
  rw [List.getElem?_modify] at hj
  obtain ⟨a, ha, heq⟩ := Option.map_eq_some_iff.mp hj
  by_cases hij : i = j
  · subst hij
    rw [hi] at ha
    cases ha
    rw [if_pos rfl] at heq
    exact .inl heq.symm
  · rw [if_neg hij] at heq
    exact .inr (heq ▸ List.mem_of_getElem? ha)

/-- A session with a tree takes the place of one. -/
theorem ok_edit {f : Session → Session} (hw : w.Ok) (hf : (f s).Ok) (ht : (f s).tree.isSome = true) :
    (w.edit i f).Ok := by
  refine ⟨?_, ?_, fun s' hs' => ?_, ?_⟩
  · intro hnil
    have : (w.sessions.modify i f) = [] := hnil
    rw [List.modify_eq_nil_iff] at this
    exact hw.nonempty this
  · show w.active < (w.sessions.modify i f).length
    rw [List.length_modify]
    exact hw.active_lt
  · obtain rfl | hs' := mem_edit hi hs'
    · exact hf
    · exact hw.ok s' hs'
  · have hle : ((w.sessions.modify i f).countP fun s => s.tree.isNone) ≤ w.sessions.countP fun s => s.tree.isNone := by
      have hc := countP_modify (p := fun s => s.tree.isNone) (f := f) hi
      have hnone : (f s).tree.isNone = false := by
        rw [Option.isNone_eq_false_iff]
        exact ht
      rw [hnone] at hc
      simp only [Bool.false_eq_true, if_false] at hc
      omega
    exact Nat.le_trans hle hw.empties

theorem total_eraseIdx (x : PaneId) : (w.setSessions (w.sessions.eraseIdx i)).total x + s.keys.count x = w.total x := by
  have := count_flatMap_eraseIdx Session.keys x hi
  show ((w.sessions.eraseIdx i).flatMap Session.keys).count x + w.closedPanes.ids.count x + _ =
    (w.sessions.flatMap Session.keys).count x + w.closedPanes.ids.count x
  omega

end

theorem refs_edit (w : Window) (i : Nat) {f : Session → Session} (hf : ∀ s, (f s).ref = s.ref) :
    (w.edit i f).refs = w.refs :=
  map_modify_of_eq hf i w.sessions

theorem repaired_lt {active i count : Nat} (ha : active < count + 1) (h0 : 0 < count) :
    repaired active i count < count := by
  unfold repaired
  split
  · omega
  · split <;> omega

/-- The sessions that stay are as before, or there is one empty session. -/
theorem sessionDidEmpty_spec {w : Window} {i : Nat} (fresh : Nat) (hi : i < w.sessions.length)
    (ha : w.active < w.sessions.length) (hok : ∀ s ∈ w.sessions.eraseIdx i, s.Ok)
    (he : (w.sessions.eraseIdx i).countP (fun s => s.tree.isNone) ≤ 1) :
    (w.sessionDidEmpty i fresh).Ok ∧
      (∀ x, (w.sessionDidEmpty i fresh).total x ≤ (w.setSessions (w.sessions.eraseIdx i)).total x) ∧
      (w.sessionDidEmpty i fresh).refs.Sublist (w.refs ++ [fresh]) := by
  have hlen : (w.sessions.eraseIdx i).length + 1 = w.sessions.length := by
    rw [List.length_eraseIdx_of_lt hi]
    omega
  unfold sessionDidEmpty
  by_cases hnil : (w.sessions.eraseIdx i).isEmpty = true
  · simp only [hnil, if_true]
    have hs := shaped_focusActive (((w.setSessions [Session.new fresh]).setActive 0).setResponder none)
    refine ⟨hs.ok ⟨List.cons_ne_nil _ _, Nat.zero_lt_one, ?_, Nat.le_refl 1⟩, fun x => ?_, ?_⟩
    · intro s hs
      obtain rfl := List.mem_singleton.mp hs
      exact Session.ok_new fresh
    · rw [hs.total]
      exact Nat.add_le_add_right (Nat.zero_le _) _
    · rw [hs.refs]
      exact List.sublist_append_right w.refs [fresh]
  · simp only [hnil]
    have hne : w.sessions.eraseIdx i ≠ [] := fun h => hnil (by rw [h]; rfl)
    have hpos : 0 < (w.sessions.eraseIdx i).length := List.length_pos_iff.mpr hne
    have hs := shaped_focusActive ((w.setSessions (w.sessions.eraseIdx i)).setActive
      (repaired w.active i (w.sessions.eraseIdx i).length))
    refine ⟨hs.ok ⟨hne, repaired_lt (by omega) hpos, hok, he⟩, fun x => ?_, ?_⟩
    · rw [if_neg (by decide), hs.total]
      exact Nat.le_refl _
    · rw [if_neg (by decide), hs.refs]
      exact ((List.eraseIdx_sublist w.sessions i).map _).trans (List.sublist_append_left _ _)

/-- The active session stays active when another one goes. -/
theorem sessionDidEmpty_active {w : Window} {i : Nat} (fresh : Nat) (hi : i < w.sessions.length)
    (ha : w.active < w.sessions.length) (hne : i ≠ w.active) :
    (w.sessionDidEmpty i fresh).activeSession.map (fun s => s.ref) = w.activeSession.map fun s => s.ref := by
  have hlen := List.length_eraseIdx_of_lt hi
  have hnil : (w.sessions.eraseIdx i).isEmpty = false := by
    rw [List.isEmpty_eq_false_iff, ← List.length_pos_iff]
    omega
  unfold sessionDidEmpty
  simp only [hnil, Bool.false_eq_true, if_false]
  rw [(shaped_focusActive _).activeRef]
  show ((w.sessions.eraseIdx i)[repaired w.active i (w.sessions.eraseIdx i).length]?).map _ = (w.sessions[w.active]?).map _
  unfold repaired
  by_cases h : i < w.active
  · rw [if_pos h, List.getElem?_eraseIdx, if_neg (by omega), Nat.sub_add_cancel (by omega)]
  · rw [if_neg h, if_neg (by omega), List.getElem?_eraseIdx, if_pos (by omega)]

/-! ## New sessions -/

theorem dropEmpty_sublist (w : Window) : w.dropEmpty.sessions.Sublist w.sessions := List.filter_sublist

theorem dropEmpty_some {w : Window} {s : Session} (h : s ∈ w.dropEmpty.sessions) : s.tree.isSome = true :=
  (List.mem_filter.mp h).2

theorem dropEmpty_total (w : Window) (x : PaneId) : w.dropEmpty.total x ≤ w.total x :=
  Nat.add_le_add_right (count_flatMap_sublist Session.keys x w.dropEmpty_sublist) _

theorem length_dropEmpty {w : Window} (hw : w.Ok) : w.sessions.length ≤ w.dropEmpty.sessions.length + 1 := by
  have hc : ∀ l : List Session,
      l.length = (l.filter fun s => s.tree.isSome).length + l.countP fun s => s.tree.isNone := by
    intro l
    induction l with
    | nil => rfl
    | cons s l ih =>
      cases ht : s.tree with
      | none => simp [ht]; omega
      | some t => simp [ht]; omega
  have := hc w.sessions
  have := hw.empties
  show _ ≤ (w.sessions.filter fun s => s.tree.isSome).length + 1
  omega

/-- Sessions with trees and one new session: the active one of `w` may be any of them. -/
theorem ok_push {w : Window} (hw : w.Ok) {s : Session} (hs : s.Ok) {active : Nat}
    (ha : active ≤ w.dropEmpty.sessions.length) :
    ((w.dropEmpty.setSessions (w.dropEmpty.sessions ++ [s])).setActive active).Ok := by
  refine ⟨by simp [setSessions, setActive], ?_, ?_, ?_⟩
  · show active < (w.dropEmpty.sessions ++ [s]).length
    rw [List.length_append, List.length_singleton]
    omega
  · intro s' hs'
    obtain hs' | hs' := List.mem_append.mp hs'
    · exact hw.ok s' (w.dropEmpty_sublist.subset hs')
    · obtain rfl := List.mem_singleton.mp hs'
      exact hs
  · show (w.dropEmpty.sessions ++ [s]).countP (fun s => s.tree.isNone) ≤ 1
    have h0 : w.dropEmpty.sessions.countP (fun s => s.tree.isNone) = 0 := by
      rw [List.countP_eq_zero]
      intro s' hs'
      rw [Option.isNone_iff_eq_none, ← Option.not_isSome_iff_eq_none, not_not]
      exact dropEmpty_some hs'
    rw [List.countP_append, h0, Nat.zero_add]
    exact Nat.le_trans List.countP_le_length (Nat.le_refl 1)

theorem total_append (w : Window) (s : Session) (active : Nat) (x : PaneId) :
    ((w.setSessions (w.sessions ++ [s])).setActive active).total x = w.total x + s.keys.count x := by
  show ((w.sessions ++ [s]).flatMap Session.keys).count x + w.closedPanes.ids.count x =
    (w.sessions.flatMap Session.keys).count x + w.closedPanes.ids.count x + _
  rw [count_flatMap_append, count_flatMap_cons]
  simp only [List.flatMap_nil, List.count_nil]
  omega

theorem refs_append (w : Window) (s : Session) (active : Nat) :
    ((w.setSessions (w.sessions ++ [s])).setActive active).refs = w.refs ++ [s.ref] := by
  show (w.sessions ++ [s]).map _ = _
  rw [List.map_append]
  rfl

theorem refs_dropEmpty (w : Window) : w.dropEmpty.refs.Sublist w.refs := w.dropEmpty_sublist.map _

end Window

end Mux.Tiling
