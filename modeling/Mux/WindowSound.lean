import Mux.WindowLemmas

/-!
# The structure of windows

Every window always has a session and a valid active index; the leaves of a tree are
distinct and each is a pane of its session; no pane is in two sessions. Each operation of a
window is a `Change`: what it adds is given, and whatever it removes may only go.
-/

namespace Mux.Tiling

open Lib

namespace Window

/-- From `w` to `w'` at most the panes counted by `add` and the sessions `refs` come in. -/
structure Change (add : PaneId → Nat) (refs : List Nat) (w w' : Window) : Prop where
  ok : w'.Ok
  total : ∀ x, w'.total x ≤ w.total x + add x
  refs : w'.refs.Sublist (w.refs ++ refs)

/-- One pane. -/
def one (id x : PaneId) : Nat := if x = id then 1 else 0

def none' (_ : PaneId) : Nat := 0

theorem Shaped.change {w w' : Window} (h : Shaped w w') (hw : w.Ok) (add : PaneId → Nat) (refs : List Nat) :
    Change add refs w w' :=
  ⟨h.ok hw, fun x => by rw [h.total]; exact Nat.le_add_right _ _, by rw [h.refs]; exact List.sublist_append_left _ _⟩

theorem Change.shaped {add : PaneId → Nat} {refs : List Nat} {w w' w'' : Window} (h : Change add refs w w')
    (hs : Shaped w' w'') : Change add refs w w'' :=
  ⟨hs.ok h.ok, fun x => by rw [hs.total]; exact h.total x, by rw [hs.refs]; exact h.refs⟩

theorem Change.mono {add : PaneId → Nat} {refs refs' : List Nat} {w w' : Window} (h : Change add refs w w')
    (hr : refs.Sublist refs') : Change add refs' w w' :=
  ⟨h.ok, h.total, h.refs.trans ((List.Sublist.refl _).append hr)⟩

/-! ## Taking a pane out -/

section
variable {w : Window} {i : Nat} {s : Session} (hi : w.sessions[i]? = some s) {id : PaneId} (hid : id ∈ s.keys)
variable {f : Session → Session} (hkeys : ∀ x, (f s).keys.count x = if x = id then 0 else s.keys.count x)
variable (htree : (f s).tree = s.tree.bind fun t => t.removing id) (href : ∀ s, (f s).ref = s.ref)
include hi hid hkeys

theorem total_drop (x : PaneId) : (w.edit i f).total x + one id x ≤ w.total x := by
  have htot := total_edit hi f x
  have hpos : 0 < s.keys.count id := List.count_pos_iff.mpr hid
  rw [hkeys] at htot
  unfold one
  by_cases hx : x = id
  · subst hx
    rw [if_pos rfl] at htot ⊢
    omega
  · rw [if_neg hx] at htot ⊢
    omega

omit hi hid in
include htree in
theorem ok_drop (hs : s.Ok) : (f s).Ok := by
  intro x
  rw [hkeys, htree]
  cases ht : s.tree with
  | none => exact Nat.zero_le _
  | some t =>
    rw [Option.bind_some, SplitNode.count_removing]
    split
    · exact Nat.le_refl _
    · have := hs x
      rw [ht] at this
      exact this

include href

/-- The session keeps a tree and stays, or it goes; the pane's view may have left the window. -/
theorem drop_change (hw : w.Ok) (fresh : Nat) (r : Option PaneId) :
    (((w.edit i f).setResponder r).sessionDidEmpty i fresh).Ok ∧
    (∀ x, (((w.edit i f).setResponder r).sessionDidEmpty i fresh).total x + one id x ≤ w.total x) ∧
    (((w.edit i f).setResponder r).sessionDidEmpty i fresh).refs.Sublist (w.refs ++ [fresh]) := by
  have hlt := (List.getElem?_eq_some_iff.mp hi).1
  have hlen : ((w.edit i f).setResponder r).sessions.length = w.sessions.length := List.length_modify ..
  have herase : ((w.edit i f).setResponder r).sessions.eraseIdx i = w.sessions.eraseIdx i :=
    eraseIdx_modify_self f i w.sessions
  have hsub := List.eraseIdx_sublist w.sessions i
  obtain ⟨h1, h2, h3⟩ := sessionDidEmpty_spec fresh (w := (w.edit i f).setResponder r) (i := i)
    (by rw [hlen]; exact hlt) (by rw [hlen]; exact hw.active_lt)
    (by rw [herase]; exact fun s hs => hw.ok s (hsub.subset hs))
    (by rw [herase]; exact Nat.le_trans hsub.countP_le hw.empties)
  refine ⟨h1, fun x => ?_, ?_⟩
  · have htot := total_drop hi hid hkeys x
    have hle : (((w.edit i f).setResponder r).setSessions
        (((w.edit i f).setResponder r).sessions.eraseIdx i)).total x ≤ (w.edit i f).total x :=
      Nat.add_le_add_right (count_flatMap_sublist Session.keys x (List.eraseIdx_sublist _ i)) _
    have := h2 x
    omega
  · rw [show ((w.edit i f).setResponder r).refs = w.refs from refs_edit w i href] at h3
    exact h3

end

theorem removeView_eq (w : Window) (id : PaneId) :
    w.removeView id = w.setResponder (if w.responder = some id then none else w.responder) := by
  unfold removeView
  split <;> rfl

/-- What a pane leaving session `i` means for the structure. -/
structure Drops (w w' : Window) (id : PaneId) (fresh : Nat) : Prop where
  ok : w'.Ok
  total : ∀ x, w'.total x + one id x ≤ w.total x
  refs : w'.refs.Sublist (w.refs ++ [fresh])

theorem Drops.shaped {w w' w'' : Window} {id : PaneId} {fresh : Nat} (h : Drops w w' id fresh) (hs : Shaped w' w'') :
    Drops w w'' id fresh :=
  ⟨hs.ok h.ok, fun x => by rw [hs.total]; exact h.total x, by rw [hs.refs]; exact h.refs⟩

/-- The end of `removePane` where panes are left. -/
def settle (w : Window) (i : Nat) (id : PaneId) (focus : Option PaneId) : Window :=
  let w := w.edit i fun s => s.unzoomIf (s.zoomedID == some id)
  match focus with
  | some p => w.focus p
  | none => w

theorem shaped_settle (w : Window) (i : Nat) (id : PaneId) (focus : Option PaneId) :
    Shaped w (w.settle i id focus) := by
  have he := shaped_edit w i fun s : Session => s.shape_unzoomIf (s.zoomedID == some id)
  unfold settle
  cases focus with
  | none => exact he
  | some p => exact he.trans (shaped_focus _ p)

/-- `removePane` of a session that has the pane, in two cases. -/
theorem removePane_eq {w : Window} {i : Nat} {s : Session} (hi : w.sessions[i]? = some s) {id : PaneId}
    (hid : id ∈ s.keys) (fresh : Nat) :
    w.removePane i id fresh =
      let tree := s.tree.bind fun t => t.removing id
      let v := (w.edit i fun s => (s.dropPane id).setTree tree).removeView id
      match tree with
      | none => v.sessionDidEmpty i fresh
      | some t => v.settle i id (if s.focusedID = some id then
          (t.leaves.head?.bind (s.dropPane id).pane?).map fun p => p.id else none) := by
  unfold removePane
  rw [hi]
  simp only [if_pos (Session.contains_iff.mpr hid)]
  cases s.tree.bind fun t => t.removing id with
  | none => rfl
  | some t =>
    simp only [settle]
    split
    · cases t.leaves.head?.bind (s.dropPane id).pane? <;> rfl
    · rfl

theorem removePane_drops {w : Window} (hw : w.Ok) {i : Nat} {s : Session} (hi : w.sessions[i]? = some s) {id : PaneId}
    (hid : id ∈ s.keys) (fresh : Nat) : Drops w (w.removePane i id fresh) id fresh := by
  rw [removePane_eq hi hid]
  have hkeys := s.count_dropPane id
  generalize htree : (s.tree.bind fun t => t.removing id) = tree
  have hdrop := total_drop (f := fun s => (s.dropPane id).setTree tree) hi hid hkeys
  have hchange := drop_change (f := fun s => (s.dropPane id).setTree tree) hi hid hkeys (fun _ => rfl) hw fresh
  have hrefs := refs_edit w i (f := fun s => (s.dropPane id).setTree tree) fun _ => rfl
  have hok := ok_drop (f := fun s => (s.dropPane id).setTree tree) hkeys htree.symm (hw.ok s (List.mem_of_getElem? hi))
  cases tree with
  | none =>
    simp only [removeView_eq]
    obtain ⟨h1, h2, h3⟩ := hchange _
    exact ⟨h1, h2, h3⟩
  | some t =>
    have hs := (shaped_removeView (w.edit i fun s => (s.dropPane id).setTree (some t)) id).trans
      (shaped_settle _ i id (if s.focusedID = some id then
        (t.leaves.head?.bind (s.dropPane id).pane?).map fun p => p.id else none))
    exact Drops.shaped ⟨ok_edit hi hw hok rfl, hdrop, by rw [hrefs]; exact List.sublist_append_left _ _⟩ hs

theorem detach_drops {w : Window} (hw : w.Ok) {i : Nat} {s : Session} (hi : w.sessions[i]? = some s) {id : PaneId}
    (hid : id ∈ s.keys) (fresh : Nat) : Drops w (w.detach i id fresh) id fresh := by
  unfold detach
  rw [hi]
  simp only [if_pos (Session.contains_iff.mpr hid)]
  have hkeys := s.count_dropPane id
  generalize htree : (s.tree.bind fun t => t.removing id) = tree
  have hdrop := total_drop (f := fun s => ((s.dropPane id).setTree tree).setFocused
    (if s.focusedID = some id then (leavesOf tree).head? else s.focusedID)) hi hid hkeys
  have hchange := drop_change (f := fun s => ((s.dropPane id).setTree tree).setFocused
    (if s.focusedID = some id then (leavesOf tree).head? else s.focusedID)) hi hid hkeys (fun _ => rfl) hw fresh
    w.responder
  have hrefs := refs_edit w i (f := fun s => ((s.dropPane id).setTree tree).setFocused
    (if s.focusedID = some id then (leavesOf tree).head? else s.focusedID)) fun _ => rfl
  have hok := ok_drop (f := fun s => ((s.dropPane id).setTree tree).setFocused
    (if s.focusedID = some id then (leavesOf tree).head? else s.focusedID)) hkeys htree.symm
    (hw.ok s (List.mem_of_getElem? hi))
  cases tree with
  | none => exact ⟨hchange.1, hchange.2.1, hchange.2.2⟩
  | some t =>
    refine Drops.shaped ⟨ok_edit hi hw hok rfl, hdrop, by rw [hrefs]; exact List.sublist_append_left _ _⟩ ?_
    exact shaped_edit _ i fun s => s.shape_unzoomIf (s.zoomedID == some id)

/-- Where the pane is not there, nothing happens. -/
theorem removePane_change {w : Window} (hw : w.Ok) (i : Nat) (id : PaneId) (fresh : Nat) :
    Change none' [fresh] w (w.removePane i id fresh) := by
  cases hi : w.sessions[i]? with
  | none =>
    unfold removePane
    rw [hi]
    exact (Shaped.refl w).change hw _ _
  | some s =>
    by_cases hid : id ∈ s.keys
    · have h := removePane_drops hw hi hid fresh
      exact ⟨h.ok, fun x => Nat.le_trans (Nat.le_add_right _ _) (h.total x), h.refs⟩
    · unfold removePane
      rw [hi]
      simp only [if_neg (fun h => hid (Session.contains_iff.mp h))]
      exact (Shaped.refl w).change hw _ _

/-! ## Putting a pane in -/

theorem put_change {w : Window} (hw : w.Ok) {i : Nat} {s : Session} (hi : w.sessions[i]? = some s) (p : PaneView)
    (tree : Session → SplitNode)
    (ht : ∀ x, (tree s).leaves.count x ≤ if x = p.id then 1 else s.keys.count x) :
    Change (one p.id) []
      w ((w.edit i fun s => ((s.setPane p).setTree (some (tree s))).setZoomed none).focus p.id) := by
  have htot := total_edit hi fun s => ((s.setPane p).setTree (some (tree s))).setZoomed none
  have hkeys : ∀ x, (((s.setPane p).setTree (some (tree s))).setZoomed none).keys.count x =
      if x = p.id then 1 else s.keys.count x := s.count_setPane p
  have hok : (((s.setPane p).setTree (some (tree s))).setZoomed none).Ok := fun x => by
    rw [hkeys]
    exact ht x
  refine Change.shaped ⟨ok_edit hi hw hok rfl, fun x => ?_, ?_⟩ (shaped_focus _ p.id)
  · have := htot x
    rw [hkeys] at this
    unfold one
    split at this <;> split <;> omega
  · rw [List.append_nil, refs_edit w i (f := fun s => ((s.setPane p).setTree (some (tree s))).setZoomed none)
      fun _ => rfl]

theorem addInitialPane_change {w : Window} (hw : w.Ok) {i : Nat} {s : Session} (hi : w.sessions[i]? = some s)
    (p : PaneView) : Change (one p.id) [] w (w.addInitialPane i p) := by
  refine put_change hw hi p (fun _ => .leaf p.id) fun x => ?_
  rw [SplitNode.count_leaf]
  split
  · exact Nat.le_refl _
  · exact Nat.zero_le _

theorem total_pos {w : Window} {i : Nat} {s : Session} (hi : w.sessions[i]? = some s) (x : PaneId) :
    s.keys.count x ≤ w.total x :=
  Nat.le_trans (count_le_keys hi x) (Nat.le_add_right _ _)

theorem split_change {w : Window} (hw : w.Ok) {id : PaneId} (hone : ∀ x, w.total x + one id x ≤ 1) (i : Nat)
    (source : Option PaneId) (d : SplitDirection) (before atRoot : Bool) (target : NewPaneTarget) :
    Change (one id) [] w (w.split i source id d before atRoot target) := by
  unfold split
  cases hi : w.sessions[i]? with
  | none => exact (Shaped.refl w).change hw _ _
  | some s =>
    simp only
    split
    · rename_i from' tree _ htree
      have hs := hw.ok s (List.mem_of_getElem? hi)
      have hle : ∀ x, tree.leaves.count x ≤ s.keys.count x := fun x => by
        have := hs x
        rw [htree] at this
        exact this
      have hbound : ∀ x, tree.leaves.count x + one id x ≤ 1 := fun x => by
        have := hle x
        have := total_pos hi x
        have := hone x
        omega
      refine put_change hw hi ⟨id, _, _, _, _⟩ (fun _ => if atRoot then tree.insertingAtRoot id d evenRatio before
        else tree.inserting id from'.id d evenRatio before) fun x => ?_
      have h1 := hle x
      have h2 := hbound x
      have h3 := hbound from'.id
      unfold one at h2 h3
      show (if atRoot then _ else _ : SplitNode).leaves.count x ≤ if x = id then 1 else s.keys.count x
      cases atRoot with
      | true =>
        rw [if_pos rfl, SplitNode.count_insertingAtRoot]
        by_cases hx : x = id
        · rw [if_pos hx] at h2 ⊢
          rw [if_pos hx]
          exact h2
        · rw [if_neg hx, if_neg hx]
          exact h1
      | false =>
        rw [if_neg (by decide), SplitNode.count_inserting]
        by_cases hx : x = id
        · rw [if_pos hx] at h2 ⊢
          rw [if_pos hx]
          omega
        · rw [if_neg hx, if_neg hx]
          exact h1
    · exact (Shaped.refl w).change hw _ _

theorem adoptTree_count {s : Session} (hs : s.Ok) {id : PaneId} (hid : s.keys.count id = 0)
    (hone : ∀ x, s.keys.count x ≤ 1) (x : PaneId) :
    (s.adoptTree id).leaves.count x ≤ if x = id then 1 else s.keys.count x := by
  have hleaf : (SplitNode.leaf id).leaves.count x ≤ if x = id then 1 else s.keys.count x := by
    rw [SplitNode.count_leaf]
    split
    · exact Nat.le_refl _
    · exact Nat.zero_le _
  unfold Session.adoptTree
  cases ht : s.tree with
  | none => exact hleaf
  | some tree =>
    cases hat : s.focusedID.or tree.leaves.head? with
    | none => simp only [hat]; exact hleaf
    | some at' =>
      simp only [hat]
      have hle : ∀ x, tree.leaves.count x ≤ s.keys.count x := fun x => by
        have := hs x
        rw [ht] at this
        exact this
      rw [SplitNode.count_inserting]
      have h1 := hle x
      have h2 := hle at'
      have h3 := hone at'
      by_cases hx : x = id
      · subst hx
        rw [if_pos rfl, if_pos rfl]
        omega
      · rw [if_neg hx, if_neg hx]
        omega

theorem adopt_change {w : Window} (hw : w.Ok) {i : Nat} {s : Session} (hi : w.sessions[i]? = some s) {p : PaneView}
    (hone : ∀ x, w.total x + one p.id x ≤ 1) : Change (one p.id) [] w (w.adopt i p) := by
  refine put_change hw hi p (fun s => s.adoptTree p.id) fun x => ?_
  refine adoptTree_count (hw.ok s (List.mem_of_getElem? hi)) ?_ (fun x => ?_) x
  · have := total_pos hi p.id
    have := hone p.id
    unfold one at this
    rw [if_pos rfl] at this
    omega
  · have := total_pos hi x
    have := hone x
    omega

/-! ## New and restored sessions -/

theorem restore_change {w : Window} (hw : w.Ok) {i : Nat} {s : Session} (hi : w.sessions[i]? = some s)
    (hs : s.keys = []) (saved : SessionSnapshot) (hone : ∀ x, saved.tree.leaves.count x ≤ 1) :
    Change (fun x => saved.tree.leaves.count x) [] w (w.restore i saved) := by
  have hkeys := Session.count_rebuild_new hs hone
  have hok : (s.rebuild saved).Ok := fun x => by
    rw [hkeys]
    exact Nat.le_refl _
  have hedit : Change (fun x => saved.tree.leaves.count x) [] w (w.edit i fun s => s.rebuild saved) := by
    refine ⟨ok_edit hi hw hok rfl, fun x => ?_, ?_⟩
    · have := total_edit hi (fun s => s.rebuild saved) x
      rw [hkeys] at this
      omega
    · rw [refs_edit w i fun s => s.ref_rebuild saved, List.append_nil]
  unfold restore
  simp only
  split
  · exact hedit.shaped (shaped_focus _ _)
  · exact hedit

theorem get_pushActive (w : Window) (ref : Nat) : (w.pushActive ref).sessions[(w.pushActive ref).active]? =
    some (Session.new ref) := by
  show (w.dropEmpty.sessions ++ [Session.new ref])[w.dropEmpty.sessions.length]? = _
  simp

theorem pushActive_change {w : Window} (hw : w.Ok) (ref : Nat) : Change none' [ref] w (w.pushActive ref) := by
  refine ⟨ok_push hw (Session.ok_new ref) (Nat.le_refl _), fun x => ?_, ?_⟩
  · have h := total_append w.dropEmpty (Session.new ref) w.dropEmpty.sessions.length x
    have hd := w.dropEmpty_total x
    have h0 : (Session.new ref).keys.count x = 0 := rfl
    show ((w.dropEmpty.setSessions (w.dropEmpty.sessions ++ [Session.new ref])).setActive
      w.dropEmpty.sessions.length).total x ≤ w.total x + 0
    omega
  · show ((w.dropEmpty.setSessions (w.dropEmpty.sessions ++ [Session.new ref])).setActive
      w.dropEmpty.sessions.length).refs.Sublist _
    rw [refs_append]
    exact w.refs_dropEmpty.append (List.Sublist.refl _)

/-- Something comes in first, and more with it after. -/
theorem Change.then {a b : PaneId → Nat} {r r' : List Nat} {w w' w'' : Window} (h : Change a r w w')
    (h' : Change b r' w' w'') : Change (fun x => a x + b x) (r ++ r') w w'' := by
  refine ⟨h'.ok, fun x => ?_, ?_⟩
  · have := h.total x
    have := h'.total x
    omega
  · rw [← List.append_assoc]
    exact h'.refs.trans (h.refs.append (List.Sublist.refl _))

theorem Change.le {a b : PaneId → Nat} {r : List Nat} {w w' : Window} (h : Change a r w w') (hab : ∀ x, a x ≤ b x) :
    Change b r w w' :=
  ⟨h.ok, fun x => Nat.le_trans (h.total x) (Nat.add_le_add_left (hab x) _), h.refs⟩

theorem newSession_change {w : Window} (hw : w.Ok) (ref : Nat) (id : PaneId) (target : NewPaneTarget) :
    Change (one id) [ref] w (w.newSession ref id target) := by
  have hpush := pushActive_change hw ref
  have hadd := addInitialPane_change hpush.ok (get_pushActive w ref)
    ⟨id, (target.seed (w.activeSession.bind Session.focusedPane)).2,
      (target.seed (w.activeSession.bind Session.focusedPane)).1, 0, false⟩
  exact (hpush.then hadd).le fun x => by simp [none']

theorem Change.ofClosed {w w' : Window} {rest : History} {a b : PaneId → Nat} {r : List Nat}
    (h : Change a r (w.setClosed rest) w') (hrest : ∀ x, rest.ids.count x + a x ≤ w.closedPanes.ids.count x + b x) :
    Change b r w w' := by
  refine ⟨h.ok, fun x => ?_, h.refs⟩
  have h1 := h.total x
  have h2 := hrest x
  have h3 : (w.setClosed rest).total x = w.keys.count x + rest.ids.count x := rfl
  unfold Window.total at h1 h3 ⊢
  omega

theorem reopenClosedTab_change {w : Window} (hw : w.Ok) (now ref : Nat) :
    Change none' [ref] w (w.reopenClosedTab now ref) := by
  have hw' : ∀ rest, (w.setClosed rest).Ok := fun rest => ⟨hw.nonempty, hw.active_lt, hw.ok, hw.empties⟩
  unfold reopenClosedTab
  split
  · rename_i rest entry hpop
    have hcount := History.count_popLast_le hpop
    have hpush := pushActive_change (hw' rest) ref
    have hleaf : ∀ x, entry.snapshot.tree.leaves.count x = one entry.id x := fun x => SplitNode.count_leaf entry.id x
    have hres := restore_change hpush.ok (get_pushActive (w.setClosed rest) ref) rfl entry.snapshot fun x => by
      rw [hleaf, one]
      split <;> omega
    refine (hpush.then hres).ofClosed fun x => ?_
    rw [hleaf x, none']
    have := hcount x
    unfold one
    omega
  · rename_i rest hpop
    have hrest : rest = (w.closedPanes.popLast now).1 := by rw [hpop]
    have hcount : ∀ x, rest.ids.count x ≤ w.closedPanes.ids.count x := fun x => by
      rw [hrest]
      exact History.count_popLast_none x
    exact ((Shaped.refl _).change (hw' rest) none' [ref]).ofClosed fun x => Nat.add_le_add_right (hcount x) _

theorem recoveryTree_count (first : PaneId) (ids : List PaneId) (hnd : (first :: ids).Nodup) (x : PaneId) :
    (recoveryTree first ids).leaves.count x = (first :: ids).count x := by
  have hfold : ∀ (ids : List PaneId) (t : SplitNode) (last : PaneId), t.leaves.count last = 1 → ids.Nodup →
      (∀ y ∈ ids, t.leaves.count y = 0) → ∀ x,
      (ids.foldl (fun (t : SplitNode × PaneId) id => (t.1.inserting id t.2 .horizontal evenRatio false, id)) (t, last)).1.leaves.count
        x = t.leaves.count x + ids.count x := by
    intro ids
    induction ids with
    | nil => intro t last _ _ _ x; simp
    | cons id ids ih =>
      intro t last hlast hnd hnew x
      obtain ⟨hid, hnd⟩ := List.nodup_cons.mp hnd
      have hcount : ∀ y, (t.inserting id last .horizontal evenRatio false).leaves.count y =
          t.leaves.count y + if y = id then 1 else 0 := fun y => by
        rw [SplitNode.count_inserting, hlast]
      have h0 := hnew id List.mem_cons_self
      rw [List.foldl_cons, ih _ id (by rw [hcount, h0, if_pos rfl]) hnd, hcount]
      · by_cases hx : x = id
        · subst hx
          rw [if_pos rfl, List.count_cons_self]
          omega
        · rw [if_neg hx, List.count_cons_of_ne (Ne.symm hx)]
          omega
      · intro y hy
        rw [hcount, hnew y (List.mem_cons_of_mem _ hy), if_neg (fun h : y = id => hid (h ▸ hy))]
  obtain ⟨hfirst, hnd⟩ := List.nodup_cons.mp hnd
  have h := hfold ids (.leaf first) first (by rw [SplitNode.count_leaf, if_pos rfl]) hnd (fun y hy => by
    rw [SplitNode.count_leaf, if_neg (fun h : y = first => hfirst (h ▸ hy))]) x
  unfold recoveryTree
  rw [h, SplitNode.count_leaf]
  by_cases hx : x = first
  · subst hx
    rw [if_pos rfl, List.count_cons_self]
    omega
  · rw [if_neg hx, List.count_cons_of_ne (Ne.symm hx), Nat.zero_add]

/-- A new session, last; the active index stays. -/
theorem push_change {w : Window} (hw : w.Ok) (ref : Nat) :
    Change none' [ref] w (w.dropEmpty.setSessions (w.dropEmpty.sessions ++ [Session.new ref])) := by
  have hlen := length_dropEmpty hw
  have hlt := hw.active_lt
  have hle : w.active ≤ w.dropEmpty.sessions.length := by omega
  refine ⟨ok_push hw (Session.ok_new ref) hle, fun x => ?_, ?_⟩
  · have h := total_append w.dropEmpty (Session.new ref) w.active x
    have hd := w.dropEmpty_total x
    have h0 : (Session.new ref).keys.count x = 0 := rfl
    show ((w.dropEmpty.setSessions (w.dropEmpty.sessions ++ [Session.new ref])).setActive w.active).total x ≤
      w.total x + 0
    omega
  · show ((w.dropEmpty.setSessions (w.dropEmpty.sessions ++ [Session.new ref])).setActive w.active).refs.Sublist _
    rw [refs_append]
    exact w.refs_dropEmpty.append (List.Sublist.refl _)

theorem get_push (w : Window) (ref : Nat) :
    (w.dropEmpty.setSessions (w.dropEmpty.sessions ++ [Session.new ref])).sessions[w.dropEmpty.sessions.length]? =
      some (Session.new ref) := by
  show (w.dropEmpty.sessions ++ [Session.new ref])[w.dropEmpty.sessions.length]? = _
  simp

theorem addRecoverySession_change {w : Window} (hw : w.Ok) (ref : Nat) (panes : List (PaneId × PaneSnapshot))
    (hnd : (panes.map fun p => p.1).Nodup) :
    Change (fun x => (panes.map fun p => p.1).count x) [ref] w (w.addRecoverySession ref panes) := by
  unfold addRecoverySession
  split
  · exact (Shaped.refl w).change hw _ _
  · rename_i first rest hids
    rw [hids] at hnd ⊢
    have hpush := push_change hw ref
    have hcount := recoveryTree_count first rest hnd
    have hres := restore_change hpush.ok (get_push w ref) rfl ⟨recoveryTree first rest, panes, some first, none⟩ fun x => by
      rw [hcount]
      exact List.nodup_iff_count.mp hnd x
    exact ((hpush.then hres).le fun x => by
      show 0 + (recoveryTree first rest).leaves.count x ≤ _
      exact Nat.le_of_eq (by rw [hcount, Nat.zero_add])).shaped (shaped_focusActive _)

/-! ## Moves -/

theorem ok_append {w : Window} (hw : w.Ok) {s : Session} (hs : s.Ok) (ht : s.tree.isSome = true) {active : Nat}
    (ha : active ≤ w.sessions.length) : ((w.setSessions (w.sessions ++ [s])).setActive active).Ok := by
  refine ⟨by simp [setSessions, setActive], ?_, ?_, ?_⟩
  · show active < (w.sessions ++ [s]).length
    rw [List.length_append, List.length_singleton]
    omega
  · intro s' hs'
    obtain hs' | hs' := List.mem_append.mp hs'
    · exact hw.ok s' hs'
    · obtain rfl := List.mem_singleton.mp hs'
      exact hs
  · show (w.sessions ++ [s]).countP (fun s => s.tree.isNone) ≤ 1
    have h0 : [s].countP (fun s => s.tree.isNone) = 0 := by
      rw [List.countP_eq_zero]
      intro s' hs'
      obtain rfl := List.mem_singleton.mp hs'
      rw [Option.isNone_iff_eq_none, ← Option.not_isSome_iff_eq_none, not_not]
      exact ht
    rw [List.countP_append, h0]
    exact hw.empties

/-- The new session with the pane in it. -/
def single (ref : Nat) (p : PaneView) : Session :=
  (((Session.new ref).setPane p).setTree (some (.leaf p.id))).setZoomed none

theorem single_count (ref : Nat) (p : PaneView) (x : PaneId) : (single ref p).keys.count x = one p.id x := by
  have h := (Session.new ref).count_setPane p x
  show ((Session.new ref).setPane p).keys.count x = _
  rw [h]
  rfl

theorem single_ok (ref : Nat) (p : PaneView) : (single ref p).Ok := fun x => by
  rw [single_count]
  exact Nat.le_of_eq (SplitNode.count_leaf p.id x)

/-- Adopting into a session just appended is appending it with the pane. -/
theorem adopt_new (w : Window) (ref : Nat) (p : PaneView) :
    ((w.setSessions (w.sessions ++ [Session.new ref])).setActive w.sessions.length).adopt w.sessions.length p =
      ((w.setSessions (w.sessions ++ [single ref p])).setActive w.sessions.length).focus p.id := by
  have hmod : (w.sessions ++ [Session.new ref]).modify w.sessions.length
      (fun s => ((s.setPane p).setTree (some (s.adoptTree p.id))).setZoomed none) = w.sessions ++ [single ref p] :=
    modify_append_cons _ _ [] _
  unfold adopt edit
  show ((_ : Window).setSessions ((w.sessions ++ [Session.new ref]).modify w.sessions.length _)).focus p.id = _
  rw [hmod]
  rfl

theorem movePaneToNewSession_change {w : Window} (hw : w.Ok) (fresh : Nat) :
    Change none' [fresh, fresh + 1] w (w.movePaneToNewSession fresh) := by
  unfold movePaneToNewSession
  cases hs : w.activeSession with
  | none => exact (Shaped.refl w).change hw _ _
  | some source =>
    cases hp : source.focusedPane with
    | none => simp only [hp]; exact (Shaped.refl w).change hw _ _
    | some pane =>
      simp only [hp]
      split
      · have hd := detach_drops hw hs (Session.focusedPane_some hp).2.2 fresh
        have happ : Change none' [fresh, fresh + 1] w
            (((w.detach w.active pane.id fresh).setSessions ((w.detach w.active pane.id fresh).sessions ++
              [single (fresh + 1) pane])).setActive (w.detach w.active pane.id fresh).sessions.length) := by
          refine ⟨ok_append hd.ok (single_ok _ pane) rfl (Nat.le_refl _), fun x => ?_, ?_⟩
          · rw [total_append, single_count]
            exact hd.total x
          · rw [refs_append]
            exact List.append_assoc w.refs [fresh] [fresh + 1] ▸ hd.refs.append (List.Sublist.refl [fresh + 1])
        have := happ.shaped (shaped_focus _ pane.id)
        rw [← adopt_new] at this
        exact this
      · exact (Shaped.refl w).change hw _ _

theorem setActive_ok {w : Window} (hw : w.Ok) {i : Nat} (hi : i < w.sessions.length) : (w.setActive i).Ok :=
  ⟨hw.nonempty, hi, hw.ok, hw.empties⟩

theorem setActive_change {w : Window} (hw : w.Ok) {i : Nat} (hi : i < w.sessions.length) (refs : List Nat) :
    Change none' refs w (w.setActive i) :=
  ⟨setActive_ok hw hi, fun _ => Nat.le_refl _, List.sublist_append_left _ _⟩

theorem movePane_change {w : Window} (hw : w.Ok) (hone : ∀ x, w.total x ≤ 1) (index fresh : Nat) :
    Change none' [fresh] w (w.movePane index fresh) := by
  have hsame := (Shaped.refl w).change hw none' [fresh]
  unfold movePane
  split
  · exact hsame
  split
  · rename_i target source ht hs
    cases hp : source.focusedPane with
    | none => exact hsame
    | some pane =>
      simp only
      have hd := detach_drops hw hs (Session.focusedPane_some hp).2.2 fresh
      cases hj : (w.detach w.active pane.id fresh).sessions.findIdx? fun s => s.ref == target.ref with
      | none => exact ⟨hd.ok, fun x => Nat.le_trans (Nat.le_add_right _ _) (hd.total x), hd.refs⟩
      | some j =>
        simp only
        obtain ⟨hlt, -⟩ := List.findIdx?_eq_some_iff_getElem.mp hj
        have hok := setActive_ok hd.ok hlt
        have hget : ((w.detach w.active pane.id fresh).setActive j).sessions[j]? =
            some (w.detach w.active pane.id fresh).sessions[j] := List.getElem?_eq_getElem hlt
        have had := adopt_change hok hget (p := pane) fun x => Nat.le_trans (hd.total x) (hone x)
        refine ⟨had.ok, fun x => Nat.le_trans (had.total x) (hd.total x), had.refs.trans ?_⟩
        rw [List.append_nil]
        exact hd.refs
  · exact hsame

theorem selectSession_change {w : Window} (hw : w.Ok) (i : Nat) (refs : List Nat) :
    Change none' refs w (w.selectSession i) := by
  unfold selectSession
  split
  · rename_i h
    exact (setActive_change hw h.1 refs).shaped (shaped_focusActive _)
  · exact (Shaped.refl w).change hw _ _

theorem shaped_reveal (w : Window) (i : Nat) (id : PaneId) : Shaped w (w.reveal i id) := by
  unfold reveal
  split
  · exact .refl w
  · split
    · exact shaped_selectFocus w i id fun s => s.shape_unzoomIf _
    · exact .refl w

theorem commitCanvas_change {w : Window} (hw : w.Ok) (i : Nat) (id : PaneId) (refs : List Nat) :
    Change none' refs w (w.commitCanvas i id) := by
  unfold commitCanvas
  split
  · exact (Shaped.refl w).change hw _ _
  · split
    · exact (selectSession_change hw i refs).shaped (shaped_reveal _ i id)
    · exact (Shaped.refl w).change hw _ _

theorem shaped_focusDirection (w : Window) (target : Option PaneId) : Shaped w (w.focusDirection target) := by
  unfold focusDirection
  split
  · exact .refl w
  · split
    · exact shaped_selectFocus w _ _ fun s => s.shape_setZoomed none
    · exact .refl w

theorem shaped_toggleZoom (w : Window) : Shaped w w.toggleZoom := by
  refine shaped_edit w _ fun s => ?_
  unfold Session.toggleZoom
  split <;> rfl

/-! ## Trees with the same leaves -/

/-- A session whose tree is replaced by one with the same leaves. -/
theorem retree_change {w : Window} (hw : w.Ok) {i : Nat} {s : Session} (hi : w.sessions[i]? = some s)
    {f : Session → Session} (hkeys : (f s).keys = s.keys) (href : ∀ s, (f s).ref = s.ref)
    (ht : (f s).tree.isSome = true) (hl : ∀ x, (leavesOf (f s).tree).count x = (leavesOf s.tree).count x)
    (refs : List Nat) : Change none' refs w (w.edit i f) := by
  have hok : (f s).Ok := fun x => by
    rw [hl, hkeys]
    exact hw.ok s (List.mem_of_getElem? hi) x
  refine ⟨ok_edit hi hw hok ht, fun x => ?_, ?_⟩
  · have := total_edit hi f x
    rw [hkeys] at this
    unfold none'
    omega
  · rw [refs_edit w i href]
    exact List.sublist_append_left _ _

theorem moved_count {w : Window} (hw : w.Ok) (hone : ∀ x, w.total x ≤ 1) {s : Session} (hs : w.activeSession = some s)
    {tree : SplitNode} (htree : s.tree = some tree) {id : PaneId} (hid : s.focusedID = some id) (d : FocusDirection)
    {neighbor : Option PaneId} (hn : neighbor.all w.isNeighbor = true) (x : PaneId) :
    ((tree.moving id d neighbor).getD tree).leaves.count x = tree.leaves.count x := by
  have hle : ∀ x, tree.leaves.count x ≤ 1 := fun x => by
    have h1 := hw.ok s (List.mem_of_getElem? hs) x
    rw [htree] at h1
    have h2 := total_pos hs x
    have h3 := hone x
    rw [leavesOf_some] at h1
    omega
  cases hm : tree.moving id d neighbor with
  | none => rfl
  | some moved =>
    have hmem : id ∈ tree.leaves := by
      unfold SplitNode.moving at hm
      split at hm
      · rename_i hc
        exact SplitNode.contains_iff.mp hc
      · cases hm
    have h1 : tree.leaves.count id = 1 := Nat.le_antisymm (hle id) (List.count_pos_iff.mpr hmem)
    refine SplitNode.count_moving (fun n hn' => ?_) h1 hm x
    rw [hn'] at hn
    simp only [Option.all_some, isNeighbor, hs, Option.any_some, htree, leavesOf_some, Bool.and_eq_true,
      List.contains_iff_mem, hid] at hn
    refine ⟨fun he => ?_, Nat.le_antisymm (hle n) (List.count_pos_iff.mpr hn.1)⟩
    rw [he] at hn
    simp at hn

theorem moveFocused_change {w : Window} (hw : w.Ok) (hone : ∀ x, w.total x ≤ 1) (d : FocusDirection)
    {neighbor : Option PaneId} (hn : neighbor.all w.isNeighbor = true) (refs : List Nat) :
    Change none' refs w (w.moveFocused d neighbor) := by
  unfold moveFocused
  cases hs : w.activeSession with
  | none => exact (Shaped.refl w).change hw _ _
  | some s =>
    simp only
    split
    · rename_i tree id htree hid
      refine retree_change (f := fun s => (s.setTree (some ((tree.moving id d neighbor).getD tree))).setZoomed none) hw hs
        rfl (fun _ => rfl) rfl (fun x => ?_) refs
      rw [htree]
      exact moved_count hw hone hs htree hid d hn x
    · exact (Shaped.refl w).change hw _ _

theorem edit_fixed {w : Window} {i : Nat} {s : Session} (hi : w.sessions[i]? = some s) {f : Session → Session}
    (hf : f s = s) : w.edit i f = w := by
  unfold edit
  rw [modify_of_fixed hi hf]
  rfl

theorem resized_ref (s : Session) (d : FocusDirection) : (s.resizeFocused d).ref = s.ref := by
  unfold Session.resizeFocused
  repeat' split
  all_goals rfl

theorem resizeFocused_cases {s : Session} {d : FocusDirection} (h : s.resizeFocused d ≠ s) :
    ∃ tree adjusted, s.tree = some tree ∧ s.resizeFocused d = s.setTree (some adjusted) ∧
      adjusted.leaves = tree.leaves := by
  unfold Session.resizeFocused at h ⊢
  cases htree : s.tree with
  | none => simp [htree] at h
  | some tree =>
    cases hid : s.focusedID with
    | none => simp [htree, hid] at h
    | some id =>
      simp only [htree, hid] at h ⊢
      cases ha : tree.adjustingRatio id d.axis (if d.toFirst then -3 / 100 else 3 / 100) with
      | none => simp [ha] at h
      | some adjusted => exact ⟨tree, adjusted, rfl, rfl, SplitNode.leaves_adjustingRatio ha⟩

theorem resizeFocused_change {w : Window} (hw : w.Ok) (d : FocusDirection) (refs : List Nat) :
    Change none' refs w (w.resizeFocused d) := by
  obtain ⟨s, hs⟩ : ∃ s, w.sessions[w.active]? = some s := ⟨_, List.getElem?_eq_getElem hw.active_lt⟩
  unfold resizeFocused
  by_cases hf : s.resizeFocused d = s
  · rw [edit_fixed hs hf]
    exact (Shaped.refl w).change hw _ _
  · obtain ⟨tree, adjusted, htree, heq, hleaves⟩ := resizeFocused_cases hf
    refine retree_change (f := fun s => s.resizeFocused d) hw hs ?_ (fun s => resized_ref s d) ?_ (fun x => ?_) refs
    · rw [heq, Session.keys_setTree]
    · rw [heq]
      rfl
    · rw [heq, htree]
      show adjusted.leaves.count x = tree.leaves.count x
      rw [hleaves]

/-! ## Restored windows -/

/-- The sessions a restore makes, up to focus and zoom. -/
def rebuilt : Nat → List SessionSnapshot → List Session
  | _, [] => []
  | ref, saved :: rest => (Session.new ref).rebuild saved :: rebuilt (ref + 1) rest

theorem shape_rebuild (s : Session) (saved : SessionSnapshot) :
    (s.rebuild saved).shape = (s.shape.rebuild saved).shape := by
  have hfold : ∀ (ids : List PaneId) (s : Session),
      (ids.foldl (fun s id => s.setPane (PaneView.restored id (saved.panes.lookup id))) s).panes =
        (ids.foldl (fun s id => s.setPane (PaneView.restored id (saved.panes.lookup id))) s.shape).panes := by
    intro ids
    induction ids with
    | nil => intro s; rfl
    | cons id ids ih =>
      intro s
      rw [List.foldl_cons, List.foldl_cons, ih]
      rfl
  have hpanes := hfold saved.tree.leaves s
  have href : (s.rebuild saved).ref = (s.shape.rebuild saved).ref := by rw [s.ref_rebuild, s.shape.ref_rebuild]; rfl
  exact congrArg₂ (fun r p => Session.mk r (some saved.tree) p none none []) href hpanes

theorem shaped_restore (w : Window) (i : Nat) (saved : SessionSnapshot) :
    Shaped (w.edit i fun s => s.rebuild saved) (w.restore i saved) := by
  unfold restore
  simp only
  split
  · exact shaped_focus _ _
  · exact .refl _

/-- Restored one after the other, each takes the place of a new session. -/
theorem restoreEach_shape : ∀ (saved : List SessionSnapshot) (ref : Nat) (w : Window) (before : List Session),
    w.sessions.map Session.shape = before ++ newSessions ref saved →
    (w.restoreEach before.length saved).sessions.map Session.shape =
      before ++ (rebuilt ref saved).map Session.shape ∧
    (w.restoreEach before.length saved).active = w.active ∧
    (w.restoreEach before.length saved).closedPanes = w.closedPanes := by
  intro saved
  induction saved with
  | nil => intro ref w before h; exact ⟨h, rfl, rfl⟩
  | cons first rest ih =>
    intro ref w before h
    have hs := shaped_restore w before.length first
    have hnext : (w.restore before.length first).sessions.map Session.shape =
        (before ++ [((Session.new ref).rebuild first).shape]) ++ newSessions (ref + 1) rest := by
      have hcomm := map_modify_comm (f := fun s => s.rebuild first) (g := Session.shape)
        (k := fun s => (s.rebuild first).shape) (fun s => shape_rebuild s first) before.length w.sessions
      rw [hs.sessions, List.append_assoc]
      show (w.sessions.modify before.length fun s => s.rebuild first).map Session.shape = _
      rw [hcomm, h, newSessions, modify_append_cons]
      rfl
    obtain ⟨h1, h2, h3⟩ := ih (ref + 1) (w.restore before.length first)
      (before ++ [((Session.new ref).rebuild first).shape]) hnext
    rw [List.length_append, List.length_singleton] at h1 h2 h3
    refine ⟨?_, h2.trans hs.active, h3.trans hs.closed⟩
    show ((w.restore before.length first).restoreEach (before.length + 1) rest).sessions.map Session.shape = _
    rw [h1, List.append_assoc]
    rfl

theorem shape_newSessions (ref : Nat) (saved : List SessionSnapshot) :
    (newSessions ref saved).map Session.shape = newSessions ref saved := by
  induction saved generalizing ref with
  | nil => rfl
  | cons first rest ih => rw [newSessions, List.map_cons, ih]; rfl

theorem shaped_restoreSessions (w : Window) (fresh : Nat) {saved : List SessionSnapshot} (hne : saved ≠ [])
    (active : Int) :
    Shaped ((w.setSessions (rebuilt fresh saved)).setActive (min active.toNat (saved.length - 1)))
      (w.restoreSessions fresh saved active) := by
  unfold restoreSessions
  rw [if_neg (by rw [List.isEmpty_iff]; exact hne)]
  obtain ⟨h1, h2, h3⟩ := restoreEach_shape saved fresh
    ((w.setSessions (newSessions fresh saved)).setActive (min active.toNat (saved.length - 1))) []
    (shape_newSessions fresh saved)
  exact Shaped.trans ⟨h1, h2, h3⟩ (shaped_focusActive _)

theorem rebuilt_spec (ref : Nat) (saved : List SessionSnapshot) :
    (rebuilt ref saved).length = saved.length ∧
    (∀ s ∈ rebuilt ref saved, s.tree.isSome = true) ∧
    ((∀ x, (saved.flatMap fun s => s.tree.leaves).count x ≤ 1) →
      (∀ s ∈ rebuilt ref saved, s.Ok) ∧
      ∀ x, ((rebuilt ref saved).flatMap Session.keys).count x = (saved.flatMap fun s => s.tree.leaves).count x) ∧
    (rebuilt ref saved).map (fun s => s.ref) = List.range' ref saved.length := by
  induction saved generalizing ref with
  | nil =>
    have hnil : ∀ s : Session, s ∈ rebuilt ref [] → False := fun s hs => List.not_mem_nil hs
    exact ⟨rfl, fun s hs => (hnil s hs).elim, fun _ => ⟨fun s hs => (hnil s hs).elim, fun _ => rfl⟩, rfl⟩
  | cons first rest ih =>
    obtain ⟨hlen, htree, hok, hrefs⟩ := ih (ref + 1)
    refine ⟨by simp [rebuilt, hlen], fun s hs => ?_, fun hone => ?_, ?_⟩
    · obtain rfl | hs := List.mem_cons.mp hs
      · rfl
      · exact htree s hs
    · have hfirst : ∀ x, first.tree.leaves.count x ≤ 1 := fun x => by
        have := hone x
        rw [count_flatMap_cons] at this
        omega
      have hkeys := Session.count_rebuild_new (s := Session.new ref) rfl hfirst
      obtain ⟨hok, hcount⟩ := hok fun x => by
        have := hone x
        rw [count_flatMap_cons] at this
        omega
      refine ⟨fun s hs => ?_, fun x => ?_⟩
      · obtain rfl | hs := List.mem_cons.mp hs
        · exact fun x => Nat.le_of_eq (hkeys x).symm
        · exact hok s hs
      · rw [rebuilt, count_flatMap_cons, count_flatMap_cons, hkeys, hcount]
    · rw [rebuilt, List.map_cons, hrefs, Session.ref_rebuild]
      rfl

theorem restoreSessions_change {w : Window} (hw : w.Ok) (hempty : w.keys = []) (fresh : Nat)
    (saved : List SessionSnapshot)
    (active : Int) (hone : ∀ x, (saved.flatMap fun s => s.tree.leaves).count x ≤ 1) :
    (w.restoreSessions fresh saved active).Ok ∧
    (∀ x, (w.restoreSessions fresh saved active).total x ≤ w.total x + (saved.flatMap fun s => s.tree.leaves).count x) ∧
    (w.restoreSessions fresh saved active).refs.Sublist (w.refs ++ List.range' fresh saved.length) := by
  cases saved with
  | nil => exact ⟨hw, fun x => Nat.le_add_right _ _, List.sublist_append_left _ _⟩
  | cons first rest =>
    obtain ⟨hlen, htree, hok, hrefs⟩ := rebuilt_spec fresh (first :: rest)
    obtain ⟨hok, hcount⟩ := hok hone
    have hs := shaped_restoreSessions w fresh (List.cons_ne_nil first rest) active
    rw [List.length_cons] at hlen hs
    refine ⟨hs.ok ⟨List.cons_ne_nil _ _, ?_, hok, ?_⟩, fun x => ?_, ?_⟩
    · show min active.toNat (rest.length + 1 - 1) < (rebuilt fresh (first :: rest)).length
      omega
    · show (rebuilt fresh (first :: rest)).countP (fun s => s.tree.isNone) ≤ 1
      have h0 : (rebuilt fresh (first :: rest)).countP (fun s => s.tree.isNone) = 0 := by
        rw [List.countP_eq_zero]
        intro s' hs'
        rw [Option.isNone_iff_eq_none, ← Option.not_isSome_iff_eq_none, not_not]
        exact htree s' hs'
      omega
    · rw [hs.total]
      show ((rebuilt fresh (first :: rest)).flatMap Session.keys).count x + w.closedPanes.ids.count x ≤
        w.keys.count x + w.closedPanes.ids.count x + _
      rw [hcount, hempty]
      simp only [List.count_nil]
      omega
    · rw [hs.refs]
      show ((rebuilt fresh (first :: rest)).map fun s => s.ref).Sublist _
      rw [hrefs]
      exact List.sublist_append_right _ _

/-! ## Every operation -/

/-- The panes an operation brings in. -/
def added : Act → PaneId → Nat
  | .newSession id _ => one id
  | .split _ id _ _ _ _ => one id
  | _ => none'

theorem act_change {w : Window} (hw : w.Ok) {act : Act} (hone : ∀ x, w.total x + added act x ≤ 1) (fresh : Nat)
    (hn : ∀ d n, act = .moveFocused d n → n.all w.isNeighbor = true) :
    Change (added act) [fresh, fresh + 1] w (w.act fresh act) := by
  have hle : ∀ x, w.total x ≤ 1 := fun x => Nat.le_trans (Nat.le_add_right _ _) (hone x)
  have hsub : [fresh].Sublist [fresh, fresh + 1] := List.sublist_append_left [fresh] [fresh + 1]
  have hnil : ([] : List Nat).Sublist [fresh, fresh + 1] := List.nil_sublist _
  cases act with
  | newSession id target => exact (newSession_change hw fresh id target).mono hsub
  | split source id d before atRoot target =>
    unfold Window.act
    cases source with
    | none => exact (split_change hw hone _ none d before atRoot target).mono hnil
    | some p =>
      simp only
      cases w.owner p with
      | none => exact (Shaped.refl w).change hw _ _
      | some i => exact (split_change hw hone i (some p) d before atRoot target).mono hnil
  | moveFocused d n => exact moveFocused_change hw hle d (hn d n rfl) _
  | toggleZoom => exact (shaped_toggleZoom w).change hw _ _
  | resizeFocused d => exact resizeFocused_change hw d _
  | focusDirection target => exact (shaped_focusDirection w target).change hw _ _
  | click id => exact (shaped_focus w id).change hw _ _
  | commitCanvas i id => exact commitCanvas_change hw i id _
  | selectSession i => exact selectSession_change hw i _
  | movePaneToNewSession => exact movePaneToNewSession_change hw fresh
  | movePane i => exact (movePane_change hw hle i fresh).mono hsub
  | killFocusedPane =>
    show Change none' _ w (w.killFocusedPane fresh)
    unfold killFocusedPane
    split
    · exact (removePane_change hw _ _ fresh).mono hsub
    · exact (Shaped.refl w).change hw _ _
  | paneExited id => exact (removePane_change hw _ id fresh).mono hsub
  | reopenClosedTab now => exact (reopenClosedTab_change hw now fresh).mono hsub
  | becomeKey => exact (shaped_focusActive w).change hw _ _

end Window

end Mux.Tiling
