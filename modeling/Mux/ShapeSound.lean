import Mux.LayoutSound
import Mux.GeometrySound
import Mux.SnapshotStoreSound

/-!
# The shape of the trees

A file is decoded as it stands: nothing looks at the ratios of its trees, or for an id that
is twice in it. Every operation after the restore keeps the ratios in the range that resizing
clamps to and each terminal at one place of its window, so the trees have their shape as
long as the file's windows had theirs. A closed pane whose deadline is past is never restored.
-/

namespace Mux.Tiling

open Lib

namespace SplitNode

/-- Every ratio is in the range of `clampRatio`. -/
def InRange (t : SplitNode) : Prop := t.RatiosIn (1 / 10) (9 / 10)

theorem evenRatio_mem : 1 / 10 ≤ evenRatio ∧ evenRatio ≤ 9 / 10 := by
  unfold evenRatio
  norm_num

theorem inRange_leaf (id : PaneId) : (leaf id).InRange := trivial

section
variable {t t' : SplitNode} (h : t.InRange)
include h

theorem inRange_insertingAtRoot (new : PaneId) (d : SplitDirection) (newFirst : Bool) :
    (t.insertingAtRoot new d evenRatio newFirst).InRange := by
  cases newFirst with
  | true => exact ⟨evenRatio_mem, inRange_leaf new, h⟩
  | false => exact ⟨evenRatio_mem, h, inRange_leaf new⟩

theorem inRange_inserting (new target : PaneId) (d : SplitDirection) (newFirst : Bool) :
    (t.inserting new target d evenRatio newFirst).InRange := by
  induction t with
  | leaf id =>
    by_cases hid : id = target
    · rw [inserting, if_pos hid]
      exact inRange_insertingAtRoot h new d newFirst
    · rw [inserting, if_neg hid]
      exact h
  | split d' r first second ih1 ih2 => exact ⟨h.1, ih1 h.2.1, ih2 h.2.2⟩

theorem inRange_removing {target : PaneId} (hr : t.removing target = some t') : t'.InRange := by
  induction t generalizing t' with
  | leaf id =>
    by_cases hid : id = target
    · simp [removing, hid] at hr
    · simp only [removing, if_neg hid, Option.some.injEq] at hr
      exact hr ▸ h
  | split d r first second ih1 ih2 =>
    rw [removing] at hr
    cases h1 : first.removing target with
    | none =>
      cases h2 : second.removing target with
      | none => simp [h1, h2] at hr
      | some s =>
        simp only [h1, h2, Option.some.injEq] at hr
        exact hr ▸ ih2 h.2.2 h2
    | some f =>
      cases h2 : second.removing target with
      | none =>
        simp only [h1, h2, Option.some.injEq] at hr
        exact hr ▸ ih1 h.2.1 h1
      | some s =>
        simp only [h1, h2, Option.some.injEq] at hr
        exact hr ▸ ⟨h.1, ih1 h.2.1 h1, ih2 h.2.2 h2⟩

theorem inRange_moving {id : PaneId} {direction : FocusDirection} {neighbor : Option PaneId}
    (hm : t.moving id direction neighbor = some t') : t'.InRange := by
  unfold moving at hm
  split at hm
  · obtain ⟨rest, hrest, hm⟩ := Option.bind_eq_some_iff.mp hm
    have hin := inRange_removing h hrest
    cases neighbor with
    | some n =>
      cases hm
      exact inRange_inserting hin id n direction.axis direction.toFirst
    | none =>
      simp only at hm
      split at hm <;> cases hm
      exact inRange_insertingAtRoot hin id direction.axis direction.toFirst
  · cases hm

theorem inRange_adjustingRatio {id : PaneId} {axis : SplitDirection} {delta : Rat}
    (ha : t.adjustingRatio id axis delta = some t') : t'.InRange := by
  induction t generalizing t' with
  | leaf l => cases ha
  | split d r first second ih1 ih2 =>
    unfold adjustingRatio at ha
    by_cases hf : first.contains id = true
    · rw [if_pos hf] at ha
      cases h1 : first.adjustingRatio id axis delta with
      | some f =>
        simp only [h1, Option.some.injEq] at ha
        exact ha ▸ ⟨h.1, ih1 h.2.1 h1, h.2.2⟩
      | none =>
        simp only [h1] at ha
        split at ha <;> cases ha
        exact ⟨clampRatio_mem _, h.2⟩
    · rw [if_neg hf] at ha
      by_cases hs : second.contains id = true
      · rw [if_pos hs] at ha
        cases h2 : second.adjustingRatio id axis delta with
        | some s =>
          simp only [h2, Option.some.injEq] at ha
          exact ha ▸ ⟨h.1, h.2.1, ih2 h.2.2 h2⟩
        | none =>
          simp only [h2] at ha
          split at ha <;> cases ha
          exact ⟨clampRatio_mem _, h.2⟩
      · rw [if_neg hs] at ha
        cases ha

end

theorem RatiosIn.mono {lo hi lo' hi' : Rat} {t : SplitNode} (h : t.RatiosIn lo hi) (hlo : lo' ≤ lo) (hhi : hi ≤ hi') :
    t.RatiosIn lo' hi' := by
  induction t with
  | leaf id => trivial
  | split d r first second ih1 ih2 => exact ⟨⟨le_trans hlo h.1.1, le_trans h.1.2 hhi⟩, ih1 h.2.1, ih2 h.2.2⟩

end SplitNode

/-! ## Ratios over the operations of a window -/

def Session.InRange (s : Session) : Prop := ∀ t, s.tree = some t → t.InRange

theorem Session.inRange_of_none {s : Session} (h : s.tree = none) : s.InRange := by
  intro t ht
  rw [h] at ht
  cases ht

theorem Session.inRange_of_some {s : Session} {t : SplitNode} (h : s.tree = some t) (ht : t.InRange) : s.InRange := by
  intro t' ht'
  rw [h] at ht'
  cases ht'
  exact ht

namespace Window

def Ranged (w : Window) : Prop := ∀ s ∈ w.sessions, s.InRange

theorem Ranged.get {w : Window} (h : w.Ranged) {i : Nat} {s : Session} (hi : w.sessions[i]? = some s) : s.InRange :=
  h s (List.mem_of_getElem? hi)

theorem Shaped.ranged {w w' : Window} (h : Shaped w w') (hw : w.Ranged) : w'.Ranged := by
  intro s' hs' t ht
  obtain ⟨i, hi⟩ := List.getElem?_of_mem hs'
  obtain ⟨s, hs, heq⟩ := h.get hi
  have htree : s'.tree = s.tree := congrArg (fun s => s.tree) heq
  exact hw.get hs t (htree ▸ ht)

/-- Each session is one there was, or has its ratios in range. -/
theorem ranged_of {w w' : Window} (hw : w.Ranged) (h : ∀ s ∈ w'.sessions, s ∈ w.sessions ∨ s.InRange) :
    w'.Ranged := by
  intro s hs
  rcases h s hs with h | h
  · exact hw s h
  · exact h

section
variable {w : Window} (hw : w.Ranged)
include hw

theorem ranged_edit (i : Nat) {f : Session → Session} (hf : ∀ s, s.InRange → (f s).InRange) :
    (w.edit i f).Ranged := by
  cases hi : w.sessions[i]? with
  | none =>
    rw [edit_none hi]
    exact hw
  | some s =>
    intro s' hs'
    rcases mem_edit hi hs' with rfl | hs'
    · exact hf s (hw.get hi)
    · exact hw s' hs'

/-- Whatever else happens to the session, its tree is the one that is put there. -/
theorem ranged_put (i : Nat) {f : Session → Session} {tree : Option SplitNode} (ht : ∀ t, tree = some t → t.InRange)
    (hf : ∀ s, (f s).tree = tree) : (w.edit i f).Ranged :=
  ranged_edit hw i fun s _ t h => ht t ((hf s).symm.trans h)

theorem ranged_plant (i : Nat) {f : Session → Session} {tree : SplitNode} (ht : tree.InRange)
    (hf : ∀ s, (f s).tree = some tree) : (w.edit i f).Ranged :=
  ranged_edit hw i fun s _ => Session.inRange_of_some (hf s) ht

theorem ranged_sessionDidEmpty (i fresh : Nat) : (w.sessionDidEmpty i fresh).Ranged := by
  unfold sessionDidEmpty
  simp only
  split
  · apply (shaped_focusActive _).ranged
    intro s hs
    obtain rfl := List.mem_singleton.mp hs
    exact Session.inRange_of_none rfl
  · apply (shaped_focusActive _).ranged
    exact ranged_of hw fun s hs => Or.inl ((List.eraseIdx_sublist _ _).subset hs)

theorem ranged_dropEmpty : w.dropEmpty.Ranged := ranged_of hw fun _ hs => Or.inl (w.dropEmpty_sublist.subset hs)

theorem ranged_append {s : Session} (hs : s.InRange) (active : Nat) :
    ((w.setSessions (w.sessions ++ [s])).setActive active).Ranged := by
  apply ranged_of hw
  intro s' hs'
  rcases List.mem_append.mp hs' with hs' | hs'
  · exact Or.inl hs'
  · exact Or.inr (List.mem_singleton.mp hs' ▸ hs)

theorem ranged_pushActive (ref : Nat) : (w.pushActive ref).Ranged :=
  ranged_append (ranged_dropEmpty hw) (Session.inRange_of_none rfl) _

theorem ranged_addInitialPane (i : Nat) (p : PaneView) : (w.addInitialPane i p).Ranged := by
  apply (shaped_focus _ _).ranged
  exact ranged_plant hw i (SplitNode.inRange_leaf p.id) fun _ => rfl

theorem ranged_restore (i : Nat) {saved : SessionSnapshot} (hs : saved.tree.InRange) :
    (w.restore i saved).Ranged := by
  apply (shaped_restore w i saved).ranged
  exact ranged_plant hw i hs fun _ => rfl

theorem ranged_setClosed (h : History) : (w.setClosed h).Ranged := hw

theorem ranged_reopenClosedTab (now ref : Nat) : (w.reopenClosedTab now ref).Ranged := by
  unfold reopenClosedTab
  split
  · exact ranged_restore (ranged_pushActive (ranged_setClosed hw _) ref) _ (SplitNode.inRange_leaf _)
  · exact ranged_setClosed hw _

theorem ranged_newSession (ref : Nat) (id : PaneId) (target : NewPaneTarget) : (w.newSession ref id target).Ranged :=
  ranged_addInitialPane (ranged_pushActive hw ref) _ _

omit hw in
theorem inRange_recoveryTree (first : PaneId) (ids : List PaneId) : (recoveryTree first ids).InRange := by
  have hfold : ∀ (ids : List PaneId) (t : SplitNode × PaneId), t.1.InRange →
      (ids.foldl (fun (t : SplitNode × PaneId) id =>
        (t.1.inserting id t.2 .horizontal evenRatio false, id)) t).1.InRange := by
    intro ids
    induction ids with
    | nil => intro t ht; exact ht
    | cons id ids ih =>
      intro t ht
      rw [List.foldl_cons]
      exact ih _ (SplitNode.inRange_inserting ht id t.2 .horizontal false)
  exact hfold ids (.leaf first, first) (SplitNode.inRange_leaf first)

theorem ranged_addRecoverySession (ref : Nat) (panes : List (PaneId × PaneSnapshot)) :
    (w.addRecoverySession ref panes).Ranged := by
  unfold addRecoverySession
  split
  · exact hw
  · apply (shaped_focusActive _).ranged
    apply ranged_restore _ _ (inRange_recoveryTree _ _)
    exact ranged_append (ranged_dropEmpty hw) (Session.inRange_of_none rfl) w.dropEmpty.active

theorem ranged_split (i : Nat) (source : Option PaneId) (id : PaneId) (d : SplitDirection) (before atRoot : Bool)
    (target : NewPaneTarget) : (w.split i source id d before atRoot target).Ranged := by
  unfold split
  split
  · exact hw
  · rename_i s hs
    split
    · rename_i from' tree _ htree
      have hin := hw.get hs tree htree
      apply (shaped_focus _ _).ranged
      refine ranged_plant hw i ?_ fun _ => rfl
      by_cases hroot : atRoot = true
      · rw [if_pos hroot]
        exact SplitNode.inRange_insertingAtRoot hin id d before
      · rw [if_neg hroot]
        exact SplitNode.inRange_inserting hin id from'.id d before
    · exact hw

/-- The tree of a session a pane was taken out of. -/
theorem inRange_removed {i : Nat} {s : Session} (hs : w.sessions[i]? = some s) (id : PaneId) :
    ∀ t, (s.tree.bind fun t => t.removing id) = some t → t.InRange := by
  intro t ht
  obtain ⟨t', ht', hr⟩ := Option.bind_eq_some_iff.mp ht
  exact SplitNode.inRange_removing (hw.get hs t' ht') hr

theorem ranged_removePane (i : Nat) (id : PaneId) (fresh : Nat) : (w.removePane i id fresh).Ranged := by
  cases hs : w.sessions[i]? with
  | none => simpa [removePane, hs] using hw
  | some s =>
    by_cases hid : id ∈ s.keys
    · have hput : (w.edit i fun s' => (s'.dropPane id).setTree (s.tree.bind fun t => t.removing id)).Ranged :=
        ranged_put hw i (inRange_removed hw hs id) fun _ => rfl
      have hview := (shaped_removeView _ id).ranged hput
      rw [removePane_eq hs hid]
      simp only
      split
      · exact ranged_sessionDidEmpty hview i fresh
      · exact (shaped_settle _ i id _).ranged hview
    · have hno : s.contains id = false := by
        rw [← Bool.not_eq_true, Session.contains_iff]
        exact hid
      simpa [removePane, hs, hno] using hw

theorem ranged_detach (i : Nat) (id : PaneId) (fresh : Nat) : (w.detach i id fresh).Ranged := by
  unfold detach
  split
  · exact hw
  · rename_i s hs
    split
    · have hput : (w.edit i fun s' => ((s'.dropPane id).setTree (s.tree.bind fun t => t.removing id)).setFocused
          (if s'.focusedID = some id then (leavesOf (s.tree.bind fun t => t.removing id)).head?
            else s'.focusedID)).Ranged :=
        ranged_put hw i (inRange_removed hw hs id) fun _ => rfl
      simp only
      split
      · exact ranged_sessionDidEmpty hput i fresh
      · exact (shaped_edit _ i fun s => s.shape_unzoomIf _).ranged hput
    · exact hw

theorem ranged_adopt (i : Nat) (p : PaneView) : (w.adopt i p).Ranged := by
  apply (shaped_focus _ _).ranged
  apply ranged_edit hw i
  intro s hs t ht
  cases ht
  unfold Session.adoptTree
  split
  · exact SplitNode.inRange_leaf p.id
  · rename_i tree htree
    split
    · exact SplitNode.inRange_inserting (hs tree htree) _ _ _ _
    · exact SplitNode.inRange_leaf p.id

theorem ranged_movePaneToNewSession (fresh : Nat) : (w.movePaneToNewSession fresh).Ranged := by
  unfold movePaneToNewSession
  split
  · exact hw
  split
  · exact hw
  split
  · exact ranged_adopt (ranged_append (ranged_detach hw _ _ fresh) (Session.inRange_of_none rfl) _) _ _
  · exact hw

theorem ranged_setActive (i : Nat) : (w.setActive i).Ranged := hw

theorem ranged_movePane (index fresh : Nat) : (w.movePane index fresh).Ranged := by
  unfold movePane
  split
  · exact hw
  split
  · split
    · exact hw
    · simp only
      split
      · exact ranged_detach hw _ _ fresh
      · exact ranged_adopt (ranged_setActive (ranged_detach hw _ _ fresh) _) _ _
  · exact hw

theorem ranged_selectSession (i : Nat) : (w.selectSession i).Ranged := by
  unfold selectSession
  split
  · exact (shaped_focusActive _).ranged hw
  · exact hw

theorem ranged_commitCanvas (i : Nat) (id : PaneId) : (w.commitCanvas i id).Ranged := by
  unfold commitCanvas
  split
  · exact hw
  split
  · exact (shaped_reveal _ i id).ranged (ranged_selectSession hw i)
  · exact hw

theorem ranged_moveFocused (d : FocusDirection) (neighbor : Option PaneId) : (w.moveFocused d neighbor).Ranged := by
  unfold moveFocused
  split
  · exact hw
  · rename_i s hs
    split
    · rename_i tree id htree _
      have hin := hw.get hs tree htree
      refine ranged_plant hw w.active ?_ fun _ => rfl
      cases hm : tree.moving id d neighbor with
      | none => exact hin
      | some moved => exact SplitNode.inRange_moving hin hm
    · exact hw

theorem ranged_resizeFocused (d : FocusDirection) : (w.resizeFocused d).Ranged := by
  apply ranged_edit hw w.active
  intro s hs
  unfold Session.resizeFocused
  split
  · rename_i tree id htree _
    split
    · rename_i adjusted ha
      exact Session.inRange_of_some rfl (SplitNode.inRange_adjustingRatio (hs tree htree) ha)
    · exact hs
  · exact hs

theorem ranged_act (fresh : Nat) (act : Act) : (w.act fresh act).Ranged := by
  cases act with
  | newSession id target => exact ranged_newSession hw fresh id target
  | split source id d before atRoot target =>
    unfold Window.act
    cases source with
    | none => exact ranged_split hw _ none id d before atRoot target
    | some p =>
      simp only
      cases w.owner p with
      | none => exact hw
      | some i => exact ranged_split hw i (some p) id d before atRoot target
  | moveFocused d n => exact ranged_moveFocused hw d n
  | toggleZoom => exact (shaped_toggleZoom w).ranged hw
  | resizeFocused d => exact ranged_resizeFocused hw d
  | focusDirection target => exact (shaped_focusDirection w target).ranged hw
  | click id => exact (shaped_focus w id).ranged hw
  | commitCanvas i id => exact ranged_commitCanvas hw i id
  | selectSession i => exact ranged_selectSession hw i
  | movePaneToNewSession => exact ranged_movePaneToNewSession hw fresh
  | movePane i => exact ranged_movePane hw i fresh
  | killFocusedPane =>
    show (w.killFocusedPane fresh).Ranged
    unfold killFocusedPane
    split
    · exact ranged_removePane hw _ _ fresh
    · exact hw
  | paneExited id => exact ranged_removePane hw _ id fresh
  | reopenClosedTab now => exact ranged_reopenClosedTab hw now fresh
  | becomeKey => exact (shaped_focusActive w).ranged hw

end

/-! ## Operations that leave the closed panes alone -/

/-- The operation neither reads nor changes the closed panes. -/
def Blind (f : Window → Window) : Prop := ∀ (w : Window) (h : History), f (w.setClosed h) = (f w).setClosed h

section
variable (w : Window) (h : History)

theorem sessions_setClosed : (w.setClosed h).sessions = w.sessions := rfl

theorem active_setClosed : (w.setClosed h).active = w.active := rfl

theorem responder_setClosed : (w.setClosed h).responder = w.responder := rfl

theorem activeSession_setClosed : (w.setClosed h).activeSession = w.activeSession := rfl

theorem owner_setClosed (id : PaneId) : (w.setClosed h).owner id = w.owner id := rfl

theorem edit_setClosed (i : Nat) (f : Session → Session) : (w.setClosed h).edit i f = (w.edit i f).setClosed h := rfl

end

namespace Blind

variable {f g : Window → Window}

theorem comp (hg : Blind g) (hf : Blind f) : Blind fun w => g (f w) := by
  intro w h
  show g (f (w.setClosed h)) = (g (f w)).setClosed h
  rw [hf w h, hg]

theorem closedPanes (hf : Blind f) (w : Window) : (f w).closedPanes = w.closedPanes := by
  have h := hf w w.closedPanes
  exact congrArg (fun w => w.closedPanes) h

end Blind

theorem blind_edit (i : Nat) (f : Session → Session) : Blind fun w => w.edit i f := fun _ _ => rfl

theorem blind_noteFocused (id : PaneId) : Blind fun w => w.noteFocused id := by
  intro w h
  beta_reduce
  unfold noteFocused
  rw [owner_setClosed]
  cases w.owner id <;> rfl

theorem blind_focus (id : PaneId) : Blind fun w => w.focus id := by
  intro w h
  beta_reduce
  unfold focus
  rw [responder_setClosed]
  split
  · rfl
  · exact congrArg (fun w => w.setResponder (some id)) (blind_noteFocused id w h)

theorem blind_focusActive : Blind focusActive := by
  intro w h
  unfold focusActive
  rw [activeSession_setClosed]
  split
  · exact blind_focus _ w h
  · rfl

theorem blind_removeView (id : PaneId) : Blind fun w => w.removeView id := by
  intro w h
  beta_reduce
  unfold removeView
  rw [responder_setClosed]
  split <;> rfl

theorem removeView_setClosed (w : Window) (h : History) (id : PaneId) :
    (w.setClosed h).removeView id = (w.removeView id).setClosed h := blind_removeView id w h

theorem blind_sessionDidEmpty (i fresh : Nat) : Blind fun w => w.sessionDidEmpty i fresh := by
  intro w h
  beta_reduce
  unfold sessionDidEmpty
  rw [sessions_setClosed, active_setClosed]
  simp only
  split
  · exact blind_focusActive (((w.setSessions [Session.new fresh]).setActive 0).setResponder none) h
  · exact blind_focusActive ((w.setSessions _).setActive _) h

theorem blind_pushActive (ref : Nat) : Blind fun w => w.pushActive ref := fun _ _ => rfl

theorem blind_addInitialPane (i : Nat) (p : PaneView) : Blind fun w => w.addInitialPane i p :=
  (blind_focus p.id).comp (blind_edit i _)

theorem blind_restore (i : Nat) (saved : SessionSnapshot) : Blind fun w => w.restore i saved := by
  intro w h
  beta_reduce
  unfold restore
  rw [edit_setClosed]
  simp only [sessions_setClosed]
  split
  · exact blind_focus _ _ h
  · rfl

theorem blind_newSession (ref : Nat) (id : PaneId) (target : NewPaneTarget) :
    Blind fun w => w.newSession ref id target := by
  intro w h
  exact blind_addInitialPane _ _ (w.pushActive ref) h

theorem blind_addRecoverySession (ref : Nat) (panes : List (PaneId × PaneSnapshot)) :
    Blind fun w => w.addRecoverySession ref panes := by
  intro w h
  beta_reduce
  unfold addRecoverySession
  split
  · rfl
  · exact (blind_focusActive.comp (blind_restore _ _)) (w.dropEmpty.setSessions _) h

theorem blind_split (i : Nat) (source : Option PaneId) (id : PaneId) (d : SplitDirection) (before atRoot : Bool)
    (target : NewPaneTarget) : Blind fun w => w.split i source id d before atRoot target := by
  intro w h
  beta_reduce
  unfold split
  rw [sessions_setClosed]
  cases w.sessions[i]? with
  | none => rfl
  | some s =>
    simp only
    split
    · exact blind_focus id (w.edit i _) h
    · rfl

theorem blind_removePane (i : Nat) (id : PaneId) (fresh : Nat) : Blind fun w => w.removePane i id fresh := by
  intro w h
  beta_reduce
  unfold removePane
  rw [sessions_setClosed]
  cases w.sessions[i]? with
  | none => rfl
  | some s =>
    simp only
    split
    · rw [edit_setClosed, removeView_setClosed]
      split
      · exact blind_sessionDidEmpty i fresh _ h
      · split
        · split
          · exact blind_focus _ (Window.edit _ i _) h
          · rfl
        · rfl
    · rfl

theorem blind_detach (i : Nat) (id : PaneId) (fresh : Nat) : Blind fun w => w.detach i id fresh := by
  intro w h
  beta_reduce
  unfold detach
  rw [sessions_setClosed]
  cases w.sessions[i]? with
  | none => rfl
  | some s =>
    simp only
    split
    · split
      · exact blind_sessionDidEmpty i fresh (w.edit i _) h
      · rfl
    · rfl

theorem detach_setClosed (w : Window) (h : History) (i : Nat) (id : PaneId) (fresh : Nat) :
    (w.setClosed h).detach i id fresh = (w.detach i id fresh).setClosed h := blind_detach i id fresh w h

theorem blind_adopt (i : Nat) (p : PaneView) : Blind fun w => w.adopt i p := (blind_focus p.id).comp (blind_edit i _)

theorem blind_movePaneToNewSession (fresh : Nat) : Blind fun w => w.movePaneToNewSession fresh := by
  intro w h
  beta_reduce
  unfold movePaneToNewSession
  rw [activeSession_setClosed]
  cases w.activeSession with
  | none => rfl
  | some source =>
    simp only
    cases source.focusedPane with
    | none => rfl
    | some pane =>
      simp only
      split
      · rw [active_setClosed, detach_setClosed]
        exact blind_adopt _ pane ((w.detach w.active pane.id fresh).setSessions _ |>.setActive _) h
      · rfl

theorem blind_movePane (index fresh : Nat) : Blind fun w => w.movePane index fresh := by
  intro w h
  beta_reduce
  unfold movePane
  rw [activeSession_setClosed, active_setClosed,
    sessions_setClosed]
  split
  · rfl
  split
  · rename_i target source _ _
    cases source.focusedPane with
    | none => rfl
    | some pane =>
      simp only
      rw [detach_setClosed, sessions_setClosed]
      split
      · rfl
      · exact blind_adopt _ pane ((w.detach w.active pane.id fresh).setActive _) h
  · rfl

theorem blind_selectSession (i : Nat) : Blind fun w => w.selectSession i := by
  intro w h
  beta_reduce
  unfold selectSession
  rw [active_setClosed, sessions_setClosed]
  split
  · exact blind_focusActive (w.setActive i) h
  · rfl

theorem blind_reveal (i : Nat) (id : PaneId) : Blind fun w => w.reveal i id := by
  intro w h
  beta_reduce
  unfold reveal
  rw [sessions_setClosed]
  split
  · rfl
  split
  · exact blind_focus id (w.edit i _) h
  · rfl

theorem blind_commitCanvas (i : Nat) (id : PaneId) : Blind fun w => w.commitCanvas i id := by
  intro w h
  beta_reduce
  unfold commitCanvas
  rw [sessions_setClosed]
  split
  · rfl
  split
  · exact ((blind_reveal i id).comp (blind_selectSession i)) w h
  · rfl

theorem blind_focusDirection (target : Option PaneId) : Blind fun w => w.focusDirection target := by
  intro w h
  beta_reduce
  unfold focusDirection
  rw [activeSession_setClosed, active_setClosed]
  split
  · rfl
  split
  · exact blind_focus _ (w.edit w.active _) h
  · rfl

theorem blind_moveFocused (d : FocusDirection) (neighbor : Option PaneId) :
    Blind fun w => w.moveFocused d neighbor := by
  intro w h
  beta_reduce
  unfold moveFocused
  rw [activeSession_setClosed]
  split
  · rfl
  split <;> rfl

theorem blind_killFocusedPane (fresh : Nat) : Blind fun w => w.killFocusedPane fresh := by
  intro w h
  beta_reduce
  unfold killFocusedPane
  rw [activeSession_setClosed, active_setClosed]
  split
  · exact blind_removePane _ _ fresh w h
  · rfl

/-- Every operation but the one that reopens a closed pane. -/
theorem blind_act (fresh : Nat) {act : Act} (hact : ∀ now, act ≠ .reopenClosedTab now) :
    Blind fun w => w.act fresh act := by
  cases act with
  | newSession id target => exact blind_newSession fresh id target
  | split source id d before atRoot target =>
    intro w h
    beta_reduce
    unfold Window.act
    cases source with
    | none => exact blind_split _ none id d before atRoot target w h
    | some p =>
      simp only
      rw [owner_setClosed]
      cases w.owner p with
      | none => rfl
      | some i => exact blind_split i (some p) id d before atRoot target w h
  | moveFocused d n => exact blind_moveFocused d n
  | toggleZoom => exact fun _ _ => rfl
  | resizeFocused d => exact fun _ _ => rfl
  | focusDirection target => exact blind_focusDirection target
  | click id => exact blind_focus id
  | commitCanvas i id => exact blind_commitCanvas i id
  | selectSession i => exact blind_selectSession i
  | movePaneToNewSession => exact blind_movePaneToNewSession fresh
  | movePane i => exact blind_movePane i fresh
  | killFocusedPane => exact blind_killFocusedPane fresh
  | paneExited id => exact fun w h => blind_removePane _ id fresh w h
  | reopenClosedTab now => exact absurd rfl (hact now)
  | becomeKey => exact blind_focusActive

theorem blind_without : Blind App.without := by
  intro w h
  unfold App.without
  exact blind_focusActive (((w.setResponder none).setSessions (w.sessions.eraseIdx w.active)).setActive _) h

end Window

namespace History

/-- The entries that a reopen at `t` or later can take out. -/
def liveAt (h : History) (t : Nat) : History := h.filter fun e => decide (t < e.deadline)

theorem count_liveAt_le (h : History) (t : Nat) (x : PaneId) : (ids (h.liveAt t)).count x ≤ (ids h).count x :=
  count_filter_le h _ x

theorem liveAt_remove (h : History) (id : PaneId) (host : Option String) (t : Nat) :
    (remove h id host).liveAt t = remove (h.liveAt t) id host := by
  unfold remove liveAt
  rw [List.filter_filter, List.filter_filter]
  exact List.filter_congr fun e _ => Bool.and_comm _ _

theorem count_liveAt_record_le (h : History) (id : PaneId) (pane : PaneSnapshot) (d t : Nat) (x : PaneId) :
    (ids ((record h id pane d).liveAt t)).count x ≤ (ids (record (h.liveAt t) id pane d)).count x := by
  have hsub : ((record h id pane d).liveAt t).Sublist (record (h.liveAt t) id pane d) := by
    unfold record
    rw [← liveAt_remove]
    unfold liveAt
    rw [List.filter_append]
    exact (List.Sublist.refl _).append List.filter_sublist
  exact (hsub.map _).count_le x

section
variable {h : History} {t now : Nat} (hnow : t ≤ now)
include hnow

theorem popLast_liveAt : popLast (h.liveAt t) now = popLast h now := by
  have hfilter : (h.liveAt t).filter (fun e => !decide (e.deadline ≤ now)) =
      h.filter fun e => !decide (e.deadline ≤ now) := by
    rw [liveAt, List.filter_filter]
    apply List.filter_congr
    intro e _
    by_cases he : e.deadline ≤ now
    · simp [he]
    · have hlt : t < e.deadline := by omega
      simp [he, hlt]
  unfold popLast
  rw [hfilter]

theorem liveAt_rest : (popLast h now).1.liveAt t = (popLast h now).1 := by
  apply List.filter_eq_self.mpr
  intro e he
  have hmem := List.mem_filter.mp ((List.dropLast_sublist _).subset he)
  simp only [Bool.not_eq_true', decide_eq_false_iff_not] at hmem
  rw [decide_eq_true_eq]
  omega

end

end History

namespace Window

/-! ## Panes over the operations of a window -/

/-- The window without the closed panes that are past their deadline at `t`. -/
def bare (t : Nat) (w : Window) : Window := w.setClosed (w.closedPanes.liveAt t)

theorem Ok.setClosed {w : Window} (h : w.Ok) (closed : History) : (w.setClosed closed).Ok :=
  ⟨h.nonempty, h.active_lt, h.ok, h.empties⟩

theorem total_setClosed (w : Window) (h : History) (x : PaneId) :
    (w.setClosed h).total x = w.keys.count x + h.ids.count x :=
  rfl

theorem total_bare_le (t : Nat) (w : Window) (x : PaneId) : (w.bare t).total x ≤ w.total x :=
  Nat.add_le_add_left (History.count_liveAt_le _ t x) _

theorem Blind.bare {f : Window → Window} (hf : Blind f) (t : Nat) (w : Window) : (f w).bare t = f (w.bare t) := by
  unfold Window.bare
  rw [hf.closedPanes, hf]

theorem reopened_closedPanes (w : Window) (now ref : Nat) :
    (w.reopenClosedTab now ref).closedPanes = (w.closedPanes.popLast now).1 := by
  unfold reopenClosedTab
  split
  · rename_i rest entry hp
    rw [hp]
    exact ((blind_restore _ _).comp (blind_pushActive ref)).closedPanes (w.setClosed rest)
  · rename_i rest hp
    rw [hp]
    rfl

theorem bare_reopenClosedTab (w : Window) {t now : Nat} (hnow : t ≤ now) (ref : Nat) :
    (w.reopenClosedTab now ref).bare t = (w.bare t).reopenClosedTab now ref := by
  have hsame : (w.bare t).reopenClosedTab now ref = w.reopenClosedTab now ref := by
    unfold reopenClosedTab
    rw [show (w.bare t).closedPanes = w.closedPanes.liveAt t from rfl, History.popLast_liveAt hnow]
    split <;> rfl
  rw [hsame, Window.bare, reopened_closedPanes, History.liveAt_rest hnow, ← reopened_closedPanes w now ref]
  rfl

theorem bare_act {t : Nat} {act : Act} (h : ∀ now, act = .reopenClosedTab now → t ≤ now) (fresh : Nat) (w : Window) :
    (w.act fresh act).bare t = (w.bare t).act fresh act := by
  by_cases hact : ∃ now, act = .reopenClosedTab now
  · obtain ⟨now, rfl⟩ := hact
    exact bare_reopenClosedTab w (h now rfl) fresh
  · exact (blind_act fresh fun now hn => hact ⟨now, hn⟩).bare t w

/-- Each terminal that can still be had is at one place of the window, and no ratio is out of range. -/
structure Shapely (t : Nat) (w : Window) : Prop where
  ok : w.Ok
  once : ∀ x, (w.bare t).total x ≤ 1
  ranged : w.Ranged

theorem shapely_of_change {t : Nat} {w w' : Window} {add : PaneId → Nat} {refs : List Nat}
    (hone : ∀ x, (w.bare t).total x + add x ≤ 1) (hc : Change add refs (w.bare t) (w'.bare t)) (hr : w'.Ranged) :
    w'.Shapely t :=
  ⟨hc.ok.setClosed w'.closedPanes, fun x => Nat.le_trans (hc.total x) (hone x), hr⟩

section
variable {t : Nat} {w w' : Window} (h : w.Shapely t)
include h

theorem Shapely.shaped (hs : Shaped w w') : w'.Shapely t := by
  refine ⟨hs.ok h.ok, fun x => ?_, hs.ranged h.ranged⟩
  rw [bare, total_setClosed, hs.keys, hs.closed]
  exact h.once x

theorem Shapely.setClosed {closed : History}
    (hle : ∀ x, (closed.liveAt t).ids.count x ≤ (w.closedPanes.liveAt t).ids.count x) :
    (w.setClosed closed).Shapely t :=
  ⟨h.ok.setClosed closed, fun x => Nat.le_trans (Nat.add_le_add_left (hle x) _) (h.once x), h.ranged⟩

theorem Shapely.act {act : Act} (hone : ∀ x, (w.bare t).total x + added act x ≤ 1) (fresh : Nat)
    (hn : ∀ d n, act = .moveFocused d n → n.all w.isNeighbor = true)
    (ht : ∀ now, act = .reopenClosedTab now → t ≤ now) :
    (w.act fresh act).Shapely t := by
  have hc := act_change (h.ok.setClosed (w.closedPanes.liveAt t)) hone fresh hn
  rw [show (w.setClosed (w.closedPanes.liveAt t)).act fresh act = (w.act fresh act).bare t from
    (bare_act ht fresh w).symm] at hc
  exact shapely_of_change hone hc (ranged_act h.ranged fresh act)

theorem Shapely.closed (id : PaneId) (d fresh : Nat) : (App.closed w id d fresh).Shapely t := by
  cases ho : w.owner id with
  | none => simpa [App.closed, ho] using h
  | some i =>
    cases hp : (w.sessions[i]?).bind fun s => s.pane? id with
    | none => simpa [App.closed, ho, hp] using h
    | some p =>
      generalize hpane : PaneSnapshot.mk p.pwd p.target (some p.fontDelta) none = pane
      have heq : ∀ closed, App.closed (w.setClosed closed) id d fresh =
          (w.removePane i id fresh).setClosed (closed.record id pane d) := by
        intro closed
        simp only [App.closed, owner_setClosed, ho, sessions_setClosed, hp, hpane]
        exact blind_removePane i id fresh w _
      have hc := App.closed_change (h.ok.setClosed (w.closedPanes.liveAt t)) id d fresh
      rw [heq] at hc
      rw [show App.closed w id d fresh = _ from heq w.closedPanes]
      refine ⟨hc.ok.setClosed _, fun x => ?_, ranged_removePane h.ranged i id fresh⟩
      have hrec := History.count_liveAt_record_le w.closedPanes id pane d t x
      calc (w.removePane i id fresh).keys.count x + ((w.closedPanes.record id pane d).liveAt t).ids.count x
          ≤ (w.removePane i id fresh).keys.count x + ((w.closedPanes.liveAt t).record id pane d).ids.count x :=
            Nat.add_le_add_left hrec _
        _ ≤ (w.bare t).total x := hc.total x
        _ ≤ 1 := h.once x

theorem Shapely.addRecoverySession (ref : Nat) {panes : List (PaneId × PaneSnapshot)}
    (hnd : (panes.map fun p => p.1).Nodup) (hone : ∀ x, (w.bare t).total x + (panes.map fun p => p.1).count x ≤ 1) :
    (w.addRecoverySession ref panes).Shapely t := by
  have hc := addRecoverySession_change (h.ok.setClosed (w.closedPanes.liveAt t)) ref panes hnd
  rw [show (w.setClosed (w.closedPanes.liveAt t)).addRecoverySession ref panes =
    (w.addRecoverySession ref panes).bare t from ((blind_addRecoverySession ref panes).bare t w).symm] at hc
  exact shapely_of_change hone hc (ranged_addRecoverySession h.ranged ref panes)

/-- The window a session is moved out of, and the one it is moved to. -/
theorem Shapely.moved {s : Session} (hs : w.activeSession = some s) (hmore : w.sessions.length > 1) (id : Nat) :
    (App.without w).Shapely t ∧ (Window.mk id [s] 0 [] none).focusActive.Shapely t := by
  have hmem := List.mem_of_getElem? hs
  obtain ⟨hok, htot, -⟩ := App.without_spec (h.ok.setClosed (w.closedPanes.liveAt t)) hs hmore
  constructor
  · refine ⟨?_, fun x => ?_, ?_⟩
    · have hrest := hok.setClosed w.closedPanes
      rw [blind_without w] at hrest
      exact hrest.setClosed (App.without w).closedPanes
    · rw [blind_without.bare]
      exact Nat.le_trans (Nat.le_trans (Nat.le_add_right _ _) (Nat.le_of_eq (htot x))) (h.once x)
    · apply (shaped_focusActive _).ranged
      exact ranged_of h.ranged fun s' hs' => Or.inl ((List.eraseIdx_sublist _ _).subset hs')
  · refine Shapely.shaped (w := Window.mk id [s] 0 [] none) ?_ (shaped_focusActive _)
    have hall : ∀ s' ∈ [s], s' ∈ w.sessions := fun s' hs' => List.mem_singleton.mp hs' ▸ hmem
    refine ⟨⟨List.cons_ne_nil _ _, Nat.zero_lt_one, fun s' hs' => h.ok.ok s' (hall s' hs'), List.countP_le_length⟩,
      fun x => ?_, fun s' hs' => h.ranged s' (hall s' hs')⟩
    show ([s].flatMap Session.keys).count x + 0 ≤ 1
    rw [List.flatMap_singleton]
    have hkeys := count_le_keys (w := w) hs x
    have htotal : (w.bare t).total x = w.keys.count x + _ := total_setClosed w _ x
    have hone := h.once x
    omega

theorem Shapely.leaves_nodup {s : Session} (hs : s ∈ w.sessions) : (leavesOf s.tree).Nodup := by
  apply List.nodup_iff_count.mpr
  intro x
  have hkeys := count_le_flatMap Session.keys x hs
  exact Nat.le_trans (h.ok.ok s hs x) (Nat.le_trans hkeys (Nat.le_trans (Nat.le_add_right _ _) (h.once x)))

end

theorem shapely_new (t id ref : Nat) : (Window.new id ref).Shapely t := by
  refine ⟨⟨List.cons_ne_nil _ _, Nat.zero_lt_one, fun s hs => ?_, Nat.le_refl 1⟩, fun x => Nat.zero_le 1,
    fun s hs => ?_⟩
  · obtain rfl := List.mem_singleton.mp hs
    exact Session.ok_new ref
  · obtain rfl := List.mem_singleton.mp hs
    exact Session.inRange_of_none rfl

theorem shapely_born (t id ref : Nat) (p : PaneView) : ((Window.new id ref).addInitialPane 0 p).Shapely t := by
  have hnew := shapely_new t id ref
  have hc := addInitialPane_change (i := 0) (s := Session.new ref) hnew.ok rfl p
  have hbare : ((Window.new id ref).addInitialPane 0 p).bare t = (Window.new id ref).addInitialPane 0 p :=
    (blind_addInitialPane 0 p).bare t (Window.new id ref)
  rw [← hbare] at hc
  refine shapely_of_change (w := Window.new id ref) (fun x => ?_) hc (ranged_addInitialPane hnew.ranged 0 p)
  show 0 + one p.id x ≤ 1
  unfold one
  split <;> decide

end Window

/-! ## Steps -/

/-- An operation after a restore at `t`: it is no restore, and reopens nothing at an earlier time. -/
def Op.since (t : Nat) : Op → Bool
  | .launch _ => false
  | .window _ (.reopenClosedTab now) => decide (t ≤ now)
  | _ => true

namespace App

def Shapely (t : Nat) (a : App) : Prop := ∀ w ∈ a.windows, w.Shapely t

theorem unused_total {a : App} {id : PaneId} (h : a.used id = false) {w : Window} (hw : w ∈ a.windows) (t : Nat) :
    (w.bare t).total id = 0 := by
  obtain ⟨k, hk⟩ := List.getElem?_of_mem hw
  have h1 := w.total_bare_le t id
  have h2 := total_window_le hk id
  have h3 := total_of_unused h
  omega

section
variable {t : Nat} {a : App} (ha : a.Shapely t)
include ha

theorem unused_once {id : PaneId} (h : a.used id = false) {w : Window} (hw : w ∈ a.windows) (x : PaneId) :
    (w.bare t).total x + Window.one id x ≤ 1 := by
  unfold Window.one
  by_cases hx : x = id
  · rw [if_pos hx, hx, unused_total h hw]
  · rw [if_neg hx]
    exact (ha w hw).once x

theorem act_once {w : Window} (hw : w ∈ a.windows) {act : Act} (h : a.legalAct w act = true) (x : PaneId) :
    (w.bare t).total x + Window.added act x ≤ 1 := by
  cases act with
  | newSession id target => exact unused_once ha (by simpa [legalAct] using h) hw x
  | split source id d before atRoot target =>
    simp only [legalAct, Bool.and_eq_true, Bool.not_eq_true'] at h
    exact unused_once ha h.1 hw x
  | _ => exact (ha w hw).once x

theorem shapely_onWindow {k : Nat} {f : Window → Window} (hf : ∀ w ∈ a.windows, w.Shapely t → (f w).Shapely t) :
    (a.onWindow k f).Shapely t :=
  forall_onWindow ha fun w hk hw => hf w (List.mem_of_getElem? hk) hw

theorem shapely_append {w : Window} (hw : w.Shapely t) : (a.setWindows (a.windows ++ [w])).Shapely t := by
  intro v hv
  rcases List.mem_append.mp hv with hv | hv
  · exact ha v hv
  · exact List.mem_singleton.mp hv ▸ hw

theorem shapely_window {k : Nat} {act : Act} (hl : a.legal (.window k act) = true)
    (ht : (Op.window k act).since t = true) :
    (a.apply (.window k act)).Shapely t := by
  obtain ⟨w, hk, hact⟩ := legal_window hl
  refine forall_onWindow (a := a) ha fun v hv hsh => ?_
  rw [hk] at hv
  cases hv
  refine hsh.act (act_once ha (List.mem_of_getElem? hk) hact) a.nextRef (fun d n h => ?_) (fun now h => ?_)
  · subst h
    exact hact
  · subst h
    exact of_decide_eq_true ht

theorem shapely_newWindow (source : Nat) (id : PaneId) : (a.newWindow source id).Shapely t :=
  shapely_append ha (Window.shapely_born t a.nextRef a.nextRef _)

theorem shapely_moveSession (k : Nat) : (a.moveSessionToNewWindow k).Shapely t := by
  unfold App.moveSessionToNewWindow
  split
  · exact ha
  split
  · exact ha
  · rename_i w hk _ s hs
    split
    · rename_i hmove
      have hmoved := (ha w (List.mem_of_getElem? hk)).moved hs hmove.1 a.nextRef
      apply shapely_append (a := a.onWindow k without) _ hmoved.2
      refine forall_onWindow (a := a) ha fun v hv _ => ?_
      rw [hk] at hv
      cases hv
      exact hmoved.1
    · exact ha

theorem shapely_closeWindow (k : Nat) : (a.closeWindow k).Shapely t := by
  unfold App.closeWindow
  split
  · exact ha
  · exact fun w hw => ha w ((List.eraseIdx_sublist a.windows k).subset hw)

theorem shapely_closePane (k : Nat) (id : PaneId) : (a.closePane k id).Shapely t := by
  obtain h | ⟨i, q, h⟩ := a.closePane_cases k id
  · rw [h]
    exact ha
  · rw [h]
    exact shapely_onWindow ha fun w _ hw => hw.shaped (Window.shaped_edit w i fun s => s.shape_setClosing _)

theorem shapely_reply (n : Nat) (expiresAt : Option Nat) : (a.reply n expiresAt).Shapely t := by
  unfold App.Shapely
  obtain h | ⟨q, k, i, -, -, -, h⟩ := reply_windows a n expiresAt
  · rw [h]
    exact ha
  · rw [h]
    refine forall_modify ha fun w _ hw => ?_
    have hanswer := hw.shaped (Window.shaped_edit w i (Session.shape_answer q.pane))
    cases expiresAt with
    | none => exact hanswer
    | some d => exact hanswer.closed q.pane d a.nextRef

theorem recovered_total {panes : List (PaneId × PaneSnapshot)} (hnd : (panes.map fun p => p.1).Nodup)
    (hun : ∀ p ∈ panes, a.used p.1 = false) {w : Window} (hw : w ∈ a.windows) (x : PaneId) :
    (w.bare t).total x + (panes.map fun p => p.1).count x ≤ 1 := by
  refine add_count_le_one x ((ha w hw).once x) hnd fun y hy => ?_
  obtain ⟨p, hp, rfl⟩ := List.mem_map.mp hy
  exact unused_total (hun p hp) hw t

theorem shapely_exitEvent (id : PaneId) (host : Option String) : (a.exitEvent id host).Shapely t := by
  intro w hw
  obtain ⟨v, hv, rfl⟩ := List.mem_map.mp hw
  apply (ha v hv).setClosed
  intro x
  rw [History.liveAt_remove]
  exact History.count_remove_le _ id host x

theorem apply_shapely {op : Op} (hl : a.legal op = true) (hnew : a.bringsNew op = true) (ht : op.since t = true) :
    (a.apply op).Shapely t := by
  cases op with
  | window k act => exact shapely_window ha hl ht
  | newWindow source id => exact shapely_newWindow ha source id
  | moveSessionToNewWindow k => exact shapely_moveSession ha k
  | closeWindow k => exact shapely_closeWindow ha k
  | closePane k id => exact shapely_closePane ha k id
  | reply n expiresAt => exact shapely_reply ha n expiresAt
  | addRecoverySession panes =>
    obtain ⟨hnd, hun⟩ := legal_recovery hl hnew
    exact shapely_onWindow ha fun w hw hsh =>
      hsh.addRecoverySession a.nextRef hnd fun x => recovered_total ha hnd hun hw x
  | exitEvent id host => exact shapely_exitEvent ha id host
  | launch saved => cases ht

end

end App

/-! ## A restored file -/

/-- The shape of a saved window that is restored at `t`. -/
structure WindowSnapshot.InShape (t : Nat) (w : WindowSnapshot) : Prop where
  ratios : ∀ s ∈ w.sessions, s.tree.InRange
  distinct : (w.leaves ++ ((History.ofEntries (w.closedPanes.getD [])).liveAt t).ids).Nodup

namespace Window

theorem blind_restoreEach (saved : List SessionSnapshot) (i : Nat) : Blind fun w => w.restoreEach i saved := by
  induction saved generalizing i with
  | nil => exact fun _ _ => rfl
  | cons first rest ih => exact (ih (i + 1)).comp (blind_restore i first)

theorem blind_restoreSessions (fresh : Nat) (saved : List SessionSnapshot) (active : Int) :
    Blind fun w => w.restoreSessions fresh saved active := by
  intro w h
  beta_reduce
  unfold restoreSessions
  split
  · rfl
  · exact (blind_focusActive.comp (blind_restoreEach saved 0)) ((w.setSessions (newSessions fresh saved)).setActive _) h

theorem inRange_rebuilt {saved : List SessionSnapshot} (h : ∀ s ∈ saved, s.tree.InRange) (ref : Nat) :
    ∀ s ∈ rebuilt ref saved, s.InRange := by
  induction saved generalizing ref with
  | nil => exact fun s hs => absurd hs List.not_mem_nil
  | cons first rest ih =>
    intro s hs
    rcases List.mem_cons.mp hs with rfl | hs
    · exact Session.inRange_of_some rfl (h first List.mem_cons_self)
    · exact ih (fun s hs => h s (List.mem_cons_of_mem _ hs)) (ref + 1) s hs

theorem ranged_restoreSessions {w : Window} (hw : w.Ranged) {saved : List SessionSnapshot}
    (h : ∀ s ∈ saved, s.tree.InRange) (fresh : Nat) (active : Int) :
    (w.restoreSessions fresh saved active).Ranged := by
  by_cases hne : saved = []
  · rw [hne]
    exact hw
  · exact (shaped_restoreSessions w fresh hne active).ranged (inRange_rebuilt h fresh)

end Window

namespace App

theorem launchWindow_shapely (ref : Nat) {t : Nat} {saved : WindowSnapshot} (h : saved.InShape t) :
    (launchWindow ref saved).Shapely t := by
  generalize hw : (Window.new saved.id ref).setClosed (History.ofEntries (saved.closedPanes.getD [])) = w
  have hnew : w.Ok := hw ▸ (Window.shapely_new t saved.id ref).ok.setClosed _
  have hone := List.nodup_iff_count.mp h.distinct
  have hempty : (w.bare t).keys = [] := by
    rw [← hw]
    rfl
  have hclosed : w.closedPanes.liveAt t = (History.ofEntries (saved.closedPanes.getD [])).liveAt t := by
    rw [← hw]
    rfl
  obtain ⟨hok, htotal, -⟩ := Window.restoreSessions_change (hnew.setClosed (w.closedPanes.liveAt t)) hempty (ref + 1)
    saved.sessions saved.activeSession fun x => by
      have hx := hone x
      rw [List.count_append] at hx
      exact Nat.le_trans (Nat.le_add_right _ _) hx
  have hlaunch : launchWindow ref saved = w.restoreSessions (ref + 1) saved.sessions saved.activeSession := by
    rw [← hw]
    rfl
  have hbare : (w.restoreSessions (ref + 1) saved.sessions saved.activeSession).bare t =
      (w.bare t).restoreSessions (ref + 1) saved.sessions saved.activeSession :=
    (Window.blind_restoreSessions (ref + 1) saved.sessions saved.activeSession).bare t w
  rw [hlaunch]
  refine ⟨?_, fun x => ?_, Window.ranged_restoreSessions ?_ h.ratios (ref + 1) saved.activeSession⟩
  · have hset := hok.setClosed (w.restoreSessions (ref + 1) saved.sessions saved.activeSession).closedPanes
    rw [show (w.setClosed (w.closedPanes.liveAt t)).restoreSessions (ref + 1) saved.sessions saved.activeSession = _
      from hbare.symm] at hset
    exact hset
  · have hx := hone x
    rw [List.count_append] at hx
    rw [hbare]
    calc ((w.bare t).restoreSessions (ref + 1) saved.sessions saved.activeSession).total x
        ≤ (w.bare t).total x + (saved.sessions.flatMap fun s => s.tree.leaves).count x := htotal x
      _ = ((History.ofEntries (saved.closedPanes.getD [])).liveAt t).ids.count x + saved.leaves.count x := by
          rw [Window.bare, Window.total_setClosed, hclosed, ← hw]
          show 0 + _ + _ = _
          rw [Nat.zero_add]
          rfl
      _ ≤ 1 := by omega
  · rw [← hw]
    exact (Window.shapely_new t saved.id ref).ranged

theorem launch_shapely (a : App) {t : Nat} {saved : List WindowSnapshot} (h : ∀ w ∈ saved, w.InShape t) :
    (a.launch saved).Shapely t := by
  have hall : ∀ (saved : List WindowSnapshot) (ref : Nat), (∀ w ∈ saved, w.InShape t) →
      ∀ w ∈ (launchWindows ref saved).1, w.Shapely t := by
    intro saved
    induction saved with
    | nil => exact fun _ _ w hw => absurd hw List.not_mem_nil
    | cons first rest ih =>
      intro ref h w hw
      rcases List.mem_cons.mp hw with rfl | hw
      · exact launchWindow_shapely ref (h first List.mem_cons_self)
      · exact ih _ (fun w hw => h w (List.mem_cons_of_mem _ hw)) w hw
  exact hall saved a.nextRef h

variable {D : Type}

/-- The windows of a file that decodes. Where it has none, the first one is opened by the run. -/
def restoreFile (txt : JsonText D) (draw : Nat → Nat) (d : D) : Option App :=
  (txt.decode draw d).map fun s => init.launch (s.windows.map fun w => w.window)

end App

/-- In the documented range and without a pane twice; no share is negative where each split has room for its gap. -/
structure SplitNode.WellShaped (t : SplitNode) : Prop where
  ratios : t.InRange
  distinct : t.leaves.Nodup
  partition : ∀ b : CGRect Rat, t.Roomy b → Partition t b

theorem SplitNode.wellShaped {t : SplitNode} (hr : t.InRange) (hd : t.leaves.Nodup) : t.WellShaped :=
  ⟨hr, hd, fun _ hroom => Fits.partition ⟨hd, hr.mono (by norm_num) (by norm_num), hroom⟩⟩

namespace App

def WellShaped (a : App) : Prop := ∀ w ∈ a.windows, ∀ s ∈ w.sessions, ∀ t, s.tree = some t → t.WellShaped

theorem Shapely.wellShaped {t : Nat} {a : App} (ha : a.Shapely t) : a.WellShaped := by
  intro w hw s hs tree ht
  have hd := (ha w hw).leaves_nodup hs
  rw [ht, leavesOf_some] at hd
  exact SplitNode.wellShaped ((ha w hw).ranged s hs tree ht) hd

variable {D : Type}

/-- After any operations on what was restored at `t` from a file whose windows are in shape, where a
recovery has no UUID that is in use. -/
theorem trees_keep_shape {txt : JsonText D} {draw : Nat → Nat} {d : D} {a₀ a : App} {run : List Op}
    (h₀ : restoreFile txt draw d = some a₀) {t : Nat}
    (hfile : ∀ s, txt.decode draw d = some s → ∀ w ∈ s.windows, w.window.InShape t)
    (hrun : ∀ op ∈ run, op.since t = true) (hnew : Meets step (fun a op => a.bringsNew op = true) a₀ run)
    (h : exec step a₀ run = some a) : a.WellShaped := by
  obtain ⟨s, hs, rfl⟩ := Option.map_eq_some_iff.mp h₀
  have hinit : (init.launch (s.windows.map fun w => w.window)).Shapely t := by
    apply launch_shapely
    intro w hw
    obtain ⟨v, hv, rfl⟩ := List.mem_map.mp hw
    exact hfile s hs v hv
  have hmeets : Meets step (fun _ op => op ∈ run) (init.launch (s.windows.map fun w => w.window)) run :=
    meets_of_mem fun op hop _ => hop
  have hall : a.Shapely t := by
    refine exec_inv_of_meets (I := App.Shapely t) (fun b op b' hop hstep hb => ?_) (hmeets.and hnew) h hinit
    obtain ⟨hl, rfl⟩ := step_some hstep
    exact apply_shapely hb hl hop.2 (hrun op hop.1)
  exact hall.wellShaped

/-- Two panes side by side, the first one at `ratio`, and one that was closed. -/
def sideBySide (ratio : Rat) : AppSnapshot :=
  ⟨[⟨[], ⟨1, [⟨.split .horizontal ratio (.leaf 2) (.leaf 3), [], none, none⟩], 0,
    some [⟨4, ⟨none, none, none, none⟩, some 100⟩]⟩⟩], some 1⟩

def sideBySideText (ratio : String) : String :=
  "\x7b\n  \"activeWindow\" : \"00000000-0000-0000-0000-000000000001\",\n  \"version\" : 4,\n  \"windows\" : [\n    \x7b\n" ++
  "      \"activeSession\" : 0,\n      \"closedPanes\" : [\n        \x7b\n          \"expiresAt\" : 100,\n" ++
  "          \"id\" : \"00000000-0000-0000-0000-000000000004\",\n          \"pane\" : \x7b\n\n          \x7d\n        \x7d\n      ],\n" ++
  "      \"frame\" : [\n\n      ],\n      \"id\" : \"00000000-0000-0000-0000-000000000001\",\n      \"sessions\" : [\n        \x7b\n" ++
  "          \"panes\" : [\n\n          ],\n          \"tree\" : \x7b\n            \"split\" : \x7b\n              \"_0\" : \x7b\n" ++
  "                \"direction\" : \"horizontal\",\n                \"first\" : \x7b\n                  \"leaf\" : \x7b\n" ++
  "                    \"_0\" : \"00000000-0000-0000-0000-000000000002\"\n                  \x7d\n                \x7d,\n" ++
  "                \"ratio\" : " ++ ratio ++ ",\n                \"second\" : \x7b\n                  \"leaf\" : \x7b\n" ++
  "                    \"_0\" : \"00000000-0000-0000-0000-000000000003\"\n                  \x7d\n                \x7d\n" ++
  "              \x7d\n            \x7d\n          \x7d\n        \x7d\n      ]\n    \x7d\n  ]\n\x7d"

theorem wf_sideBySide (ratio : Rat) : (sideBySide ratio).Wf := by
  have huuid : ∀ id ≤ 4, IsUuid id := by
    intro id hid
    unfold IsUuid
    omega
  constructor
  · intro w hw
    obtain rfl := List.mem_singleton.mp hw
    refine ⟨huuid 1 (by decide), fun s hs => ?_, fun l hl e he => ?_⟩
    · obtain rfl := List.mem_singleton.mp hs
      refine ⟨fun id hid => huuid id ?_, fun _ h => absurd h List.not_mem_nil, List.nodup_nil, fun _ h => (by cases h),
        fun _ h => (by cases h)⟩
      have hall : ∀ id ∈ ([2, 3] : List Nat), id ≤ 4 := by decide
      exact hall id hid
    · cases hl
      obtain rfl := List.mem_singleton.mp he
      exact huuid 4 (by decide)
  · intro id hid
    cases hid
    exact huuid 1 (by decide)

theorem decode_sideBySide (ratio : Rat) (text : String) (draw : Nat → Nat) :
    (JsonText.showing (sideBySide ratio) text).decode draw
      ((JsonText.showing (sideBySide ratio) text).encode .plain (sideBySide ratio)) = some (sideBySide ratio) :=
  JsonText.decode_encode _ .plain (wf_sideBySide ratio) draw

/-- A file whose ratio is 5 is restored with it. -/
theorem restored_ratio_out_of_range :
    ¬∀ (D : Type) (txt : JsonText D) (draw : Nat → Nat) (d : D) (a₀ a : App) (run : List Op),
      restoreFile txt draw d = some a₀ → (∀ op ∈ run, op.since 0 = true) → exec step a₀ run = some a →
        a.WellShaped := by
  intro h
  have hfile : restoreFile (.showing (sideBySide 5) (sideBySideText "5")) (fun n => n)
      ((JsonText.showing (sideBySide 5) (sideBySideText "5")).encode .plain (sideBySide 5)) =
        some (init.launch ((sideBySide 5).windows.map fun w => w.window)) := by
    rw [restoreFile, decode_sideBySide]
    rfl
  have hshape := h _ _ _ _ _ _ [] hfile (fun _ hop => absurd hop List.not_mem_nil) rfl
  have hratio := (hshape _ List.mem_cons_self _ List.mem_cons_self _ rfl).ratios.1.2
  exact absurd hratio (by norm_num)

/-- The pane on the right is split and made smaller, the closed pane comes back, and the one on the left exits. -/
def reshape : List Op :=
  [.window 0 (.focusDirection (some 3)), .window 0 (.split none 5 .vertical false false .inherit),
    .window 0 (.resizeFocused .up), .window 0 (.reopenClosedTab 7), .window 0 (.movePane 0), .window 0 (.paneExited 2)]

theorem trees_keep_shape_reshape :
    ∃ a, (∃ a₀, restoreFile (.showing (sideBySide (1 / 4)) (sideBySideText "0.25")) (fun n => n)
        ((JsonText.showing (sideBySide (1 / 4)) (sideBySideText "0.25")).encode .plain (sideBySide (1 / 4))) =
          some a₀ ∧ exec step a₀ reshape = some a) ∧ a.WellShaped := by
  have hfile : restoreFile (.showing (sideBySide (1 / 4)) (sideBySideText "0.25")) (fun n => n)
      ((JsonText.showing (sideBySide (1 / 4)) (sideBySideText "0.25")).encode .plain (sideBySide (1 / 4))) =
        some (init.launch ((sideBySide (1 / 4)).windows.map fun w => w.window)) := by
    rw [restoreFile, decode_sideBySide]
    rfl
  have hrun : exec step (init.launch ((sideBySide (1 / 4)).windows.map fun w => w.window)) reshape =
      some ((exec step (init.launch ((sideBySide (1 / 4)).windows.map fun w => w.window)) reshape).get
        (by decide +kernel)) :=
    (Option.some_get _).symm
  refine ⟨_, ⟨_, hfile, hrun⟩, trees_keep_shape hfile (t := 0) (fun s hs w hw => ?_) (by decide) (by decide +kernel) hrun⟩
  rw [decode_sideBySide] at hs
  cases hs
  obtain rfl := List.mem_singleton.mp hw
  refine ⟨fun s hs => ?_, by decide⟩
  obtain rfl := List.mem_singleton.mp hs
  exact ⟨by norm_num, SplitNode.inRange_leaf 2, SplitNode.inRange_leaf 3⟩

end App

end Mux.Tiling
