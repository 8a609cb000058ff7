import Mux.FocusSound
import Mux.SnapshotSound

/-!
# Layout and keys over every run

In a run that brings in no terminal twice, never moves the pane with the keys into a new
session of its own, and never takes a focused pane out of a session whose next pane has the
keys already, every pane is a leaf of its session's tree and every session with panes has its
focus on one of them. If moreover the pane with the keys is never moved away from panes it shares a session with, and
no focused pane goes from a session that is not shown but keeps other panes, then the view
that has the keys is the focused pane of the session that is shown.
-/

namespace Mux.Tiling

open Lib

namespace App

def Full (a : App) : Prop := ∀ w ∈ a.windows, w.Full

def Law (a : App) : Prop := ∀ w ∈ a.windows, w.Law

/-- The window, the session and the pane that a reply with a deadline takes out. -/
def repliedOut (a : App) (n : Nat) : Option (Window × Nat × PaneId) :=
  (a.requests[n]?).bind fun q => (q.session.bind a.find).bind fun f =>
    if q.alive then (a.windows[f.1]?).bind fun w => (w.owner q.pane).map fun i => (w, i, q.pane) else none

def keepsLayout (a : App) : Op → Bool
  | .window k act => (a.windows[k]?).all fun w => w.keepsLayout act
  | .reply n (some _) => (a.repliedOut n).all fun t => !t.1.stale t.2.1 t.2.2
  | op => a.bringsNew op

def keepsKeys (a : App) : Op → Bool
  | .window k act => (a.windows[k]?).all fun w => w.keepsKeys act
  | .reply n (some _) => (a.repliedOut n).all fun t => !t.1.steals t.2.1 t.2.2
  | op => a.bringsNew op

theorem bringsNew_of_layout {a : App} {op : Op} (hg : a.keepsLayout op = true) : a.bringsNew op = true := by
  cases op with
  | addRecoverySession panes => exact hg
  | launch saved => exact hg
  | _ => rfl

/-! ## One operation -/

theorem forall_onWindow {P : Window → Prop} {a : App} (h : ∀ w ∈ a.windows, P w) {k : Nat} {f : Window → Window}
    (hf : ∀ w, a.windows[k]? = some w → P w → P (f w)) : ∀ w ∈ (a.onWindow k f).windows, P w := by
  cases hk : a.windows[k]? with
  | none =>
    rw [onWindow_none hk]
    exact h
  | some v =>
    intro w hw
    obtain rfl | hw := mem_onWindow hk hw
    · exact hf v hk (h v (List.mem_of_getElem? hk))
    · exact h w hw

theorem Inv.window_once {a : App} (ha : a.Inv) {w : Window} (hw : w ∈ a.windows) (x : PaneId) : w.total x ≤ 1 := by
  obtain ⟨k, hk⟩ := List.getElem?_of_mem hw
  exact Nat.le_trans (total_window_le hk x) (ha.once x)

theorem Inv.window_keys {a : App} (ha : a.Inv) {w : Window} (hw : w ∈ a.windows) (x : PaneId) : w.keys.count x ≤ 1 :=
  Nat.le_trans (Nat.le_add_right _ _) (ha.window_once hw x)

theorem new_full (id ref : Nat) : (Window.new id ref).Full ∧ (Window.new id ref).Law := by
  refine ⟨⟨.inr ⟨Session.new ref, rfl, rfl, rfl⟩, fun r hr => ?_⟩, fun r hr => ?_⟩
  · cases hr
  · cases hr

theorem newWindow_full (id ref : Nat) (p : PaneView) :
    ((Window.new id ref).addInitialPane 0 p).Full ∧ ((Window.new id ref).addInitialPane 0 p).Law := by
  have hok : (Window.new id ref).Ok := by
    refine ⟨List.cons_ne_nil _ _, Nat.zero_lt_one, fun s hs => ?_, Nat.le_refl 1⟩
    obtain rfl := List.mem_singleton.mp hs
    exact Session.ok_new ref
  have hone : ∀ x, (Window.new id ref).total x + Window.one p.id x ≤ 1 := fun x => by
    have h0 : (Window.new id ref).total x = 0 := rfl
    unfold Window.one
    split <;> omega
  have hget : (Window.new id ref).sessions[0]? = some (Session.new ref) := rfl
  have ht : ∀ x, (SplitNode.leaf p.id).leaves.count x = if x = p.id then 1 else (Session.new ref).keys.count x :=
    SplitNode.count_leaf p.id
  have hr : (Window.new id ref).responder ≠ some p.id := fun h => by cases h
  refine ⟨Window.put_full hok hone hget (fun _ => .leaf p.id) ht (fun j s hj hne => ?_) fun h => absurd h hr,
    Window.put_law hok hone hget (fun _ => .leaf p.id) ht rfl hr⟩
  have hlt := (List.getElem?_eq_some_iff.mp hj).1
  have h1 : (Window.new id ref).sessions.length = 1 := rfl
  omega

theorem without_full {w : Window} (hw : w.Ok) (hf : w.Full) (hone : ∀ x, w.keys.count x ≤ 1)
    (hmore : w.sessions.length > 1) : (without w).Full ∧ (without w).Law := by
  have hgood : ∀ s ∈ w.sessions, s.Good := by
    obtain h | ⟨s, hs, -⟩ := hf.good
    · exact h
    · rw [hs, List.length_singleton] at hmore
      omega
  have hlen := List.length_eraseIdx_of_lt hw.active_lt
  have hsub := List.eraseIdx_sublist w.sessions w.active
  refine Window.focusActive_spec (fun x => ?_) (fun s hs => hgood s (hsub.subset hs)) ?_
  · exact Nat.le_trans (count_flatMap_sublist Session.keys x hsub) (hone x)
  · show min w.active ((w.sessions.eraseIdx w.active).length - 1) < (w.sessions.eraseIdx w.active).length
    omega

theorem moved_full {s : Session} (hs : s.Good) (hone : ∀ x, s.keys.count x ≤ 1) (id : Nat) :
    (Window.mk id [s] 0 [] none).focusActive.Full ∧ (Window.mk id [s] 0 [] none).focusActive.Law := by
  refine Window.focusActive_spec (w := Window.mk id [s] 0 [] none) (fun x => ?_) (fun t ht => ?_) Nat.zero_lt_one
  · show ([s].flatMap Session.keys).count x ≤ 1
    rw [List.flatMap_singleton]
    exact hone x
  · obtain rfl := List.mem_singleton.mp ht
    exact hs

theorem moveSession_full {a : App} (ha : a.Inv) (hf : a.Full) (k : Nat) :
    (a.moveSessionToNewWindow k).Full ∧ (a.Law → (a.moveSessionToNewWindow k).Law) := by
  unfold App.moveSessionToNewWindow
  cases hk : a.windows[k]? with
  | none => exact ⟨hf, fun hl => hl⟩
  | some w =>
    cases hs : w.activeSession with
    | none => simp only [hs]; exact ⟨hf, fun hl => hl⟩
    | some s =>
      simp only [hs]
      split
      · rename_i hmove
        have hmem := List.mem_of_getElem? hk
        have hw := ha.windows w hmem
        have hkeys := ha.window_keys hmem
        have hrest := without_full hw (hf w hmem) hkeys hmove.1
        have hgood : s.Good := by
          obtain h | ⟨t, ht, he⟩ := (hf w hmem).good
          · exact h s (List.mem_of_getElem? hs)
          · have := hmove.1
            rw [ht, List.length_singleton] at this
            omega
        have hnew := moved_full hgood (fun x => Nat.le_trans (Window.count_le_keys hs x) (hkeys x)) a.nextRef
        have hall : ∀ {P : Window → Prop}, (∀ v ∈ a.windows, P v) → P (without w) →
            P (Window.mk a.nextRef [s] 0 [] none).focusActive →
            ∀ v ∈ (a.onWindow k without).windows ++ [(Window.mk a.nextRef [s] 0 [] none).focusActive], P v := by
          intro P h1 h2 h3 v hv
          obtain hv | hv := List.mem_append.mp hv
          · obtain rfl | hv := mem_onWindow hk hv
            · exact h2
            · exact h1 v hv
          · obtain rfl := List.mem_singleton.mp hv
            exact h3
        exact ⟨hall hf hrest.1 hnew.1, fun hl => hall hl hrest.2 hnew.2⟩
      · exact ⟨hf, fun hl => hl⟩

theorem launchWindow_full (ref : Nat) (saved : WindowSnapshot) (hone : ∀ x, saved.leaves.count x ≤ 1) :
    (launchWindow ref saved).Full ∧ (launchWindow ref saved).Law := by
  have hnew := new_full saved.id ref
  by_cases hne : saved.sessions = []
  · have heq : launchWindow ref saved =
        (Window.new saved.id ref).setClosed (History.ofEntries (saved.closedPanes.getD [])) := by
      unfold launchWindow Window.restoreSessions
      rw [hne]
      rfl
    rw [heq]
    exact ⟨⟨hnew.1.good, hnew.1.responder⟩, hnew.2⟩
  · exact Window.restoreSessions_full
      (w := (Window.new saved.id ref).setClosed (History.ofEntries (saved.closedPanes.getD []))) rfl (ref + 1) hne
      saved.activeSession hone

theorem launch_full (a : App) {saved : List WindowSnapshot} (hnd : (saved.flatMap WindowSnapshot.restored).Nodup) :
    (a.launch saved).Full ∧ (a.launch saved).Law := by
  have hall : ∀ (saved : List WindowSnapshot) (ref : Nat), (∀ s ∈ saved, ∀ x, s.leaves.count x ≤ 1) →
      ∀ w ∈ (launchWindows ref saved).1, w.Full ∧ w.Law := by
    intro saved
    induction saved with
    | nil => exact fun _ _ w hw => absurd hw List.not_mem_nil
    | cons first rest ih =>
      intro ref hone w hw
      obtain rfl | hw := List.mem_cons.mp hw
      · exact launchWindow_full ref first (hone first List.mem_cons_self)
      · exact ih _ (fun s hs => hone s (List.mem_cons_of_mem _ hs)) w hw
  have hone : ∀ s ∈ saved, ∀ x, s.leaves.count x ≤ 1 := fun s hs x => by
    have h1 := count_le_flatMap WindowSnapshot.restored x hs
    have h2 := List.nodup_iff_count.mp hnd x
    have h3 : s.restored.count x = s.leaves.count x + (History.ofEntries (s.closedPanes.getD [])).ids.count x :=
      List.count_append ..
    omega
  exact ⟨fun w hw => (hall saved _ hone w hw).1, fun w hw => (hall saved _ hone w hw).2⟩

/-! ## Replies -/

theorem any_edit (w : Window) (i j : Nat) {f : Session → Session} {g : Session → Bool} (hg : ∀ s, g (f s) = g s) :
    ((w.edit i f).sessions[j]?).any g = (w.sessions[j]?).any g := by
  by_cases hji : j = i
  · subst hji
    cases hj : w.sessions[j]? with
    | none =>
      rw [Window.edit_none hj, hj]
    | some s => rw [Window.get_edit hj, Option.any_some, Option.any_some, hg]
  · rw [Window.get_edit_ne w hji]

theorem owner_edit (w : Window) (i : Nat) {f : Session → Session} (hf : ∀ s, (f s).panes = s.panes) (id : PaneId) :
    (w.edit i f).owner id = w.owner id := by
  have hmap : ∀ l : List Session, (l.findIdx? fun s => s.contains id) =
      (l.map fun s => s.panes).findIdx? fun ps => (ps.map fun p => p.id).contains id := fun l => by
    rw [List.findIdx?_map]
    rfl
  unfold Window.owner
  rw [hmap, hmap]
  show ((w.sessions.modify i f).map _).findIdx? _ = _
  rw [map_modify_of_eq hf]

/-- The session that asked is answered: nothing the focus depends on changes. -/
theorem answered_same (w : Window) (i : Nat) {f : Session → Session} (hp : ∀ s, (f s).panes = s.panes)
    (ht : ∀ s, (f s).tree = s.tree) (hf : ∀ s, (f s).focusedID = s.focusedID) :
    (∀ id, (w.edit i f).owner id = w.owner id) ∧ (∀ j id, (w.edit i f).stale j id = w.stale j id) ∧
      ∀ j id, (w.edit i f).steals j id = w.steals j id := by
  refine ⟨fun id => owner_edit w i hp id, fun j id => ?_, fun j id => ?_⟩
  · exact any_edit w i j fun s => by rw [hf, ht]
  · unfold Window.steals
    rw [any_edit w i j fun s => by rw [hf, ht]]
    rfl

section
variable {w : Window} (hw : w.Ok) (hf : w.Full) (hone : ∀ x, w.keys.count x ≤ 1) (id : PaneId) (d fresh : Nat)
include hw hf hone

theorem closed_full (hg : ∀ i, w.owner id = some i → w.stale i id = false) : (closed w id d fresh).Full := by
  unfold closed
  cases ho : w.owner id with
  | none => exact hf
  | some i =>
    obtain ⟨s, hs, hid⟩ := Window.owner_some ho
    simp only
    split
    · exact hf
    · rename_i p _
      generalize w.closedPanes.record id ⟨p.pwd, p.target, some p.fontDelta, none⟩ d = h
      have hw' : (w.setClosed h).Ok := ⟨hw.nonempty, hw.active_lt, hw.ok, hw.empties⟩
      exact Window.removePane_full (w := w.setClosed h) hw' ⟨hf.good, hf.responder⟩ hone hs hid fresh (hg i ho)

theorem closed_law (hl : w.Law) (hg : ∀ i, w.owner id = some i → w.steals i id = false) :
    (closed w id d fresh).Law := by
  unfold closed
  cases ho : w.owner id with
  | none => exact hl
  | some i =>
    obtain ⟨s, hs, hid⟩ := Window.owner_some ho
    simp only
    split
    · exact hl
    · rename_i p _
      generalize w.closedPanes.record id ⟨p.pwd, p.target, some p.fontDelta, none⟩ d = h
      have hw' : (w.setClosed h).Ok := ⟨hw.nonempty, hw.active_lt, hw.ok, hw.empties⟩
      exact Window.removePane_law (w := w.setClosed h) hw' ⟨hf.good, hf.responder⟩ hone hs hid fresh hl (hg i ho)

end

theorem forall_modify {P : Window → Prop} {l : List Window} (h : ∀ w ∈ l, P w) {k : Nat} {f : Window → Window}
    (hf : ∀ w, l[k]? = some w → P w → P (f w)) : ∀ w ∈ l.modify k f, P w :=
  forall_onWindow (a := ⟨l, [], [], 0, false⟩) h hf

theorem reply_full {a : App} (ha : a.Inv) (hf : a.Full) {n : Nat} {expiresAt : Option Nat}
    (hg : a.keepsLayout (.reply n expiresAt) = true) : (a.reply n expiresAt).Full := by
  unfold App.Full
  obtain h | ⟨q, k, i, hq, hfind, halive, h⟩ := reply_windows a n expiresAt
  · rw [h]
    exact hf
  · rw [h]
    refine forall_modify hf fun w hk hw => ?_
    have hmem := List.mem_of_getElem? hk
    obtain ⟨hown, hstale, -⟩ := answered_same w i (f := Session.answer q.pane) (fun _ => rfl) (fun _ => rfl) fun _ => rfl
    have hs := Window.shaped_edit w i (Session.shape_answer q.pane)
    have hfull := Window.full_edit_shape hw i (Session.shape_answer q.pane) fun _ => rfl
    cases expiresAt with
    | none => exact hfull
    | some d =>
      refine closed_full (hs.ok (ha.windows w hmem)) hfull (fun x => ?_) q.pane d a.nextRef fun j hj => ?_
      · rw [hs.keys]
        exact ha.window_keys hmem x
      · rw [hown] at hj
        rw [hstale]
        simp only [keepsLayout, repliedOut, hq, Option.bind_some, hfind, halive, if_true, hk, hj, Option.map_some,
          Option.all_some, Bool.not_eq_true'] at hg
        exact hg

theorem reply_law {a : App} (ha : a.Inv) (hf : a.Full) (hl : a.Law) {n : Nat} {expiresAt : Option Nat}
    (hg : a.keepsKeys (.reply n expiresAt) = true) : (a.reply n expiresAt).Law := by
  unfold App.Law
  obtain h | ⟨q, k, i, hq, hfind, halive, h⟩ := reply_windows a n expiresAt
  · rw [h]
    exact hl
  · rw [h]
    refine forall_modify hl fun w hk hlw => ?_
    have hmem := List.mem_of_getElem? hk
    obtain ⟨hown, -, hsteals⟩ := answered_same w i (f := Session.answer q.pane) (fun _ => rfl) (fun _ => rfl) fun _ => rfl
    have hs := Window.shaped_edit w i (Session.shape_answer q.pane)
    have hfull := Window.full_edit_shape (hf w hmem) i (Session.shape_answer q.pane) fun _ => rfl
    have hlaw := Window.law_edit hlw (i := i) (f := Session.answer q.pane) (fun _ => rfl) fun _ => rfl
    cases expiresAt with
    | none => exact hlaw
    | some d =>
      refine closed_law (hs.ok (ha.windows w hmem)) hfull (fun x => ?_) q.pane d a.nextRef hlaw fun j hj => ?_
      · rw [hs.keys]
        exact ha.window_keys hmem x
      · rw [hown] at hj
        rw [hsteals]
        simp only [keepsKeys, repliedOut, hq, Option.bind_some, hfind, halive, if_true, hk, hj, Option.map_some,
          Option.all_some, Bool.not_eq_true'] at hg
        exact hg

/-! ## Runs -/

/-- A property of windows that needs no look at the operation to be kept. -/
structure Stable (P : Window → Prop) : Prop where
  born : ∀ w, w.Full → w.Law → P w
  closing : ∀ (w : Window) (i : Nat) (ids : Session → List PaneId), P w → P (w.edit i fun s => s.setClosing (ids s))
  closed : ∀ (w : Window) (h : History), P w → P (w.setClosed h)
  recover : ∀ (w : Window) (ref : Nat) (panes : List (PaneId × PaneSnapshot)), w.Ok → w.Full → P w →
    (panes.map fun p => p.1).Nodup → (∀ x, w.total x + (panes.map fun p => p.1).count x ≤ 1) →
    P (w.addRecoverySession ref panes)

theorem stable_full : Stable Window.Full :=
  ⟨fun _ h _ => h, fun _ i _ h => Window.full_edit_shape h i (fun s => s.shape_setClosing _) fun _ => rfl,
    fun _ _ h => ⟨h.good, h.responder⟩,
    fun _ ref _ hok hf _ hnd hone => (Window.addRecoverySession_full hok hf ref hnd hone).1⟩

theorem stable_law : Stable Window.Law :=
  ⟨fun _ _ h => h, fun _ _ _ h => Window.law_edit h (fun _ => rfl) fun _ => rfl, fun _ _ h => h,
    fun _ ref _ hok hf h hnd hone => (Window.addRecoverySession_full hok hf ref hnd hone).2 h⟩

theorem apply_other {P : Window → Prop} (hs : Stable P) {a : App} (ha : a.Inv) (hf : a.Full)
    (hP : ∀ w ∈ a.windows, P w) {op : Op} (hl : a.legal op = true) (hnew : a.bringsNew op = true)
    (hmove : ∀ k, ∀ w ∈ (a.moveSessionToNewWindow k).windows, P w)
    (hwindow : ∀ k act, op ≠ .window k act) (hreply : ∀ n e, op ≠ .reply n e) : ∀ w ∈ (a.apply op).windows, P w := by
  cases op with
  | window k act => exact absurd rfl (hwindow k act)
  | reply n e => exact absurd rfl (hreply n e)
  | newWindow source id =>
    intro w hw
    have hw : w ∈ a.windows ++ [_] := hw
    obtain hw | hw := List.mem_append.mp hw
    · exact hP w hw
    · obtain rfl := List.mem_singleton.mp hw
      have h := newWindow_full a.nextRef a.nextRef ⟨id, (NewPaneTarget.inherit.seed
        (((a.windows[source]?).bind Window.activeSession).bind Session.focusedPane)).2, (NewPaneTarget.inherit.seed
        (((a.windows[source]?).bind Window.activeSession).bind Session.focusedPane)).1, 0, false⟩
      exact hs.born _ h.1 h.2
  | moveSessionToNewWindow k => exact hmove k
  | closeWindow k =>
    show ∀ w ∈ (a.closeWindow k).windows, P w
    unfold App.closeWindow
    split
    · exact hP
    · exact fun w hw => hP w ((List.eraseIdx_sublist a.windows k).subset hw)
  | closePane k id =>
    show ∀ w ∈ (a.closePane k id).windows, P w
    obtain h | ⟨i, q, h⟩ := a.closePane_cases k id
    · rw [h]
      exact hP
    · rw [h]
      exact forall_onWindow hP fun w _ h => hs.closing w _ _ h
  | addRecoverySession panes =>
    obtain ⟨hnd, hun⟩ := legal_recovery hl hnew
    refine forall_onWindow (a := a) hP fun w hk h => ?_
    have hmem := List.mem_of_getElem? hk
    refine hs.recover w _ panes (ha.windows w hmem) (hf w hmem) h hnd fun x => ?_
    exact Nat.le_trans (Nat.add_le_add_right (total_window_le hk x) _) (recovered_once ha hnd hun x)
  | exitEvent id host =>
    intro w hw
    obtain ⟨v, hv, rfl⟩ := List.mem_map.mp hw
    exact hs.closed v _ (hP v hv)
  | launch saved =>
    have h := launch_full a (of_decide_eq_true hnew)
    exact fun w hw => hs.born w (h.1 w hw) (h.2 w hw)

theorem apply_full {a : App} (ha : a.Inv) (hf : a.Full) {op : Op} (hl : a.legal op = true)
    (hg : a.keepsLayout op = true) : (a.apply op).Full := by
  cases op with
  | window k act =>
    obtain ⟨w, hk, hact⟩ := legal_window hl
    have hone : ∀ x, w.total x + Window.added act x ≤ 1 := fun x =>
      Nat.le_trans (Nat.add_le_add_right (total_window_le hk x) _) (legal_added ha hact x)
    refine forall_onWindow (a := a) hf fun v hv hfv => ?_
    rw [hk] at hv
    cases hv
    simp only [keepsLayout, hk, Option.all_some] at hg
    exact Window.act_full (ha.windows w (List.mem_of_getElem? hk)) hfv hone a.nextRef hact hg
  | reply n e => exact reply_full ha hf hg
  | _ =>
    exact apply_other stable_full ha hf hf hl (bringsNew_of_layout hg) (fun k => (moveSession_full ha hf k).1)
      (fun _ _ h => by cases h) fun _ _ h => by cases h

theorem apply_law {a : App} (ha : a.Inv) (hf : a.Full) (hlaw : a.Law) {op : Op} (hl : a.legal op = true)
    (hnew : a.bringsNew op = true) (hg : a.keepsKeys op = true) : (a.apply op).Law := by
  cases op with
  | window k act =>
    obtain ⟨w, hk, hact⟩ := legal_window hl
    have hone : ∀ x, w.total x + Window.added act x ≤ 1 := fun x =>
      Nat.le_trans (Nat.add_le_add_right (total_window_le hk x) _) (legal_added ha hact x)
    have hmem := List.mem_of_getElem? hk
    refine forall_onWindow (a := a) hlaw fun v hv hlv => ?_
    rw [hk] at hv
    cases hv
    simp only [keepsKeys, hk, Option.all_some] at hg
    exact Window.act_law (ha.windows w hmem) (hf w hmem) hone a.nextRef hact hlv hg
  | reply n e => exact reply_law ha hf hlaw hg
  | _ =>
    exact apply_other stable_law ha hf hlaw hl hnew (fun k => (moveSession_full ha hf k).2 hlaw)
      (fun _ _ h => by cases h) fun _ _ h => by cases h

theorem repliedOut_some {a : App} {n i : Nat} {w : Window} {id : PaneId} (h : a.repliedOut n = some (w, i, id)) :
    w ∈ a.windows ∧ ∃ s, w.sessions[i]? = some s ∧ id ∈ s.keys := by
  obtain ⟨q, -, h⟩ := Option.bind_eq_some_iff.mp h
  obtain ⟨f, -, h⟩ := Option.bind_eq_some_iff.mp h
  split at h
  · obtain ⟨v, hv, h⟩ := Option.bind_eq_some_iff.mp h
    obtain ⟨j, hj, heq⟩ := Option.map_eq_some_iff.mp h
    cases heq
    exact ⟨List.mem_of_getElem? hv, Window.owner_some hj⟩
  · cases h

/-- Where the view with the keys is the focused pane shown, what keeps the keys keeps the layout. -/
theorem keepsLayout_of_keys {a : App} (hf : a.Full) (hlaw : a.Law) {op : Op} (hg : a.keepsKeys op = true) :
    a.keepsLayout op = true := by
  cases op with
  | window k act =>
    show (a.windows[k]?).all (fun w => w.keepsLayout act) = true
    have hg : (a.windows[k]?).all (fun w => w.keepsKeys act) = true := hg
    cases hk : a.windows[k]? with
    | none => rfl
    | some w =>
      rw [hk, Option.all_some] at hg
      have hmem := List.mem_of_getElem? hk
      exact Window.keepsLayout_of_law (hf w hmem) (hlaw w hmem) hg
  | reply n e =>
    cases e with
    | none => rfl
    | some d =>
      show (a.repliedOut n).all (fun t => !t.1.stale t.2.1 t.2.2) = true
      have hg : (a.repliedOut n).all (fun t => !t.1.steals t.2.1 t.2.2) = true := hg
      cases ht : a.repliedOut n with
      | none => rfl
      | some t =>
        obtain ⟨w, i, id⟩ := t
        obtain ⟨hmem, s, hs, hid⟩ := repliedOut_some ht
        rw [ht, Option.all_some, Bool.not_eq_true'] at hg
        rw [Option.all_some, Bool.not_eq_true']
        refine Window.not_stale_of_law (hf w hmem) (hlaw w hmem) hg fun t ht => ?_
        rw [hs] at ht
        cases ht
        exact hid
  | addRecoverySession panes => exact hg
  | launch saved => exact hg
  | _ => rfl

/-- Along runs that keep the layout, and along runs that keep the keys. -/
theorem exec_full {run : List Op} {a : App} (hm : Meets step (fun a op => a.keepsLayout op = true) init run)
    (h : exec step init run = some a) : a.Full := by
  have hinv := exec_inv_of_meets (G := fun a op => a.keepsLayout op = true) (I := fun a => a.Inv ∧ a.Full)
    (fun s op s' hg hs hI => by
      obtain ⟨hl, rfl⟩ := step_some hs
      exact ⟨step_inv hs (bringsNew_of_layout hg) hI.1, apply_full hI.1 hI.2 hl hg⟩) hm h ⟨init_inv, fun _ hw => absurd hw List.not_mem_nil⟩
  exact hinv.2

theorem exec_law {run : List Op} {a : App} (hm : Meets step (fun a op => a.keepsKeys op = true) init run)
    (h : exec step init run = some a) : a.Law := by
  have hinv := exec_inv_of_meets (G := fun a op => a.keepsKeys op = true) (I := fun a => a.Inv ∧ a.Full ∧ a.Law)
    (fun s op s' hg hs hI => by
      obtain ⟨hl, rfl⟩ := step_some hs
      have hlayout := keepsLayout_of_keys hI.2.1 hI.2.2 hg
      have hnew := bringsNew_of_layout hlayout
      exact ⟨step_inv hs hnew hI.1, apply_full hI.1 hI.2.1 hl hlayout, apply_law hI.1 hI.2.1 hI.2.2 hl hnew hg⟩) hm h
    ⟨init_inv, fun _ hw => absurd hw List.not_mem_nil, fun _ hw => absurd hw List.not_mem_nil⟩
  exact hinv.2.2

/-! ## No pane disappears from its layout -/

/-- Of every session: its panes are the leaves of its tree, its focus is on one of them, and
without panes it is alone. -/
structure LaidOut (a : App) : Prop where
  leaves : ∀ w ∈ a.windows, ∀ s ∈ w.sessions, ∀ x, x ∈ s.keys ↔ x ∈ s.leaves
  focused : ∀ w ∈ a.windows, ∀ s ∈ w.sessions, s.panes ≠ [] → ∃ f, s.focusedID = some f ∧ f ∈ s.keys
  alone : ∀ w ∈ a.windows, ∀ s ∈ w.sessions, s.panes = [] → w.sessions = [s]

theorem Full.laidOut {a : App} (hf : a.Full) : a.LaidOut := by
  refine ⟨fun w hw s hs x => ?_, fun w hw s hs hne => ?_, fun w hw s hs hnil => ?_⟩
  · obtain hgood | ⟨t, ht, he⟩ := (hf w hw).good
    · rw [← List.count_pos_iff, ← List.count_pos_iff, (hgood s hs).even]
    · rw [ht, List.mem_singleton] at hs
      subst hs
      unfold Session.keys Session.leaves
      rw [he.1, he.2]
      exact Iff.rfl
  · obtain hgood | ⟨t, ht, he⟩ := (hf w hw).good
    · exact (hgood s hs).focused
    · rw [ht, List.mem_singleton] at hs
      subst hs
      exact absurd he.2 hne
  · obtain hgood | ⟨t, ht, he⟩ := (hf w hw).good
    · obtain ⟨f, -, hmem⟩ := (hgood s hs).focused
      unfold Session.keys at hmem
      rw [hnil] at hmem
      cases hmem
    · rw [ht, List.mem_singleton] at hs
      rw [ht, hs]

theorem layout_kept {run : List Op} {a : App} (h : exec step init run = some a)
    (hm : Meets step (fun a op => a.keepsLayout op = true) init run) : a.LaidOut :=
  (exec_full hm h).laidOut

/-- A pane is split off, moved to the other session and killed there. -/
def moveAndKill : List Op :=
  [.newWindow 0 1, .window 0 (.split none 2 .horizontal false false .inherit), .window 0 (.newSession 3 .inherit),
    .window 0 (.selectSession 0), .window 0 (.movePane 1), .window 0 (.paneExited 2), .window 0 .killFocusedPane]

theorem layout_kept_moveAndKill : ∃ a, exec step init moveAndKill = some a ∧ a.LaidOut := by
  have hs : exec step init moveAndKill = some ((exec step init moveAndKill).get (by decide)) := (Option.some_get _).symm
  exact ⟨_, hs, layout_kept hs (by decide)⟩

/-- The focused pane of two is moved to a session of its own. -/
def moveOut : List Op :=
  [.newWindow 0 1, .window 0 (.split none 2 .horizontal false false .inherit), .window 0 .movePaneToNewSession]

theorem moved_pane_unfocused : ¬ ∀ (run : List Op) (a : App), exec step init run = some a → a.LaidOut := by
  intro h
  have hs : exec step init moveOut = some ((exec step init moveOut).get (by decide)) := (Option.some_get _).symm
  have hfocus : ∀ w ∈ ((exec step init moveOut).get (by decide)).windows, ∀ s ∈ w.sessions, s.panes ≠ [] →
      s.focusedID ≠ none := by
    intro w hw s hs' hne hnone
    obtain ⟨f, hf, -⟩ := (h _ _ hs).focused w hw s hs' hne
    rw [hnone] at hf
    cases hf
  exact absurd hfocus (by decide)

/-! ## The keys go to the focused pane shown -/

/-- A pane that is first responder is the focused pane of the active session. -/
def KeysFollowFocus (a : App) : Prop :=
  ∀ w ∈ a.windows, ∀ p, w.responder = some p → ∃ s v, w.activeSession = some s ∧ s.focusedPane = some v ∧ v.id = p

theorem Law.keysFollowFocus {a : App} (hl : a.Law) : a.KeysFollowFocus := by
  intro w hw p hp
  obtain ⟨s, hs, hf, hmem⟩ := hl w hw p hp
  obtain ⟨v, hv⟩ := Session.pane?_of_mem hmem
  refine ⟨s, v, hs, ?_, Session.pane?_id hv⟩
  rw [Session.focusedPane, hf, Option.bind_some, hv]

theorem keys_follow_focus {run : List Op} {a : App} (h : exec step init run = some a)
    (hm : Meets step (fun a op => a.keepsKeys op = true) init run) : a.KeysFollowFocus :=
  (exec_law hm h).keysFollowFocus

/-- A sole pane is moved to the other session, and panes go from both. -/
def mergeSessions : List Op :=
  [.newWindow 0 1, .window 0 (.newSession 2 .inherit), .window 0 (.movePane 0), .window 0 (.newSession 3 .inherit),
    .window 0 (.paneExited 1), .window 0 .killFocusedPane]

theorem keys_follow_focus_merged : ∃ a, exec step init mergeSessions = some a ∧ a.KeysFollowFocus := by
  have hs : exec step init mergeSessions = some ((exec step init mergeSessions).get (by decide)) :=
    (Option.some_get _).symm
  exact ⟨_, hs, keys_follow_focus hs (by decide)⟩

/-- The focused pane of a session that is not shown exits, and the next one there gets the keys. -/
def hiddenExit : List Op :=
  [.newWindow 0 1, .window 0 (.split none 2 .horizontal false false .inherit), .window 0 (.newSession 3 .inherit),
    .window 0 (.paneExited 2)]

theorem hidden_pane_gets_keys : ¬ ∀ (run : List Op) (a : App), exec step init run = some a → a.KeysFollowFocus := by
  intro h
  have hs : exec step init hiddenExit = some ((exec step init hiddenExit).get (by decide)) := (Option.some_get _).symm
  have hkeys : ∀ w ∈ ((exec step init hiddenExit).get (by decide)).windows,
      w.responder.all (fun p => (w.activeSession.bind Session.focusedPane).any fun v => v.id == p) = true := by
    intro w hw
    cases hr : w.responder with
    | none => rfl
    | some p =>
      obtain ⟨s, v, hs', hv, hid⟩ := h _ _ hs w hw p hr
      rw [Option.all_some, hs', Option.bind_some, hv, Option.any_some, hid]
      exact beq_self_eq_true p
  exact absurd hkeys (by decide)

end App

end Mux.Tiling
