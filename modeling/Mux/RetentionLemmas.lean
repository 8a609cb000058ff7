import Mux.HistorySound
import Mathlib.Data.List.Forall2
import Mathlib.Data.List.Perm.Basic

/-!
# Where closed panes are kept

Each window has a history under its id, open or parked. Only the reply to a close, a reopen,
an exit event, a listing and a restart reach a history; every other operation moves it with
its window or leaves it alone.
-/

namespace Mux.Tiling

open Lib

namespace Window

def tag (w : Window) : Nat × History := (w.id, w.closedPanes)

@[simp] theorem tag_setSessions (w : Window) (l : List Session) : (w.setSessions l).tag = w.tag := rfl
@[simp] theorem tag_setActive (w : Window) (i : Nat) : (w.setActive i).tag = w.tag := rfl
@[simp] theorem tag_setResponder (w : Window) (r : Option PaneId) : (w.setResponder r).tag = w.tag := rfl
@[simp] theorem tag_edit (w : Window) (i : Nat) (f : Session → Session) : (w.edit i f).tag = w.tag := rfl
@[simp] theorem tag_dropEmpty (w : Window) : w.dropEmpty.tag = w.tag := rfl
@[simp] theorem tag_pushActive (w : Window) (ref : Nat) : (w.pushActive ref).tag = w.tag := rfl
@[simp] theorem tag_setClosed (w : Window) (h : History) : (w.setClosed h).tag = (w.id, h) := rfl

@[simp] theorem tag_noteFocused (w : Window) (id : PaneId) : (w.noteFocused id).tag = w.tag := by
  unfold noteFocused
  split <;> rfl

@[simp] theorem tag_focus (w : Window) (id : PaneId) : (w.focus id).tag = w.tag := by
  unfold focus
  split <;> simp

@[simp] theorem tag_focusActive (w : Window) : w.focusActive.tag = w.tag := by
  unfold focusActive
  split <;> simp

@[simp] theorem tag_removeView (w : Window) (id : PaneId) : (w.removeView id).tag = w.tag := by
  unfold removeView
  split <;> rfl

@[simp] theorem tag_sessionDidEmpty (w : Window) (i fresh : Nat) : (w.sessionDidEmpty i fresh).tag = w.tag := by
  simp only [sessionDidEmpty]
  split <;> simp

@[simp] theorem tag_addInitialPane (w : Window) (i : Nat) (p : PaneView) : (w.addInitialPane i p).tag = w.tag := by
  simp [addInitialPane]

@[simp] theorem tag_restore (w : Window) (i : Nat) (saved : SessionSnapshot) : (w.restore i saved).tag = w.tag := by
  simp only [restore]
  split <;> simp

@[simp] theorem tag_removePane (w : Window) (i : Nat) (id : PaneId) (fresh : Nat) :
    (w.removePane i id fresh).tag = w.tag := by
  simp only [removePane]
  repeat' split
  all_goals simp

@[simp] theorem tag_detach (w : Window) (i : Nat) (id : PaneId) (fresh : Nat) :
    (w.detach i id fresh).tag = w.tag := by
  simp only [detach]
  repeat' split
  all_goals simp

@[simp] theorem tag_adopt (w : Window) (i : Nat) (p : PaneView) : (w.adopt i p).tag = w.tag := by
  simp [adopt]

@[simp] theorem tag_selectSession (w : Window) (i : Nat) : (w.selectSession i).tag = w.tag := by
  unfold selectSession
  split <;> simp

@[simp] theorem tag_reveal (w : Window) (i : Nat) (id : PaneId) : (w.reveal i id).tag = w.tag := by
  simp only [reveal]
  repeat' split
  all_goals simp

theorem tag_split (w : Window) (i : Nat) (source : Option PaneId) (id : PaneId) (d : SplitDirection)
    (before atRoot : Bool) (target : NewPaneTarget) : (w.split i source id d before atRoot target).tag = w.tag := by
  simp only [Window.split]
  repeat' split
  all_goals simp

theorem tag_movePaneToNewSession (w : Window) (fresh : Nat) : (w.movePaneToNewSession fresh).tag = w.tag := by
  simp only [movePaneToNewSession]
  repeat' split
  all_goals simp

theorem tag_movePane (w : Window) (i fresh : Nat) : (w.movePane i fresh).tag = w.tag := by
  simp only [movePane]
  repeat' split
  all_goals simp

theorem tag_addRecoverySession (w : Window) (ref : Nat) (panes : List (PaneId × PaneSnapshot)) :
    (w.addRecoverySession ref panes).tag = w.tag := by
  simp only [addRecoverySession]
  split <;> simp

/-- Of the operations of a window only a reopen reaches its history. -/
theorem tag_act (w : Window) (fresh : Nat) {act : Act} (h : ∀ now, act ≠ .reopenClosedTab now) :
    (w.act fresh act).tag = w.tag := by
  cases act with
  | newSession id target => simp [act, newSession]
  | split source id d before atRoot target =>
    simp only [act]
    repeat' split
    all_goals first | exact tag_split .. | rfl
  | moveFocused d n =>
    simp only [act, moveFocused]
    repeat' split
    all_goals simp
  | toggleZoom => rfl
  | resizeFocused d => rfl
  | focusDirection target =>
    simp only [act, focusDirection]
    repeat' split
    all_goals simp
  | click id => simp [act]
  | commitCanvas i id =>
    simp only [act, commitCanvas]
    repeat' split
    all_goals simp
  | selectSession i => simp [act]
  | movePaneToNewSession => exact tag_movePaneToNewSession w fresh
  | movePane i => exact tag_movePane w i fresh
  | killFocusedPane =>
    simp only [act, killFocusedPane]
    split <;> simp
  | paneExited id => simp [act, paneExited]
  | reopenClosedTab now => exact absurd rfl (h now)
  | becomeKey => simp [act]

theorem tag_reopenClosedTab (w : Window) (now ref : Nat) :
    (w.reopenClosedTab now ref).tag = (w.id, (w.closedPanes.popLast now).1) := by
  unfold reopenClosedTab
  split
  · rename_i rest e h
    simp [h]
  · rename_i rest h
    simp [h]

theorem tag_restoreEach (saved : List SessionSnapshot) (w : Window) (i : Nat) :
    (w.restoreEach i saved).tag = w.tag := by
  induction saved generalizing w i with
  | nil => rfl
  | cons s rest ih => rw [restoreEach, ih, tag_restore]

theorem tag_restoreSessions (w : Window) (fresh : Nat) (saved : List SessionSnapshot) (active : Int) :
    (w.restoreSessions fresh saved active).tag = w.tag := by
  simp only [restoreSessions]
  split
  · rfl
  · simp [tag_restoreEach]

/-! ## What a daemon says about a pane -/

/-- A window loses panes or closed panes at most. -/
structure Trims (w w' : Window) : Prop where
  ok : w.Ok → w'.Ok
  total : ∀ x, w'.total x ≤ w.total x
  refs : w'.refs = w.refs

theorem Trims.refl (w : Window) : Trims w w := ⟨fun hw => hw, fun _ => Nat.le_refl _, rfl⟩

theorem Trims.trans {u v w : Window} (h : Trims u v) (h' : Trims v w) : Trims u w :=
  ⟨fun hu => h'.ok (h.ok hu), fun x => Nat.le_trans (h'.total x) (h.total x), h'.refs.trans h.refs⟩

theorem trims_edit (w : Window) (i : Nat) {f : Session → Session} (hr : ∀ s, (f s).ref = s.ref)
    (ht : ∀ s, (f s).tree = s.tree) (hk : ∀ s, (f s).keys = s.keys) : Trims w (w.edit i f) := by
  refine ⟨fun hw => ⟨?_, ?_, fun s' hs' => ?_, ?_⟩, fun x => ?_, refs_edit w i hr⟩
  · intro hnil
    have hlen := congrArg List.length (show w.sessions.modify i f = [] from hnil)
    rw [List.length_modify, List.length_nil] at hlen
    exact hw.nonempty (List.length_eq_zero_iff.mp hlen)
  · show w.active < (w.sessions.modify i f).length
    rw [List.length_modify]
    exact hw.active_lt
  · obtain ⟨j, hj⟩ := List.getElem?_of_mem hs'
    obtain ⟨s, hs, heq⟩ := getElem?_modify_some_iff.mp hj
    have hok := hw.ok s (List.mem_of_getElem? hs)
    rw [heq]
    split
    · intro x
      rw [ht, hk]
      exact hok x
    · exact hok
  · have hmap := map_modify_of_eq ht i w.sessions
    have hc : ∀ l : List Session, l.countP (fun s => s.tree.isNone) = (l.map fun s => s.tree).countP Option.isNone :=
      fun l => by
        rw [List.countP_map]
        rfl
    show (w.sessions.modify i f).countP _ ≤ 1
    rw [hc, hmap, ← hc]
    exact hw.empties
  · have hmap := map_modify_of_eq hk i w.sessions
    have hkeys : (w.edit i f).keys = w.keys := by
      show (w.sessions.modify i f).flatMap Session.keys = w.sessions.flatMap Session.keys
      rw [List.flatMap_def, List.flatMap_def, hmap]
    show (w.edit i f).keys.count x + _ ≤ w.keys.count x + _
    rw [hkeys]
    exact Nat.le_refl _

theorem id_describe (p : PaneView) (cwd : Option String) : (p.describe cwd).id = p.id := by
  unfold PaneView.describe
  repeat' split
  all_goals rfl

theorem keys_describe (s : Session) (id : PaneId) (cwd : Option String) : (s.describe id cwd).keys = s.keys := by
  show (s.panes.map _).map _ = s.panes.map _
  rw [List.map_map]
  apply List.map_congr_left
  intro p _
  show (if p.id = id then p.describe cwd else p).id = p.id
  split
  · exact id_describe p cwd
  · rfl

theorem trims_describe (w : Window) (id : PaneId) (host cwd : Option String) : Trims w (w.describe id host cwd) := by
  unfold describe
  split
  · exact trims_edit w _ (fun _ => rfl) (fun _ => rfl) fun s => keys_describe s id cwd
  · exact Trims.refl w

@[simp] theorem tag_describe (w : Window) (id : PaneId) (host cwd : Option String) :
    (w.describe id host cwd).tag = w.tag := by
  unfold describe
  split <;> rfl

theorem describeAll_spec (items : List Listing) (host : Option String) (w : Window) :
    Trims w (items.foldl (fun w l => w.describe l.id host l.cwd) w) ∧
      (items.foldl (fun w l => w.describe l.id host l.cwd) w).tag = w.tag := by
  induction items generalizing w with
  | nil => exact ⟨Trims.refl w, rfl⟩
  | cons l items ih =>
    obtain ⟨ht, hg⟩ := ih (w.describe l.id host l.cwd)
    exact ⟨(trims_describe w l.id host l.cwd).trans ht, hg.trans (tag_describe w l.id host l.cwd)⟩

theorem trims_setClosed (w : Window) {h : History} (hs : h.Sublist w.closedPanes) : Trims w (w.setClosed h) :=
  ⟨fun hw => ⟨hw.nonempty, hw.active_lt, hw.ok, hw.empties⟩,
    fun x => Nat.add_le_add_left ((hs.map _).count_le x) _, rfl⟩

theorem trims_applyListings (w : Window) (items : List Listing) (host : Option String) (now : Nat) :
    Trims w (w.applyListings items host now) :=
  (trims_setClosed w (retire_sublist items host _ _)).trans (describeAll_spec items host _).1

theorem tag_applyListings (w : Window) (items : List Listing) (host : Option String) (now : Nat) :
    (w.applyListings items host now).tag =
      (w.id, (retire items host w.closedPanes (w.closedPanes.expired host now)).1) :=
  (describeAll_spec items host _).2

end Window

/-! ## Histories of the app -/

theorem forall₂_modify {α : Type} {R : α → α → Prop} (hr : ∀ x, R x x) {f : α → α} :
    ∀ {l : List α} {k : Nat}, (∀ x, l[k]? = some x → R x (f x)) → List.Forall₂ R l (l.modify k f)
  | [], _, _ => by
    rw [List.modify_nil]
    exact .nil
  | a :: l, 0, h => by
    rw [List.modify_zero_cons]
    exact .cons (h a rfl) (List.forall₂_same.mpr fun x _ => hr x)
  | a :: l, k + 1, h => by
    rw [List.modify_succ_cons]
    exact .cons (hr a) (forall₂_modify hr fun x hx => h x hx)

/-- The histories after a step, each under the name it had: in order, with nothing new, and with
all but what is lost. -/
structure Carries (lost : Key → Prop) (H H' : List (Nat × History)) : Prop where
  old : ∀ p' ∈ H', p'.2 = [] ∨ ∃ p ∈ H, p.1 = p'.1 ∧ (History.keys p'.2).Sublist (History.keys p.2)
  stay : ∀ p ∈ H, ∀ k ∈ History.keys p.2, ¬ lost k → ∃ p' ∈ H', p'.1 = p.1 ∧ k ∈ History.keys p'.2

theorem Carries.of_perm {lost : Key → Prop} {H H' : List (Nat × History)} (h : H'.Perm H) : Carries lost H H' :=
  ⟨fun p hp => .inr ⟨p, h.mem_iff.mp hp, rfl, List.Sublist.refl _⟩,
    fun p hp _ hk _ => ⟨p, h.mem_iff.mpr hp, rfl, hk⟩⟩

/-- A new window has an empty history. -/
theorem Carries.of_new {lost : Key → Prop} {H H' : List (Nat × History)} {n : Nat} (h : H'.Perm ((n, []) :: H)) :
    Carries lost H H' := by
  refine ⟨fun p hp => ?_, fun p hp _ hk _ => ⟨p, h.mem_iff.mpr (List.mem_cons_of_mem _ hp), rfl, hk⟩⟩
  obtain rfl | hp := List.mem_cons.mp (h.mem_iff.mp hp)
  · exact .inl rfl
  · exact .inr ⟨p, hp, rfl, List.Sublist.refl _⟩

/-- One history after another. -/
def Follows (lost : Key → Prop) (p p' : Nat × History) : Prop :=
  p'.1 = p.1 ∧ (History.keys p'.2).Sublist (History.keys p.2) ∧
    ∀ k ∈ History.keys p.2, ¬ lost k → k ∈ History.keys p'.2

theorem Follows.refl (lost : Key → Prop) (p : Nat × History) : Follows lost p p :=
  ⟨rfl, List.Sublist.refl _, fun _ hk _ => hk⟩

theorem Carries.of_follows {lost : Key → Prop} {H H' : List (Nat × History)} (h : List.Forall₂ (Follows lost) H H') :
    Carries lost H H' ∧ H'.map Prod.fst = H.map Prod.fst := by
  induction h with
  | nil => exact ⟨⟨fun _ hp => absurd hp List.not_mem_nil, fun _ hp => absurd hp List.not_mem_nil⟩, rfl⟩
  | @cons p p' H H' hp _ ih =>
    obtain ⟨hc, hn⟩ := ih
    refine ⟨⟨fun q' hq' => ?_, fun q hq k hk hl => ?_⟩, ?_⟩
    · obtain rfl | hq' := List.mem_cons.mp hq'
      · exact .inr ⟨p, List.mem_cons_self, hp.1.symm, hp.2.1⟩
      · obtain h | ⟨q, hq, h⟩ := hc.old q' hq'
        · exact .inl h
        · exact .inr ⟨q, List.mem_cons_of_mem _ hq, h⟩
    · obtain rfl | hq := List.mem_cons.mp hq
      · exact ⟨p', List.mem_cons_self, hp.1, hp.2.2 k hk hl⟩
      · obtain ⟨q', hq', h⟩ := hc.stay q hq k hk hl
        exact ⟨q', List.mem_cons_of_mem _ hq', h⟩
    · rw [List.map_cons, List.map_cons, hn, hp.1]

def WindowSnapshot.tag (w : WindowSnapshot) : Nat × History := (w.id, w.closedPanes.getD [])

namespace App

def histories (a : App) : List (Nat × History) := a.windows.map Window.tag ++ a.closedWindows.map WindowSnapshot.tag

/-- Windows have names of their own, and new ones get names not used yet. -/
structure Named (a : App) : Prop where
  once : (a.histories.map Prod.fst).Nodup
  lt : ∀ n ∈ a.histories.map Prod.fst, n < a.nextRef

theorem histories_onWindow (a : App) (k : Nat) {f : Window → Window} (hf : ∀ w, (f w).tag = w.tag) :
    (a.onWindow k f).histories = a.histories :=
  congrArg (· ++ _) (map_modify_of_eq hf k a.windows)

theorem Named.same {a a' : App} (ha : a.Named) (h : a'.histories.map Prod.fst = a.histories.map Prod.fst)
    (hn : a.nextRef ≤ a'.nextRef) : a'.Named :=
  ⟨h ▸ ha.once, fun n hmem => Nat.lt_of_lt_of_le (ha.lt n (h ▸ hmem)) hn⟩

theorem Named.perm {a a' : App} (ha : a.Named) (h : a'.histories.Perm a.histories) (hn : a.nextRef ≤ a'.nextRef) :
    a'.Named := by
  have hp := h.map Prod.fst
  exact ⟨hp.nodup_iff.mpr ha.once, fun n hmem => Nat.lt_of_lt_of_le (ha.lt n (hp.mem_iff.mp hmem)) hn⟩

theorem Named.new {a a' : App} (ha : a.Named) (h : a'.histories.Perm ((a.nextRef, []) :: a.histories))
    (hn : a.nextRef < a'.nextRef) : a'.Named := by
  have hp := h.map Prod.fst
  rw [List.map_cons] at hp
  refine ⟨hp.nodup_iff.mpr (List.nodup_cons.mpr ⟨fun hmem => ?_, ha.once⟩), fun n hmem => ?_⟩
  · exact Nat.lt_irrefl _ (ha.lt _ hmem)
  · obtain rfl | hmem := List.mem_cons.mp (hp.mem_iff.mp hmem)
    · exact hn
    · exact Nat.lt_trans (ha.lt n hmem) hn

/-- Nothing that is in a session is in a history. -/
theorem Inv.key_apart {a : App} (ha : a.Inv) {x : PaneId} (hx : x ∈ a.keys) {p : Nat × History}
    (hp : p ∈ a.histories) :
    x ∉ History.ids p.2 := by
  intro hmem
  have hone := ha.once x
  obtain ⟨w, hw, hxw⟩ := List.mem_flatMap.mp hx
  have hpos := List.count_pos_iff.mpr hxw
  obtain hp | hp := List.mem_append.mp hp
  · obtain ⟨v, hv, rfl⟩ := List.mem_map.mp hp
    have hposv := List.count_pos_iff.mpr (show x ∈ v.closedPanes.ids from hmem)
    obtain ⟨j, hj⟩ := List.getElem?_of_mem hv
    obtain ⟨i, hi⟩ := List.getElem?_of_mem hw
    have hapart := flatMap_apart Window.ids x hi hj (Nat.le_trans (Nat.le_add_right _ _) hone)
      (List.mem_append_left _ hxw) (List.mem_append_right _ hmem)
    subst hapart
    rw [hi] at hj
    cases hj
    have hle := total_window_le hi x
    unfold Window.total at hle
    omega
  · obtain ⟨v, hv, rfl⟩ := List.mem_map.mp hp
    have h1 : x ∈ a.parkedIds := List.mem_flatMap.mpr ⟨v, hv, List.mem_append_right _ hmem⟩
    have h2 : x ∈ a.windows.flatMap Window.ids := List.mem_flatMap.mpr ⟨w, hw, List.mem_append_left _ hxw⟩
    have h3 := List.count_pos_iff.mpr h1
    have h4 := List.count_pos_iff.mpr h2
    unfold total at hone
    omega

/-- Each history has a pane once. -/
theorem Inv.history_once {a : App} (ha : a.Inv) {p : Nat × History} (hp : p ∈ a.histories) :
    (History.ids p.2).Nodup := by
  apply List.nodup_iff_count.mpr
  intro x
  have hone := ha.once x
  obtain hp | hp := List.mem_append.mp hp
  · obtain ⟨v, hv, rfl⟩ := List.mem_map.mp hp
    exact Nat.le_trans (Nat.le_add_left _ _) (ha.window_once hv x)
  · obtain ⟨v, hv, rfl⟩ := List.mem_map.mp hp
    have hle := count_le_flatMap WindowSnapshot.ids x hv
    have hids : v.ids.count x = v.leaves.count x + (History.ids (v.closedPanes.getD [])).count x := List.count_append
    unfold total parkedIds at hone
    show (History.ids (v.closedPanes.getD [])).count x ≤ 1
    omega

theorem Inv.trims {a : App} (ha : a.Inv) {l : List Window} (h : List.Forall₂ Window.Trims a.windows l) :
    (a.setWindows l).Inv := by
  have hspec : (∀ w ∈ a.windows, w.Ok) → (∀ w ∈ l, w.Ok) ∧
      (∀ x, (l.flatMap Window.ids).count x ≤ (a.windows.flatMap Window.ids).count x) ∧
        l.flatMap Window.refs = a.windows.flatMap Window.refs := by
    generalize a.windows = ws at h
    induction h with
    | nil => exact fun _ => ⟨fun _ hw => absurd hw List.not_mem_nil, fun _ => Nat.le_refl _, rfl⟩
    | @cons w w' ws l ht _ ih =>
      intro hok
      obtain ⟨h1, h2, h3⟩ := ih fun v hv => hok v (List.mem_cons_of_mem _ hv)
      refine ⟨fun v hv => ?_, fun x => ?_, ?_⟩
      · obtain rfl | hv := List.mem_cons.mp hv
        · exact ht.ok (hok w List.mem_cons_self)
        · exact h1 v hv
      · rw [count_flatMap_cons, count_flatMap_cons, Window.count_ids, Window.count_ids]
        exact Nat.add_le_add (ht.total x) (h2 x)
      · rw [List.flatMap_cons, List.flatMap_cons, ht.refs, h3]
  obtain ⟨h1, h2, h3⟩ := hspec ha.windows
  refine ha.of_lists 0 h1 (fun x => ?_) (fun r => ?_) rfl
  · exact Nat.le_trans (Nat.add_le_add_right (h2 x) _) (ha.once x)
  · show (l.flatMap Window.refs).count r ≤ _
    rw [h3]
    exact Nat.le_add_right _ _

end App

end Mux.Tiling
