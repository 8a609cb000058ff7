import Mux.AppWindowsSound

/-!
# Focus in a window

`focusedID` follows the first responder only where `makeFirstResponder` changes it. A window
is `Full` when the panes of every session are the leaves of its tree, its focus is one of
them, and a session without panes is the only one. The `Law` is that the pane with the keys
is the focused pane of the session that is shown. Every operation ends in a focus call, an
edit that keeps the focus, or both; which of the two the operations keep is read off that.
-/

namespace Mux.Tiling

open Lib

namespace Session

/-- The panes are the leaves, and the focus is on one of them. -/
structure Good (s : Session) : Prop where
  even : ∀ x, s.keys.count x = s.leaves.count x
  focused : ∃ f, s.focusedID = some f ∧ f ∈ s.keys

def Empty (s : Session) : Prop := s.tree = none ∧ s.panes = []

theorem Good.congr {s s' : Session} (h : s.Good) (hk : s'.keys = s.keys)
    (hl : ∀ x, s'.leaves.count x = s.leaves.count x) (hf : s'.focusedID = s.focusedID) : s'.Good := by
  refine ⟨fun x => ?_, ?_⟩
  · rw [hk, hl, h.even]
  · rw [hk, hf]
    exact h.focused

theorem Good.tree {s : Session} (h : s.Good) : s.tree.isSome = true := by
  obtain ⟨f, -, hf⟩ := h.focused
  have hpos := List.count_pos_iff.mpr hf
  rw [h.even, leaves] at hpos
  cases ht : s.tree with
  | none => simp [ht] at hpos
  | some t => rfl

theorem Good.focusedPane {s : Session} (h : s.Good) :
    ∃ p, s.focusedPane = some p ∧ s.focusedID = some p.id ∧ p.id ∈ s.keys := by
  obtain ⟨f, hf, hmem⟩ := h.focused
  obtain ⟨p, hp⟩ := pane?_of_mem hmem
  have hfp : s.focusedPane = some p := by rw [Session.focusedPane, hf, Option.bind_some, hp]
  exact ⟨p, hfp, (focusedPane_some hfp).1, (focusedPane_some hfp).2.2⟩

theorem Good.of_shape {s s' : Session} (h : s.Good) (hs : s'.shape = s.shape) (hf : s'.focusedID = s.focusedID) :
    s'.Good := by
  have htree : s'.shape.tree = s.shape.tree := by rw [hs]
  have hpanes : s'.shape.panes = s.shape.panes := by rw [hs]
  refine h.congr ?_ (fun x => ?_) hf
  · show s'.shape.panes.map _ = s.shape.panes.map _
    rw [hpanes]
  · show (leavesOf s'.shape.tree).count x = (leavesOf s.shape.tree).count x
    rw [htree]

end Session

namespace Window

structure Full (w : Window) : Prop where
  good : (∀ s ∈ w.sessions, s.Good) ∨ ∃ s, w.sessions = [s] ∧ s.Empty
  responder : ∀ r, w.responder = some r → r ∈ w.keys

def Law (w : Window) : Prop :=
  ∀ p, w.responder = some p → ∃ s, w.activeSession = some s ∧ s.focusedID = some p ∧ p ∈ s.keys

/-! ## Focus calls -/

section
variable {w : Window} (hone : ∀ x, w.keys.count x ≤ 1) {i : Nat} {s : Session} (hi : w.sessions[i]? = some s)
  {p : PaneId} (hp : p ∈ s.keys)
include hone hi hp

theorem owner_eq : w.owner p = some i := by
  cases ho : w.owner p with
  | none =>
    have := List.findIdx?_eq_none_iff.mp ho s (List.mem_of_getElem? hi)
    rw [Session.contains_iff.mpr hp] at this
    cases this
  | some j =>
    obtain ⟨hlt, hc, -⟩ := List.findIdx?_eq_some_iff_getElem.mp ho
    have hij := flatMap_apart Session.keys p (List.getElem?_eq_getElem hlt) hi (hone p) (Session.contains_iff.mp hc) hp
    rw [hij]

theorem focus_eq (hr : w.responder ≠ some p) :
    w.focus p = (w.edit i fun s => s.setFocused (some p)).setResponder (some p) := by
  unfold focus
  rw [if_neg hr]
  unfold noteFocused
  rw [owner_eq hone hi hp]

omit hone hi hp in
theorem focus_responder (w : Window) (p : PaneId) : (w.focus p).responder = some p := by
  unfold focus
  split
  · rename_i h
    exact h
  · rfl

/-- Where the view already has the keys, the session keeps the focus it had. -/
theorem full_focus (heven : ∀ x, s.keys.count x = s.leaves.count x)
    (hrest : ∀ (j : Nat) (s' : Session), w.sessions[j]? = some s' → j ≠ i → s'.Good)
    (hsame : w.responder = some p → s.Good) : (w.focus p).Full := by
  have hkeys : p ∈ w.keys := List.mem_flatMap.mpr ⟨s, List.mem_of_getElem? hi, hp⟩
  refine ⟨.inl fun s' hs' => ?_, fun r hr => ?_⟩
  · by_cases hr : w.responder = some p
    · rw [focus, if_pos hr] at hs'
      obtain ⟨j, hj⟩ := List.getElem?_of_mem hs'
      by_cases hji : j = i
      · subst hji
        rw [hi] at hj
        cases hj
        exact hsame hr
      · exact hrest j s' hj hji
    · rw [focus_eq hone hi hp hr] at hs'
      obtain ⟨j, hj⟩ := List.getElem?_of_mem hs'
      have hj : (w.sessions.modify i fun s => s.setFocused (some p))[j]? = some s' := hj
      rw [List.getElem?_modify] at hj
      obtain ⟨t, ht, rfl⟩ := Option.map_eq_some_iff.mp hj
      by_cases hij : i = j
      · subst hij
        rw [hi] at ht
        cases ht
        rw [if_pos rfl]
        exact ⟨heven, p, rfl, hp⟩
      · rw [if_neg hij]
        exact hrest j t ht (Ne.symm hij)
  · rw [focus_responder] at hr
    cases hr
    rw [(shaped_focus w p).keys]
    exact hkeys

theorem law_focus (ha : i = w.active) (hsame : w.responder = some p → s.focusedID = some p) : (w.focus p).Law := by
  intro q hq
  rw [focus_responder] at hq
  cases hq
  by_cases hr : w.responder = some p
  · rw [focus, if_pos hr]
    subst ha
    exact ⟨s, hi, hsame hr, hp⟩
  · rw [focus_eq hone hi hp hr]
    refine ⟨s.setFocused (some p), ?_, rfl, hp⟩
    show (w.sessions.modify i fun s => s.setFocused (some p))[w.active]? = _
    rw [← ha, List.getElem?_modify, hi]
    exact congrArg some (if_pos rfl)

end

section
variable {w : Window} (hone : ∀ x, w.keys.count x ≤ 1)
include hone

/-- Every session has panes: the focused pane of the active one gets the keys. -/
theorem focusActive_spec (hgood : ∀ s ∈ w.sessions, s.Good) (ha : w.active < w.sessions.length) :
    w.focusActive.Full ∧ w.focusActive.Law := by
  have hi : w.sessions[w.active]? = some w.sessions[w.active] := List.getElem?_eq_getElem ha
  have hs := hgood _ (List.mem_of_getElem? hi)
  obtain ⟨p, hp, hf, hmem⟩ := hs.focusedPane
  have heq : w.focusActive = w.focus p.id := by
    unfold focusActive activeSession
    rw [hi, Option.bind_some, hp]
  rw [heq]
  exact ⟨full_focus hone hi hmem hs.even (fun _ s' hs' _ => hgood s' (List.mem_of_getElem? hs')) fun _ => hs,
    law_focus hone hi hmem rfl fun _ => hf⟩

theorem full_focusActive (hf : w.Full) (ha : w.active < w.sessions.length) :
    w.focusActive.Full ∧ w.focusActive.Law := by
  obtain hgood | ⟨s, hs, htree, hpanes⟩ := hf.good
  · exact focusActive_spec hone hgood ha
  · -- the only session has no panes, so nothing has the keys
    have hkeys : w.keys = [] := by
      unfold Window.keys Session.keys
      rw [hs]
      simp [hpanes]
    have hresp : w.responder = none := by
      cases hr : w.responder with
      | none => rfl
      | some r =>
        have := hf.responder r hr
        rw [hkeys] at this
        cases this
    have heq : w.focusActive = w := by
      have hnone : s.focusedPane = none := by
        unfold Session.focusedPane Session.pane?
        rw [hpanes]
        cases s.focusedID <;> rfl
      have hactive : w.activeSession = some s := by
        unfold activeSession
        rw [hs] at ha ⊢
        have h0 : w.active = 0 := by
          rw [List.length_singleton] at ha
          omega
        rw [h0]
        rfl
      unfold focusActive
      rw [hactive, Option.bind_some, hnone]
    rw [heq]
    refine ⟨hf, fun p hp => ?_⟩
    rw [hresp] at hp
    cases hp

/-- A session is gone; the others have panes. -/
theorem sessionDidEmpty_full {i : Nat} (fresh : Nat) (hi : i < w.sessions.length) (ha : w.active < w.sessions.length)
    (hrest : ∀ (j : Nat) (s : Session), w.sessions[j]? = some s → j ≠ i → s.Good) :
    (w.sessionDidEmpty i fresh).Full ∧ (w.sessionDidEmpty i fresh).Law := by
  have hlen := List.length_eraseIdx_of_lt hi
  unfold sessionDidEmpty
  by_cases hnil : (w.sessions.eraseIdx i).isEmpty = true
  · simp only [hnil, if_true]
    refine full_focusActive (fun _ => Nat.zero_le _) ⟨.inr ⟨Session.new fresh, rfl, rfl, rfl⟩, fun r hr => ?_⟩
      Nat.zero_lt_one
    cases hr
  · simp only [hnil]
    have hpos : 0 < (w.sessions.eraseIdx i).length := by
      rw [List.length_pos_iff]
      intro h
      exact hnil (by rw [h]; rfl)
    refine focusActive_spec (fun x => ?_) (fun s hs => ?_) (repaired_lt (by omega) hpos)
    · exact Nat.le_trans (count_flatMap_sublist Session.keys x (List.eraseIdx_sublist w.sessions i)) (hone x)
    · obtain ⟨j, hj, hs⟩ := List.mem_eraseIdx_iff_getElem?.mp hs
      exact hrest j s hs hj

end

/-! ## An edit and a focus call -/

theorem get_edit {w : Window} {i : Nat} {s : Session} (hi : w.sessions[i]? = some s) (f : Session → Session) :
    (w.edit i f).sessions[i]? = some (f s) := by
  show (w.sessions.modify i f)[i]? = _
  rw [List.getElem?_modify, hi]
  exact congrArg some (if_pos rfl)

theorem edit_none {w : Window} {i : Nat} (hi : w.sessions[i]? = none) (f : Session → Session) : w.edit i f = w := by
  unfold edit
  rw [List.modify_eq_self (List.getElem?_eq_none_iff.mp hi)]
  rfl

theorem get_edit_ne (w : Window) {i j : Nat} (hij : j ≠ i) (f : Session → Session) :
    (w.edit i f).sessions[j]? = w.sessions[j]? := by
  show (w.sessions.modify i f)[j]? = _
  rw [List.getElem?_modify]
  cases hj : w.sessions[j]? with
  | none => rfl
  | some s => exact congrArg some (if_neg (Ne.symm hij))

/-- Every session but the one at `i` has panes and its focus on one of them. -/
def Rest (w : Window) (i : Nat) : Prop :=
  ∀ (j : Nat) (s : Session), w.sessions[j]? = some s → j ≠ i → s.Good

theorem Rest.edit {w : Window} {i : Nat} (h : w.Rest i) (f : Session → Session) : (w.edit i f).Rest i :=
  fun j s hs hj => h j s (get_edit_ne w hj f ▸ hs) hj

theorem rest_of_good {w : Window} (h : ∀ s ∈ w.sessions, s.Good) (i : Nat) : w.Rest i :=
  fun _ s hs _ => h s (List.mem_of_getElem? hs)

theorem Rest.good {w : Window} {i : Nat} {s : Session} (h : w.Rest i) (hi : w.sessions[i]? = some s) (hs : s.Good) :
    ∀ s ∈ w.sessions, s.Good := by
  intro t ht
  obtain ⟨j, hj⟩ := List.getElem?_of_mem ht
  by_cases hji : j = i
  · subst hji
    rw [hi] at hj
    cases hj
    exact hs
  · exact h j t hj hji

section
variable {w : Window} {i : Nat} {s : Session} (hi : w.sessions[i]? = some s) {f : Session → Session}
  (hone : ∀ x, (w.edit i f).keys.count x ≤ 1) {p : PaneId} (hp : p ∈ (f s).keys)
include hi hone hp

theorem full_edit_focus (hrest : w.Rest i) (heven : ∀ x, (f s).keys.count x = (f s).leaves.count x)
    (hsame : w.responder = some p → (f s).Good) : ((w.edit i f).focus p).Full :=
  full_focus hone (get_edit hi f) hp heven (hrest.edit f) hsame

theorem law_edit_focus (ha : i = w.active) (hsame : w.responder = some p → (f s).focusedID = some p) :
    ((w.edit i f).focus p).Law :=
  law_focus hone (get_edit hi f) hp ha hsame

end

/-- The panes and the focus of a session stay, and the leaves as a set. -/
theorem full_edit {w : Window} (hf : w.Full) {i : Nat} {f : Session → Session} (hpanes : ∀ s, (f s).panes = s.panes)
    (hgood : ∀ s, w.sessions[i]? = some s → s.Good → (f s).Good)
    (hempty : ∀ s, w.sessions[i]? = some s → s.Empty → (f s).Empty) : (w.edit i f).Full := by
  have hkeys : (w.edit i f).keys = w.keys := by
    show (w.sessions.modify i f).flatMap (fun s => s.panes.map fun p => p.id) =
      w.sessions.flatMap fun s => s.panes.map fun p => p.id
    have hmap := map_modify_of_eq (g := fun s : Session => s.panes) hpanes i w.sessions
    have hflat : ∀ l : List Session, (l.flatMap fun s => s.panes.map fun p => p.id) =
        (l.map fun s => s.panes).flatMap fun ps => ps.map fun p => p.id := fun l => by rw [List.flatMap_map]
    rw [hflat, hmap, ← hflat]
  refine ⟨?_, fun r hr => ?_⟩
  · obtain hall | ⟨s, hs, he⟩ := hf.good
    · refine .inl fun s' hs' => ?_
      obtain ⟨j, hj⟩ := List.getElem?_of_mem hs'
      by_cases hji : j = i
      · subst hji
        cases ht : w.sessions[j]? with
        | none =>
          have : (w.sessions.modify j f)[j]? = some s' := hj
          rw [List.getElem?_modify, ht] at this
          cases this
        | some t =>
          rw [get_edit ht f] at hj
          cases hj
          exact hgood t ht (hall t (List.mem_of_getElem? ht))
      · rw [get_edit_ne w hji f] at hj
        exact hall s' (List.mem_of_getElem? hj)
    · right
      show ∃ s, w.sessions.modify i f = [s] ∧ s.Empty
      rw [hs]
      cases i with
      | zero =>
        exact ⟨f s, rfl, hempty s (by rw [hs]; rfl) he⟩
      | succ i => exact ⟨s, by rw [List.modify_succ_cons, List.modify_nil], he⟩
  · rw [hkeys]
    exact hf.responder r hr

/-- The session that is shown keeps its panes and its focus. -/
theorem law_edit {w : Window} (hl : w.Law) {i : Nat} {f : Session → Session} (hpanes : ∀ s, (f s).panes = s.panes)
    (hfocus : ∀ s, (f s).focusedID = s.focusedID) : (w.edit i f).Law := by
  intro p hp
  obtain ⟨s, hs, hfs, hmem⟩ := hl p hp
  by_cases hia : w.active = i
  · subst hia
    exact ⟨f s, get_edit hs f, (hfocus s).trans hfs, by unfold Session.keys; rw [hpanes]; exact hmem⟩
  · exact ⟨s, (get_edit_ne w hia f).trans hs, hfs, hmem⟩

theorem shaped_parts {f : Session → Session} (hf : ∀ s, (f s).shape = s.shape) (s : Session) :
    (f s).panes = s.panes ∧ (f s).tree = s.tree := by
  have hpanes : (f s).shape.panes = s.shape.panes := by rw [hf]
  have htree : (f s).shape.tree = s.shape.tree := by rw [hf]
  exact ⟨hpanes, htree⟩

theorem full_edit_shape {w : Window} (hf : w.Full) (i : Nat) {f : Session → Session} (hs : ∀ s, (f s).shape = s.shape)
    (hfocus : ∀ s, (f s).focusedID = s.focusedID) : (w.edit i f).Full :=
  full_edit hf (fun s => (shaped_parts hs s).1) (fun s _ h => h.of_shape (hs s) (hfocus s)) fun s _ h =>
    ⟨(shaped_parts hs s).2.trans h.1, (shaped_parts hs s).1.trans h.2⟩

/-! ## Panes that come in -/

theorem not_responder {w : Window} (hf : w.Full) {id : PaneId} (h : w.total id = 0) : w.responder ≠ some id := by
  intro hr
  have := List.count_pos_iff.mpr (hf.responder id hr)
  unfold total at h
  omega

section
variable {w : Window} (hw : w.Ok) {p : PaneView} (hone : ∀ x, w.total x + one p.id x ≤ 1) {i : Nat} {s : Session}
  (hi : w.sessions[i]? = some s) (tree : Session → SplitNode)
  (ht : ∀ x, (tree s).leaves.count x = if x = p.id then 1 else s.keys.count x)
include hw hone hi ht

theorem put_keys_once (x : PaneId) :
    (w.edit i fun s => ((s.setPane p).setTree (some (tree s))).setZoomed none).keys.count x ≤ 1 := by
  have hc := put_change hw hi p tree fun x => Nat.le_of_eq (ht x)
  have h1 := hc.total x
  have h2 := hone x
  have h3 := (shaped_focus (w.edit i fun s => ((s.setPane p).setTree (some (tree s))).setZoomed none) p.id).keys
  unfold total at h1 h2
  rw [h3] at h1
  omega

omit hw hone hi ht in
theorem put_mem (s : Session) (p : PaneView) : p.id ∈ (s.setPane p).keys := by
  rw [← List.count_pos_iff, s.count_setPane, if_pos rfl]
  exact Nat.zero_lt_one

theorem put_full (hrest : w.Rest i) (hsame : w.responder = some p.id → s.Good) :
    ((w.edit i fun s => ((s.setPane p).setTree (some (tree s))).setZoomed none).focus p.id).Full := by
  have hkeys := s.count_setPane p
  have heven : ∀ x, (((s.setPane p).setTree (some (tree s))).setZoomed none).keys.count x =
      (((s.setPane p).setTree (some (tree s))).setZoomed none).leaves.count x := fun x => (hkeys x).trans (ht x).symm
  refine full_edit_focus hi (put_keys_once hw hone hi tree ht) (put_mem s p) hrest heven fun hr => ?_
  obtain ⟨f, hf, hmem⟩ := (hsame hr).focused
  refine ⟨heven, f, hf, ?_⟩
  show f ∈ (s.setPane p).keys
  rw [← List.count_pos_iff, hkeys]
  split
  · exact Nat.zero_lt_one
  · exact List.count_pos_iff.mpr hmem

theorem put_law (ha : i = w.active) (hr : w.responder ≠ some p.id) :
    ((w.edit i fun s => ((s.setPane p).setTree (some (tree s))).setZoomed none).focus p.id).Law :=
  law_edit_focus hi (put_keys_once hw hone hi tree ht) (put_mem s p) ha fun h => absurd h hr

end

/-! ## Sessions that come in -/

theorem dropEmpty_good {w : Window} (hf : w.Full) : ∀ s ∈ w.dropEmpty.sessions, s.Good := by
  intro s hs
  have hmem := w.dropEmpty_sublist.subset hs
  obtain hgood | ⟨t, ht, he⟩ := hf.good
  · exact hgood s hmem
  · rw [ht, List.mem_singleton] at hmem
    subst hmem
    have := dropEmpty_some hs
    rw [he.1] at this
    cases this

theorem rest_push {w : Window} (hf : w.Full) (s : Session) (active : Nat) :
    ((w.dropEmpty.setSessions (w.dropEmpty.sessions ++ [s])).setActive active).Rest w.dropEmpty.sessions.length := by
  intro j t ht hj
  have ht : (w.dropEmpty.sessions ++ [s])[j]? = some t := ht
  obtain ht | ⟨hj', -⟩ := getElem?_snoc_some_iff.mp ht
  · exact dropEmpty_good hf t (List.mem_of_getElem? ht)
  · exact absurd hj' hj

section
variable {w : Window} (hw : w.Ok) (hf : w.Full)
include hw hf

theorem newSession_full {id : PaneId} (hone : ∀ x, w.total x + one id x ≤ 1) (ref : Nat) (target : NewPaneTarget) :
    (w.newSession ref id target).Full ∧ (w.newSession ref id target).Law := by
  have hpush := pushActive_change hw ref
  have h0 : w.total id = 0 := by
    have := hone id
    rw [one, if_pos rfl] at this
    omega
  have hone' : ∀ x, (w.pushActive ref).total x + one id x ≤ 1 := fun x => by
    have := hpush.total x
    have := hone x
    have h : none' x = 0 := rfl
    omega
  unfold newSession
  generalize target.seed (w.activeSession.bind Session.focusedPane) = seed
  have ht : ∀ x, ((fun _ => SplitNode.leaf id : Session → SplitNode) (Session.new ref)).leaves.count x =
      if x = id then 1 else (Session.new ref).keys.count x := fun x => SplitNode.count_leaf id x
  have hr : (w.pushActive ref).responder ≠ some id := not_responder hf h0
  exact ⟨put_full (p := ⟨id, seed.2, seed.1, 0, false⟩) hpush.ok hone' (get_pushActive w ref) (fun _ => .leaf id) ht
      (rest_push hf (Session.new ref) _) fun h => absurd h hr,
    put_law (p := ⟨id, seed.2, seed.1, 0, false⟩) hpush.ok hone' (get_pushActive w ref) (fun _ => .leaf id) ht rfl hr⟩

end

end Window

/-- The pane a restored session focuses: the saved one if it is there, else the first. -/
def SessionSnapshot.aim (saved : SessionSnapshot) : PaneId :=
  (saved.focused.filter fun id => saved.tree.leaves.contains id).getD (saved.tree.leaves.head saved.tree.leaves_ne_nil)

theorem SessionSnapshot.aim_mem (saved : SessionSnapshot) : saved.aim ∈ saved.tree.leaves := by
  unfold aim
  cases hf : saved.focused.filter fun id => saved.tree.leaves.contains id with
  | none => exact List.head_mem _
  | some id =>
    have := (Option.filter_eq_some_iff.mp hf).2
    exact List.contains_iff_mem.mp this

namespace Window

theorem rebuild_mem {s : Session} (hs : s.keys = []) (saved : SessionSnapshot) (x : PaneId) :
    x ∈ (s.rebuild saved).keys ↔ x ∈ saved.tree.leaves := by
  rw [← List.count_pos_iff, s.count_rebuild, hs]
  split
  · rename_i hx
    exact ⟨fun _ => hx, fun _ => Nat.zero_lt_one⟩
  · rename_i hx
    exact ⟨fun h => absurd h (Nat.lt_irrefl 0), fun h => absurd h hx⟩

theorem rebuild_pane? {s : Session} (hs : s.keys = []) (saved : SessionSnapshot) (x : PaneId) :
    ((s.rebuild saved).pane? x).map (fun p => p.id) = if x ∈ saved.tree.leaves then some x else none := by
  split
  · rename_i hx
    obtain ⟨p, hp⟩ := Session.pane?_of_mem ((rebuild_mem hs saved x).mpr hx)
    rw [hp, Option.map_some, Session.pane?_id hp]
  · rename_i hx
    cases hp : (s.rebuild saved).pane? x with
    | none => rfl
    | some p => exact absurd ((rebuild_mem hs saved x).mp (Session.pane?_mem hp)) hx

theorem restore_eq {w : Window} {i : Nat} {s : Session} (hi : w.sessions[i]? = some s) (hs : s.keys = [])
    (saved : SessionSnapshot) : w.restore i saved = (w.edit i fun s => s.rebuild saved).focus saved.aim := by
  have hpick : ∃ p : PaneView, ((saved.focused.bind (s.rebuild saved).pane?).or
      (saved.tree.leaves.head?.bind (s.rebuild saved).pane?)) = some p ∧ p.id = saved.aim := by
    have hhead := rebuild_pane? hs saved (saved.tree.leaves.head saved.tree.leaves_ne_nil)
    rw [if_pos (List.head_mem _)] at hhead
    obtain ⟨q, hq, hqid⟩ := Option.map_eq_some_iff.mp hhead
    have hh : saved.tree.leaves.head?.bind (s.rebuild saved).pane? = some q := by
      rw [List.head?_eq_some_head saved.tree.leaves_ne_nil, Option.bind_some, hq]
    unfold SessionSnapshot.aim
    cases hf : saved.focused with
    | none => exact ⟨q, by rw [Option.bind_none, Option.none_or, hh], hqid⟩
    | some id =>
      have hid := rebuild_pane? hs saved id
      by_cases hx : id ∈ saved.tree.leaves
      · rw [if_pos hx] at hid
        obtain ⟨p, hp, hpid⟩ := Option.map_eq_some_iff.mp hid
        refine ⟨p, by rw [Option.bind_some, hp, Option.some_or], hpid.trans ?_⟩
        rw [Option.filter_some, if_pos (List.contains_iff_mem.mpr hx), Option.getD_some]
      · rw [if_neg hx, Option.map_eq_none_iff] at hid
        refine ⟨q, by rw [Option.bind_some, hid, Option.none_or, hh], hqid.trans ?_⟩
        rw [Option.filter_some, if_neg (fun h => hx (List.contains_iff_mem.mp h)), Option.getD_none]
  obtain ⟨p, hp, hpid⟩ := hpick
  unfold restore
  simp only [get_edit hi, Option.bind_some, hp, hpid]

section
variable {w : Window} (hw : w.Ok) {i : Nat} {s : Session} (hi : w.sessions[i]? = some s) (hs : s.keys = [])
  (saved : SessionSnapshot) (hone : ∀ x, w.total x + saved.tree.leaves.count x ≤ 1)
  (hr : ∀ r ∈ saved.tree.leaves, w.responder ≠ some r)
include hw hi hs hone hr

omit hr in
theorem restore_keys_once (x : PaneId) : (w.edit i fun s => s.rebuild saved).keys.count x ≤ 1 := by
  have hle : ∀ x, saved.tree.leaves.count x ≤ 1 := fun x => Nat.le_trans (Nat.le_add_left _ _) (hone x)
  have h1 := (restore_change hw hi hs saved hle).total x
  have h2 := hone x
  have h3 := (shaped_restore w i saved).keys
  unfold total at h1 h2
  rw [h3] at h1
  omega

theorem restore_full (hrest : w.Rest i) : (w.restore i saved).Full := by
  have hle : ∀ x, saved.tree.leaves.count x ≤ 1 := fun x => Nat.le_trans (Nat.le_add_left _ _) (hone x)
  rw [restore_eq hi hs]
  exact full_edit_focus hi (restore_keys_once hw hi hs saved hone) ((rebuild_mem hs saved _).mpr saved.aim_mem) hrest
    (Session.count_rebuild_new hs hle) fun h => absurd h (hr _ saved.aim_mem)

theorem restore_law (ha : i = w.active) : (w.restore i saved).Law := by
  rw [restore_eq hi hs]
  exact law_edit_focus hi (restore_keys_once hw hi hs saved hone) ((rebuild_mem hs saved _).mpr saved.aim_mem) ha
    fun h => absurd h (hr _ saved.aim_mem)

end

section
variable {w : Window} (hw : w.Ok) (hf : w.Full)
include hw hf

theorem reopenClosedTab_full (hone : ∀ x, w.total x ≤ 1) (now ref : Nat) :
    (w.reopenClosedTab now ref).Full ∧ (w.Law → (w.reopenClosedTab now ref).Law) := by
  unfold reopenClosedTab
  split
  · rename_i rest entry hpop
    have hcount := History.count_popLast_le hpop
    have hw' : (w.setClosed rest).Ok := ⟨hw.nonempty, hw.active_lt, hw.ok, hw.empties⟩
    have hpush := pushActive_change hw' ref
    have hleaf : ∀ x, entry.snapshot.tree.leaves.count x = if x = entry.id then 1 else 0 := SplitNode.count_leaf entry.id
    have hone' : ∀ x, ((w.setClosed rest).pushActive ref).total x + entry.snapshot.tree.leaves.count x ≤ 1 := fun x => by
      have h1 := hpush.total x
      have h2 := hcount x
      have h3 := hone x
      have h4 : (w.setClosed rest).total x = w.keys.count x + rest.ids.count x := rfl
      have h5 : none' x = 0 := rfl
      unfold total at h3 h4
      rw [hleaf]
      unfold total at h1 ⊢
      omega
    have hr : ∀ r ∈ entry.snapshot.tree.leaves, ((w.setClosed rest).pushActive ref).responder ≠ some r := by
      intro r hmem h
      obtain rfl : r = entry.id := List.mem_singleton.mp hmem
      have h1 := List.count_pos_iff.mpr (hf.responder _ h)
      have h2 := hcount entry.id
      have h3 := hone entry.id
      rw [if_pos rfl] at h2
      unfold total at h3
      omega
    have hf' : (w.setClosed rest).Full := ⟨hf.good, hf.responder⟩
    exact ⟨restore_full hpush.ok (get_pushActive _ ref) rfl entry.snapshot hone' hr (rest_push hf' (Session.new ref) _),
      fun _ => restore_law hpush.ok (get_pushActive _ ref) rfl entry.snapshot hone' hr rfl⟩
  · exact ⟨⟨hf.good, hf.responder⟩, fun hl => hl⟩

theorem addRecoverySession_full (ref : Nat) {panes : List (PaneId × PaneSnapshot)}
    (hnd : (panes.map fun p => p.1).Nodup) (hone : ∀ x, w.total x + (panes.map fun p => p.1).count x ≤ 1) :
    (w.addRecoverySession ref panes).Full ∧ (w.Law → (w.addRecoverySession ref panes).Law) := by
  unfold addRecoverySession
  split
  · exact ⟨hf, fun hl => hl⟩
  · rename_i first rest hids
    rw [hids] at hnd hone
    have hpush := push_change hw ref
    have hcount := recoveryTree_count first rest hnd
    have hone' : ∀ x, (w.dropEmpty.setSessions (w.dropEmpty.sessions ++ [Session.new ref])).total x +
        (recoveryTree first rest).leaves.count x ≤ 1 := fun x => by
      have h1 := hpush.total x
      have h2 := hone x
      have h3 : none' x = 0 := rfl
      rw [hcount]
      omega
    have hr : ∀ r ∈ (recoveryTree first rest).leaves, w.responder ≠ some r := fun r hmem => by
      refine not_responder hf ?_
      have h1 := List.count_pos_iff.mpr hmem
      have h2 := hone r
      rw [hcount] at h1
      omega
    have hres := restore_change hpush.ok (get_push w ref) rfl ⟨recoveryTree first rest, panes, some first, none⟩
      fun x => Nat.le_trans (Nat.le_add_left _ _) (hone' x)
    have hfull := restore_full hpush.ok (get_push w ref) rfl ⟨recoveryTree first rest, panes, some first, none⟩ hone' hr
      (rest_push hf (Session.new ref) w.active)
    have hactive := full_focusActive (fun x => Nat.le_trans (Nat.le_add_right _ _)
      (Nat.le_trans (hres.total x) (hone' x))) hfull hres.ok.active_lt
    exact ⟨hactive.1, fun _ => hactive.2⟩

end

/-! ## Operations on a session -/

theorem full_pos {w : Window} (hf : w.Full) {i : Nat} {s : Session} (hi : w.sessions[i]? = some s) {x : PaneId}
    (hx : x ∈ s.keys) : ∀ s ∈ w.sessions, s.Good := by
  obtain hgood | ⟨t, ht, he⟩ := hf.good
  · exact hgood
  · have hmem := List.mem_of_getElem? hi
    rw [ht, List.mem_singleton] at hmem
    subst hmem
    unfold Session.keys at hx
    rw [he.2] at hx
    cases hx

theorem split_good {w : Window} (hf : w.Full) {i : Nat} {s : Session} (hi : w.sessions[i]? = some s) {id : PaneId}
    (hone : ∀ x, w.total x + one id x ≤ 1) {from' : PaneView} (hfrom : s.pane? from'.id = some from')
    {tree : SplitNode}
    (htree : s.tree = some tree) (d : SplitDirection) (before atRoot : Bool) (x : PaneId) :
    (if atRoot then tree.insertingAtRoot id d evenRatio before else tree.inserting id from'.id d evenRatio before).leaves.count x =
      if x = id then 1 else s.keys.count x := by
  have hmem := Session.pane?_mem hfrom
  have hs := full_pos hf hi hmem s (List.mem_of_getElem? hi)
  have heven : ∀ x, s.keys.count x = tree.leaves.count x := fun x => by
    rw [hs.even, Session.leaves, htree]
    rfl
  have hid : tree.leaves.count id = 0 := by
    have h1 := hone id
    have h2 := total_pos hi id
    rw [heven] at h2
    rw [one, if_pos rfl] at h1
    omega
  have hfrom1 : tree.leaves.count from'.id = 1 := by
    have h1 := hone from'.id
    have h2 := total_pos hi from'.id
    have h3 := List.count_pos_iff.mpr hmem
    rw [heven] at h2 h3
    omega
  rw [heven]
  cases atRoot with
  | true =>
    rw [if_pos rfl, SplitNode.count_insertingAtRoot]
    by_cases hx : x = id
    · subst hx
      rw [if_pos rfl, if_pos rfl, hid]
    · rw [if_neg hx, if_neg hx, Nat.add_zero]
  | false =>
    rw [if_neg (by decide), SplitNode.count_inserting, hfrom1]
    by_cases hx : x = id
    · subst hx
      rw [if_pos rfl, if_pos rfl, hid]
    · rw [if_neg hx, if_neg hx, Nat.add_zero]

/-- A split of a session that has a tree and a pane to split from. -/
theorem split_full {w : Window} (hw : w.Ok) (hf : w.Full) {id : PaneId} (hone : ∀ x, w.total x + one id x ≤ 1)
    (i : Nat)
    (source : Option PaneId) (d : SplitDirection) (before atRoot : Bool) (target : NewPaneTarget) :
    (w.split i source id d before atRoot target).Full ∧
      (w.Law → i = w.active → (w.split i source id d before atRoot target).Law) := by
  unfold split
  cases hi : w.sessions[i]? with
  | none => exact ⟨hf, fun hl _ => hl⟩
  | some s =>
    simp only
    split
    · rename_i from' tree hfrom htree
      have hfrom' : s.pane? from'.id = some from' := by
        cases source with
        | some p =>
          have := Session.pane?_id hfrom
          subst this
          exact hfrom
        | none => exact (Session.focusedPane_some hfrom).2.1
      have hgood := full_pos hf hi (Session.pane?_mem hfrom')
      have hr : w.responder ≠ some id := by
        refine not_responder hf ?_
        have := hone id
        rw [one, if_pos rfl] at this
        omega
      generalize target.seed (some from') = seed
      exact ⟨put_full (p := ⟨id, seed.2, seed.1, from'.fontDelta, false⟩) hw hone hi
          (fun _ => if atRoot then tree.insertingAtRoot id d evenRatio before else tree.inserting id from'.id d evenRatio before)
          (split_good hf hi hone hfrom' htree d before atRoot) (rest_of_good hgood i) fun h => absurd h hr,
        fun _ ha => put_law (p := ⟨id, seed.2, seed.1, from'.fontDelta, false⟩) hw hone hi
          (fun _ => if atRoot then tree.insertingAtRoot id d evenRatio before else tree.inserting id from'.id d evenRatio before)
          (split_good hf hi hone hfrom' htree d before atRoot) ha hr⟩
    · exact ⟨hf, fun hl _ => hl⟩

section
variable {w : Window} (hf : w.Full) (hone : ∀ x, w.keys.count x ≤ 1)
include hf hone

/-- A pane of session `i` gets the focus; the session may be unzoomed before. -/
theorem selectFocus_full {i : Nat} {s : Session} (hi : w.sessions[i]? = some s) {p : PaneId} (hp : p ∈ s.keys)
    {f : Session → Session} (hs : ∀ s, (f s).shape = s.shape) (hfocus : ∀ s, (f s).focusedID = s.focusedID) :
    ((w.edit i f).focus p).Full ∧ (w.Law → i = w.active → ((w.edit i f).focus p).Law) := by
  have hgood := full_pos hf hi hp
  have hpanes := (shaped_parts hs s).1
  have hp' : p ∈ (f s).keys := by
    unfold Session.keys
    rw [hpanes]
    exact hp
  have hone' : ∀ x, (w.edit i f).keys.count x ≤ 1 := fun x => by
    rw [(shaped_edit w i hs).keys]
    exact hone x
  have hgs := (hgood s (List.mem_of_getElem? hi)).of_shape (hs s) (hfocus s)
  refine ⟨full_edit_focus hi hone' hp' (rest_of_good hgood i) hgs.even fun _ => hgs, fun hl ha => ?_⟩
  refine law_edit_focus hi hone' hp' ha fun hr => ?_
  obtain ⟨t, ht, hft, -⟩ := hl p hr
  have ht : w.sessions[w.active]? = some t := ht
  rw [← ha, hi] at ht
  cases ht
  exact (hfocus s).trans hft

theorem click_full {p : PaneId} (hshown : w.shows p = true) :
    (w.focus p).Full ∧ (w.Law → (w.focus p).Law) := by
  unfold shows at hshown
  cases hs : w.activeSession with
  | none => simp [hs] at hshown
  | some s =>
    rw [hs, Option.any_some] at hshown
    have hp := Session.contains_iff.mp hshown
    have h := selectFocus_full hf hone hs hp (f := fun s => s) (fun _ => rfl) fun _ => rfl
    rw [edit_fixed hs rfl] at h
    exact ⟨h.1, fun hl => h.2 hl rfl⟩

theorem selectSession_full (i : Nat) :
    (w.selectSession i).Full ∧ (w.Law → (w.selectSession i).Law) := by
  unfold selectSession
  split
  · rename_i h
    have := full_focusActive (w := w.setActive i) hone ⟨hf.good, hf.responder⟩ h.1
    exact ⟨this.1, fun _ => this.2⟩
  · exact ⟨hf, fun hl => hl⟩

theorem reveal_full (i : Nat) (id : PaneId) :
    (w.reveal i id).Full ∧ (w.Law → i = w.active → (w.reveal i id).Law) := by
  unfold reveal
  cases hi : w.sessions[i]? with
  | none => exact ⟨hf, fun hl _ => hl⟩
  | some s =>
    simp only
    split
    · rename_i hc
      exact selectFocus_full hf hone hi (Session.contains_iff.mp hc) (fun s => s.shape_unzoomIf _)
        fun s => by unfold Session.unzoomIf; split <;> rfl
    · exact ⟨hf, fun hl _ => hl⟩

theorem focusDirection_full (target : Option PaneId) :
    (w.focusDirection target).Full ∧ (w.Law → (w.focusDirection target).Law) := by
  unfold focusDirection
  cases hs : w.activeSession with
  | none => exact ⟨hf, fun hl => hl⟩
  | some s =>
    simp only
    cases hp : target.bind s.pane? with
    | none => exact ⟨hf, fun hl => hl⟩
    | some p =>
      obtain ⟨x, -, hx⟩ := Option.bind_eq_some_iff.mp hp
      have hmem : p.id ∈ s.keys := by
        rw [Session.pane?_id hx]
        exact Session.pane?_mem hx
      have h := selectFocus_full hf hone hs hmem (f := fun s => s.setZoomed none) (fun s => s.shape_setZoomed none)
        fun _ => rfl
      exact ⟨h.1, fun hl => h.2 hl rfl⟩

end

theorem active_selectSession {w : Window} {i : Nat} (hi : i < w.sessions.length) :
    (w.selectSession i).active = i := by
  unfold selectSession
  split
  · exact (shaped_focusActive _).active
  · rename_i h
    by_cases he : i = w.active
    · exact he.symm
    · exact absurd ⟨hi, he⟩ h

theorem commitCanvas_full {w : Window} (hw : w.Ok) (hf : w.Full) (hone : ∀ x, w.total x ≤ 1) (i : Nat) (id : PaneId) :
    (w.commitCanvas i id).Full ∧ (w.Law → (w.commitCanvas i id).Law) := by
  have hk : ∀ x, w.keys.count x ≤ 1 := fun x => Nat.le_trans (Nat.le_add_right _ _) (hone x)
  unfold commitCanvas
  cases hi : w.sessions[i]? with
  | none => exact ⟨hf, fun hl => hl⟩
  | some s =>
    simp only
    split
    · have hsel := selectSession_full hf hk i
      have hch := selectSession_change hw i []
      have hk' : ∀ x, (w.selectSession i).keys.count x ≤ 1 := fun x =>
        Nat.le_trans (Nat.le_add_right _ _) (Nat.le_trans (hch.total x) (hone x))
      have hrev := reveal_full hsel.1 hk' i id
      exact ⟨hrev.1, fun hl => hrev.2 (hsel.2 hl) (active_selectSession (List.getElem?_eq_some_iff.mp hi).1).symm⟩
    · exact ⟨hf, fun hl => hl⟩

theorem toggleZoom_full {w : Window} (hf : w.Full) : w.toggleZoom.Full ∧ (w.Law → w.toggleZoom.Law) := by
  have hshape : ∀ s : Session, s.toggleZoom.shape = s.shape := fun s => by
    unfold Session.toggleZoom
    split <;> rfl
  have hfocus : ∀ s : Session, s.toggleZoom.focusedID = s.focusedID := fun s => by
    unfold Session.toggleZoom
    split
    · rfl
    · rfl
  exact ⟨full_edit_shape hf _ hshape hfocus, fun hl => law_edit hl (fun s => (shaped_parts hshape s).1) hfocus⟩

theorem moveFocused_full {w : Window} (hw : w.Ok) (hf : w.Full) (hone : ∀ x, w.total x ≤ 1) (d : FocusDirection)
    {neighbor : Option PaneId} (hn : neighbor.all w.isNeighbor = true) :
    (w.moveFocused d neighbor).Full ∧ (w.Law → (w.moveFocused d neighbor).Law) := by
  unfold moveFocused
  cases hs : w.activeSession with
  | none => exact ⟨hf, fun hl => hl⟩
  | some s =>
    simp only
    split
    · rename_i tree id htree hid
      have hcount := moved_count hw hone hs htree hid d hn
      refine ⟨full_edit hf (fun _ => rfl) (fun t ht hg => ?_) fun t ht he => ?_,
        fun hl => law_edit hl (fun _ => rfl) fun _ => rfl⟩
      · rw [show w.sessions[w.active]? = some s from hs] at ht
        cases ht
        refine hg.congr rfl (fun x => ?_) rfl
        show ((tree.moving id d neighbor).getD tree).leaves.count x = (leavesOf s.tree).count x
        rw [htree]
        exact hcount x
      · rw [show w.sessions[w.active]? = some s from hs] at ht
        cases ht
        have := he.1
        rw [htree] at this
        cases this
    · exact ⟨hf, fun hl => hl⟩

theorem resizeFocused_full {w : Window} (hf : w.Full) (d : FocusDirection) :
    (w.resizeFocused d).Full ∧ (w.Law → (w.resizeFocused d).Law) := by
  have hparts : ∀ s : Session, (s.resizeFocused d).panes = s.panes ∧ (s.resizeFocused d).focusedID = s.focusedID ∧
      (s.resizeFocused d).leaves = s.leaves ∧ (s.tree = none → s.resizeFocused d = s) := fun s => by
    by_cases h : s.resizeFocused d = s
    · rw [h]
      exact ⟨rfl, rfl, rfl, fun _ => rfl⟩
    · obtain ⟨tree, adjusted, htree, heq, hleaves⟩ := resizeFocused_cases h
      rw [heq]
      refine ⟨rfl, rfl, ?_, fun hnone => ?_⟩
      · show adjusted.leaves = leavesOf s.tree
        rw [hleaves, htree]
        rfl
      · rw [htree] at hnone
        cases hnone
  refine ⟨full_edit hf (fun s => (hparts s).1) (fun s _ hg => ?_) fun s _ he => ?_,
    fun hl => law_edit hl (fun s => (hparts s).1) fun s => (hparts s).2.1⟩
  · refine hg.congr ?_ (fun x => by rw [(hparts s).2.2.1]) (hparts s).2.1
    unfold Session.keys
    rw [(hparts s).1]
  · rw [(hparts s).2.2.2 he.1]
    exact he

end Window

end Mux.Tiling
