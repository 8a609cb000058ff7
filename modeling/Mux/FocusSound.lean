import Mux.WindowFocus

/-!
# Panes that go and panes that move

A pane that leaves a session takes its focus along. Where the pane that would be next has
the keys already the focus call does nothing and the session is left with a focus on a pane
it no longer has; in a session that is not shown the call takes the keys away from the one
that is. A pane that moves keeps the keys, so the session that adopts it is not told.
-/

namespace Mux.Tiling

open Lib

namespace Window

/-! ## Panes that go -/

/-- The session's focus is on the pane, and the pane that would be next has the keys already. -/
def stale (w : Window) (i : Nat) (id : PaneId) : Bool :=
  (w.sessions[i]?).any fun s => s.focusedID == some id &&
    (s.tree.bind fun t => t.removing id).any fun t => t.leaves.head? == w.responder

/-- The focus of a session that is not shown is on the pane, and the session keeps other panes. -/
def steals (w : Window) (i : Nat) (id : PaneId) : Bool :=
  !(i == w.active) && (w.sessions[i]?).any fun s => s.focusedID == some id &&
    (s.tree.bind fun t => t.removing id).isSome

theorem removing_head {s : Session} (hs : s.Good) {id : PaneId} {t : SplitNode}
    (ht : (s.tree.bind fun t => t.removing id) = some t) :
    (∀ x, t.leaves.count x = (s.dropPane id).keys.count x) ∧
      ∃ h, t.leaves.head? = some h ∧ h ≠ id ∧ h ∈ (s.dropPane id).keys := by
  have hcount : ∀ x, t.leaves.count x = (s.dropPane id).keys.count x := fun x => by
    obtain ⟨tree, htree, hrem⟩ := Option.bind_eq_some_iff.mp ht
    have h1 := SplitNode.count_removing id x tree
    rw [hrem, leavesOf_some] at h1
    rw [h1, s.count_dropPane, hs.even, Session.leaves, htree]
    rfl
  obtain ⟨h, hh, hmem⟩ := t.mem_head_leaves
  have hpos := List.count_pos_iff.mpr hmem
  rw [hcount] at hpos
  refine ⟨hcount, h, hh, fun he => ?_, List.count_pos_iff.mp hpos⟩
  rw [s.count_dropPane, if_pos he] at hpos
  exact absurd hpos (Nat.lt_irrefl 0)

/-- What has the keys is the focused pane of the session shown, so only another session's exit can go wrong. -/
theorem not_stale_of_law {w : Window} (hf : w.Full) (hl : w.Law) {i : Nat} {id : PaneId} (h : w.steals i id = false)
    (hid : ∀ s, w.sessions[i]? = some s → id ∈ s.keys) : w.stale i id = false := by
  unfold stale
  cases hi : w.sessions[i]? with
  | none => rfl
  | some s =>
    rw [Option.any_some, Bool.and_eq_false_iff]
    by_cases hfoc : s.focusedID = some id
    · right
      cases ht : s.tree.bind fun t => t.removing id with
      | none => rfl
      | some t =>
        have hgood := full_pos hf hi (hid s hi) s (List.mem_of_getElem? hi)
        obtain ⟨-, h', hh, hne, -⟩ := removing_head hgood ht
        rw [Option.any_some, hh, beq_eq_false_iff_ne]
        intro hr
        obtain ⟨a, ha, hfa, -⟩ := hl h' hr.symm
        by_cases hia : i = w.active
        · rw [hia, show w.sessions[w.active]? = some a from ha] at hi
          cases hi
          rw [hfoc] at hfa
          exact hne (Option.some.inj hfa).symm
        · simp [steals, hia, hi, hfoc, ht] at h
    · left
      exact beq_eq_false_iff_ne.mpr hfoc

/-- The session without the pane. -/
def trim (id : PaneId) (t : SplitNode) (s : Session) : Session :=
  ((s.dropPane id).setTree (some t)).unzoomIf (s.zoomedID == some id)

section
variable {w : Window} (hw : w.Ok) (hf : w.Full) (hone : ∀ x, w.keys.count x ≤ 1) {i : Nat} {s : Session}
  (hi : w.sessions[i]? = some s) {id : PaneId} (hid : id ∈ s.keys)
include hw hf hone hi hid

omit hw hf hid in
theorem drop_keys_once {f : Session → Session}
    (hkeys : ∀ x, (f s).keys.count x = if x = id then 0 else s.keys.count x) (x : PaneId) :
    (w.edit i f).keys.count x ≤ 1 := by
  have h1 := keys_edit hi f x
  have h2 := hone x
  rw [hkeys] at h1
  split at h1 <;> omega

omit hw hf hone hid in
/-- The other panes are still there. -/
theorem drop_mem {f : Session → Session} (hkeys : ∀ x, (f s).keys.count x = if x = id then 0 else s.keys.count x)
    {r : PaneId} (hr : r ∈ w.keys) (hne : r ≠ id) : r ∈ (w.edit i f).keys := by
  have h1 := keys_edit hi f r
  have h2 := List.count_pos_iff.mpr hr
  rw [hkeys, if_neg hne] at h1
  exact List.count_pos_iff.mp (by omega)

/-- A session without its last pane goes; the view may have left the window. -/
theorem drop_empty_full (fresh : Nat) {f : Session → Session}
    (hkeys : ∀ x, (f s).keys.count x = if x = id then 0 else s.keys.count x) (r : Option PaneId) :
    (((w.edit i f).setResponder r).sessionDidEmpty i fresh).Full ∧
      (((w.edit i f).setResponder r).sessionDidEmpty i fresh).Law := by
  have hgood := full_pos hf hi hid
  have hlen : ((w.edit i f).setResponder r).sessions.length = w.sessions.length := List.length_modify ..
  refine sessionDidEmpty_full (w := (w.edit i f).setResponder r) (drop_keys_once hone hi hkeys) fresh ?_ ?_ ?_
  · rw [hlen]
    exact (List.getElem?_eq_some_iff.mp hi).1
  · rw [hlen]
    exact hw.active_lt
  · exact (rest_of_good hgood i).edit f

omit hw hf hone in
/-- Panes are left: the next one is focused if the pane was. -/
theorem removePane_some (fresh : Nat) {t : SplitNode} (ht : (s.tree.bind fun t => t.removing id) = some t)
    (hs : s.Good) :
    w.removePane i id fresh =
      match (if s.focusedID = some id then t.leaves.head? else none) with
      | some h => ((w.removeView id).edit i (trim id t)).focus h
      | none => (w.removeView id).edit i (trim id t) := by
  have hedit : ((w.edit i fun s => (s.dropPane id).setTree (some t)).removeView id).edit i
      (fun s => s.unzoomIf (s.zoomedID == some id)) = (w.removeView id).edit i (trim id t) := by
    rw [removeView_eq, removeView_eq]
    show ({ w with
      sessions := (w.sessions.modify i _).modify i _, responder := if w.responder = some id then none else w.responder } :
        Window) = _
    rw [List.modify_modify_eq]
    rfl
  have hnext : (t.leaves.head?.bind (s.dropPane id).pane?).map (fun p => p.id) = t.leaves.head? := by
    obtain ⟨-, h, hh, -, hmem⟩ := removing_head hs ht
    obtain ⟨p, hp⟩ := Session.pane?_of_mem hmem
    rw [hh, Option.bind_some, hp, Option.map_some, Session.pane?_id hp]
  rw [removePane_eq hi hid, ht]
  show settle _ i id (if s.focusedID = some id then (t.leaves.head?.bind (s.dropPane id).pane?).map (fun p => p.id)
    else none) = _
  rw [hnext]
  cases (if s.focusedID = some id then t.leaves.head? else none) with
  | none => exact hedit
  | some h => exact congrArg (fun w => w.focus h) hedit

omit hw hone in
theorem trim_spec {t : SplitNode} (ht : (s.tree.bind fun t => t.removing id) = some t) :
    (∀ x, (trim id t s).keys.count x = if x = id then 0 else s.keys.count x) ∧
      (∀ x, (trim id t s).keys.count x = (trim id t s).leaves.count x) ∧
      (trim id t s).focusedID = s.focusedID ∧ (s.focusedID ≠ some id → (trim id t s).Good) := by
  have hs := full_pos hf hi hid s (List.mem_of_getElem? hi)
  obtain ⟨hcount, -⟩ := removing_head hs ht
  have hparts : (trim id t s).panes = (s.dropPane id).panes ∧ (trim id t s).tree = some t ∧
      (trim id t s).focusedID = s.focusedID := by
    unfold trim Session.unzoomIf
    split
    · exact ⟨rfl, rfl, rfl⟩
    · exact ⟨rfl, rfl, rfl⟩
  have hkeys : ∀ x, (trim id t s).keys.count x = if x = id then 0 else s.keys.count x := fun x => by
    rw [← s.count_dropPane id x]
    unfold Session.keys
    rw [hparts.1]
  have heven : ∀ x, (trim id t s).keys.count x = (trim id t s).leaves.count x := fun x => by
    rw [hkeys, ← s.count_dropPane, ← hcount, Session.leaves, hparts.2.1]
    rfl
  refine ⟨hkeys, heven, hparts.2.2, fun hne => ?_⟩
  obtain ⟨f, hff, hmem⟩ := hs.focused
  refine ⟨heven, f, hparts.2.2.trans hff, ?_⟩
  rw [← List.count_pos_iff, hkeys, if_neg (fun h : f = id => hne (h ▸ hff))]
  exact List.count_pos_iff.mpr hmem

theorem removePane_full (fresh : Nat) (hg : w.stale i id = false) : (w.removePane i id fresh).Full := by
  have hgood := full_pos hf hi hid
  have hs := hgood s (List.mem_of_getElem? hi)
  cases htree : s.tree.bind fun t => t.removing id with
  | none =>
    rw [removePane_eq hi hid, htree]
    simp only [removeView_eq]
    exact (drop_empty_full hw hf hone hi hid fresh (s.count_dropPane id) _).1
  | some t =>
    obtain ⟨hkeys, heven, -, hgs⟩ := trim_spec hf hi hid htree
    obtain ⟨-, h, hh, hne, hmem⟩ := removing_head hs htree
    have hget : (w.removeView id).sessions[i]? = some s := by rw [removeView_eq]; exact hi
    have honce : ∀ x, ((w.removeView id).edit i (trim id t)).keys.count x ≤ 1 := by
      rw [removeView_eq]
      exact drop_keys_once hone hi hkeys
    have hrest : (w.removeView id).Rest i := by
      rw [removeView_eq]
      exact rest_of_good hgood i
    rw [removePane_some hi hid fresh htree hs]
    by_cases hfoc : s.focusedID = some id
    · rw [if_pos hfoc, hh]
      refine full_edit_focus hget honce ?_ hrest heven fun hr => ?_
      · rw [← List.count_pos_iff, hkeys, ← s.count_dropPane]
        exact List.count_pos_iff.mpr hmem
      · -- the next pane has the keys already: excluded
        rw [removeView_eq] at hr
        have hr : (if w.responder = some id then none else w.responder) = some h := hr
        split at hr
        · cases hr
        · simp [stale, hi, hfoc, htree, hh, hr] at hg
    · rw [if_neg hfoc]
      refine ⟨.inl ((hrest.edit _).good (get_edit hget _) (hgs hfoc)), fun r hr => ?_⟩
      rw [removeView_eq] at hr ⊢
      have hr : (if w.responder = some id then none else w.responder) = some r := hr
      split at hr
      · cases hr
      · rename_i hne'
        exact drop_mem hi hkeys (hf.responder r hr) fun he => hne' (he ▸ hr)

theorem removePane_law (fresh : Nat) (hl : w.Law) (hg : w.steals i id = false) : (w.removePane i id fresh).Law := by
  have hgood := full_pos hf hi hid
  have hs := hgood s (List.mem_of_getElem? hi)
  cases htree : s.tree.bind fun t => t.removing id with
  | none =>
    rw [removePane_eq hi hid, htree]
    simp only [removeView_eq]
    exact (drop_empty_full hw hf hone hi hid fresh (s.count_dropPane id) _).2
  | some t =>
    obtain ⟨hkeys, -, hfocus, hgs⟩ := trim_spec hf hi hid htree
    obtain ⟨-, h, hh, hne, hmem⟩ := removing_head hs htree
    have hget : (w.removeView id).sessions[i]? = some s := by rw [removeView_eq]; exact hi
    have hactive : (w.removeView id).active = w.active := by rw [removeView_eq]; rfl
    have honce : ∀ x, ((w.removeView id).edit i (trim id t)).keys.count x ≤ 1 := by
      rw [removeView_eq]
      exact drop_keys_once hone hi hkeys
    have hresp : ∀ r, (w.removeView id).responder = some r → w.responder = some r ∧ r ≠ id := fun r hr => by
      rw [removeView_eq] at hr
      have hr : (if w.responder = some id then none else w.responder) = some r := hr
      split at hr
      · cases hr
      · rename_i hne'
        exact ⟨hr, fun he => hne' (he ▸ hr)⟩
    rw [removePane_some hi hid fresh htree hs]
    by_cases hfoc : s.focusedID = some id
    · rw [if_pos hfoc, hh]
      by_cases hia : i = w.active
      · refine law_edit_focus hget honce ?_ (hia.trans hactive.symm) fun hr => ?_
        · rw [← List.count_pos_iff, hkeys, ← s.count_dropPane]
          exact List.count_pos_iff.mpr hmem
        · obtain ⟨a, ha, hfa, -⟩ := hl h (hresp h hr).1
          rw [hia, show w.sessions[w.active]? = some a from ha] at hi
          cases hi
          exact hfocus.trans hfa
      · simp [steals, hia, hi, hfoc, htree] at hg
    · rw [if_neg hfoc]
      intro r hr
      obtain ⟨hr, hrne⟩ := hresp r hr
      obtain ⟨a, ha, hfa, hmem'⟩ := hl r hr
      by_cases hia : i = w.active
      · subst hia
        rw [show w.sessions[w.active]? = some a from ha] at hi
        cases hi
        refine ⟨trim id t s, ?_, hfocus.trans hfa, ?_⟩
        · unfold activeSession
          rw [show ((w.removeView id).edit w.active (trim id t)).active = w.active from hactive]
          exact get_edit hget _
        · rw [← List.count_pos_iff, hkeys, if_neg hrne]
          exact List.count_pos_iff.mpr hmem'
      · refine ⟨a, ?_, hfa, hmem'⟩
        unfold activeSession
        rw [show ((w.removeView id).edit i (trim id t)).active = w.active from hactive,
          get_edit_ne _ (Ne.symm hia), removeView_eq]
        exact ha

end

/-! ## Panes that move -/

/-- The focused pane of the session shown has the keys, and is not alone in it. -/
def carries (w : Window) : Bool :=
  w.activeSession.any fun s => decide (1 < s.panes.length) && s.focusedPane.any fun p => w.responder == some p.id

theorem removing_some {s : Session} (hs : s.Good) (hone : ∀ x, s.keys.count x ≤ 1) (hlen : 1 < s.panes.length)
    (id : PaneId) : ∃ t, (s.tree.bind fun t => t.removing id) = some t := by
  cases ht : s.tree.bind fun t => t.removing id with
  | some t => exact ⟨t, rfl⟩
  | none =>
    -- every pane would be the one that goes
    have hall : ∀ x ∈ s.keys, id = x := by
      intro x hx
      obtain ⟨tree, htree⟩ := Option.isSome_iff_exists.mp hs.tree
      have hcount := SplitNode.count_removing id x tree
      rw [htree, Option.bind_some] at ht
      rw [ht, leavesOf_none, List.count_nil] at hcount
      have hpos := List.count_pos_iff.mpr hx
      rw [hs.even, Session.leaves, htree, leavesOf_some] at hpos
      by_cases hxi : x = id
      · exact hxi.symm
      · rw [if_neg hxi] at hcount
        omega
    have h1 := List.count_eq_length.mpr hall
    have h2 := hone id
    have h3 : s.keys.length = s.panes.length := List.length_map ..
    omega

theorem length_of_removing {s : Session} (hs : s.Good) {id : PaneId} (hid : id ∈ s.keys) {t : SplitNode}
    (ht : (s.tree.bind fun t => t.removing id) = some t) : 1 < s.panes.length := by
  obtain ⟨-, h, -, hne, hmem⟩ := removing_head hs ht
  have hmem' : h ∈ s.keys := by
    have := List.count_pos_iff.mpr hmem
    rw [s.count_dropPane, if_neg hne] at this
    exact List.count_pos_iff.mp this
  have h3 : s.keys.length = s.panes.length := List.length_map ..
  rw [← h3]
  match hk : s.keys with
  | [] => rw [hk] at hid; cases hid
  | [x] =>
    rw [hk, List.mem_singleton] at hid hmem'
    exact absurd (hmem'.trans hid.symm) hne
  | x :: y :: rest => exact Nat.succ_lt_succ (Nat.succ_pos _)

/-- The session a pane was moved out of. -/
def part (id : PaneId) (t : SplitNode) (s : Session) : Session :=
  (((s.dropPane id).setTree (some t)).setFocused (if s.focusedID = some id then t.leaves.head? else s.focusedID)).unzoomIf
    (s.zoomedID == some id)

section
variable {w : Window} (hf : w.Full) {i : Nat} {s : Session} (hi : w.sessions[i]? = some s) {id : PaneId}
  (hid : id ∈ s.keys) {t : SplitNode} (ht : (s.tree.bind fun t => t.removing id) = some t)
include hf hi hid ht

omit hf in
theorem detach_some (fresh : Nat) : w.detach i id fresh = w.edit i (part id t) := by
  unfold detach
  rw [hi]
  simp only [if_pos (Session.contains_iff.mpr hid), ht]
  show ({ w with sessions := (w.sessions.modify i _).modify i _ } : Window) = _
  rw [List.modify_modify_eq]
  rfl

theorem part_good : (part id t s).Good := by
  have hs := full_pos hf hi hid s (List.mem_of_getElem? hi)
  obtain ⟨hcount, h, hh, -, hmem⟩ := removing_head hs ht
  have hparts : (part id t s).panes = (s.dropPane id).panes ∧ (part id t s).tree = some t ∧
      (part id t s).focusedID = if s.focusedID = some id then t.leaves.head? else s.focusedID := by
    unfold part Session.unzoomIf
    split
    · exact ⟨rfl, rfl, rfl⟩
    · exact ⟨rfl, rfl, rfl⟩
  have hkeys : (part id t s).keys = (s.dropPane id).keys := by
    unfold Session.keys
    rw [hparts.1]
  refine ⟨fun x => ?_, ?_⟩
  · rw [hkeys, ← hcount, Session.leaves, hparts.2.1]
    rfl
  · rw [hkeys, hparts.2.2]
    by_cases hfoc : s.focusedID = some id
    · rw [if_pos hfoc]
      exact ⟨h, hh, hmem⟩
    · rw [if_neg hfoc]
      obtain ⟨f, hff, hfm⟩ := hs.focused
      refine ⟨f, hff, ?_⟩
      rw [← List.count_pos_iff, s.count_dropPane, if_neg (fun he : f = id => hfoc (he ▸ hff))]
      exact List.count_pos_iff.mpr hfm

theorem detach_good (fresh : Nat) : ∀ s ∈ (w.detach i id fresh).sessions, s.Good := by
  rw [detach_some hi hid ht]
  exact ((rest_of_good (full_pos hf hi hid) i).edit _).good (get_edit hi _) (part_good hf hi hid ht)

end

/-- The last pane of a session: the session goes with it. -/
theorem detach_none {w : Window} (hw : w.Ok) (hf : w.Full) (hone : ∀ x, w.keys.count x ≤ 1) {i : Nat} {s : Session}
    (hi : w.sessions[i]? = some s) {id : PaneId} (hid : id ∈ s.keys)
    (ht : (s.tree.bind fun t => t.removing id) = none) (fresh : Nat) :
    (w.detach i id fresh).Full ∧ (w.detach i id fresh).Law := by
  unfold detach
  rw [hi]
  simp only [if_pos (Session.contains_iff.mpr hid), ht]
  exact drop_empty_full (f := fun s => ((s.dropPane id).setTree none).setFocused
    (if s.focusedID = some id then (leavesOf none).head? else s.focusedID)) hw hf hone hi hid fresh
    (s.count_dropPane id) w.responder

section
variable {w : Window} (hw : w.Ok) {p : PaneView} (hone : ∀ x, w.total x + one p.id x ≤ 1) {j : Nat} {s : Session}
  (hj : w.sessions[j]? = some s) (hgood : (∀ s ∈ w.sessions, s.Good) ∨ ∃ s, w.sessions = [s] ∧ s.Empty)
include hone hj hgood

/-- The pane is split off the focused one, which the tree has. -/
theorem adoptTree_eq (x : PaneId) : (s.adoptTree p.id).leaves.count x = if x = p.id then 1 else s.keys.count x := by
  have hmem := List.mem_of_getElem? hj
  obtain hgood | ⟨t, ht, he⟩ := hgood
  · have hs := hgood s hmem
    obtain ⟨tree, htree⟩ := Option.isSome_iff_exists.mp hs.tree
    obtain ⟨f, hff, hfm⟩ := hs.focused
    have heven : ∀ x, s.keys.count x = tree.leaves.count x := fun x => by
      rw [hs.even, Session.leaves, htree]
      rfl
    have hle : ∀ x, tree.leaves.count x + one p.id x ≤ 1 := fun x => by
      have h1 := total_pos hj x
      have h2 := hone x
      rw [heven] at h1
      omega
    have hf1 : tree.leaves.count f = 1 := by
      have h1 := List.count_pos_iff.mpr hfm
      have h2 := hle f
      rw [heven] at h1
      omega
    have hp0 : tree.leaves.count p.id = 0 := by
      have h1 := hle p.id
      rw [one, if_pos rfl] at h1
      omega
    unfold Session.adoptTree
    rw [htree, hff]
    simp only [Option.some_or]
    rw [SplitNode.count_inserting, hf1, heven]
    by_cases hx : x = p.id
    · rw [if_pos hx, if_pos hx, hx, hp0]
    · rw [if_neg hx, if_neg hx, Nat.add_zero]
  · rw [ht, List.mem_singleton] at hmem
    subst hmem
    unfold Session.adoptTree Session.keys
    rw [he.1, he.2]
    exact SplitNode.count_leaf p.id x

include hw

theorem adopt_full (hsame : w.responder = some p.id → s.Good) : (w.adopt j p).Full := by
  refine put_full hw hone hj (fun s => s.adoptTree p.id) (adoptTree_eq hone hj hgood) (fun k t hk hkj => ?_) hsame
  obtain hgood | ⟨u, hu, he⟩ := hgood
  · exact hgood t (List.mem_of_getElem? hk)
  · -- the only session is the one that adopts
    have h1 := (List.getElem?_eq_some_iff.mp hk).1
    have h2 := (List.getElem?_eq_some_iff.mp hj).1
    rw [hu, List.length_singleton] at h1 h2
    omega

theorem adopt_law (ha : j = w.active) (hr : w.responder ≠ some p.id) : (w.adopt j p).Law :=
  put_law hw hone hj (fun s => s.adoptTree p.id) (adoptTree_eq hone hj hgood) ha hr

end

section
variable {w : Window} (hw : w.Ok) (hf : w.Full) (hone : ∀ x, w.total x ≤ 1)
include hw hf hone

theorem movePaneToNewSession_full (fresh : Nat) (hg : w.carries = false) :
    (w.movePaneToNewSession fresh).Full ∧ (w.Law → (w.movePaneToNewSession fresh).Law) := by
  unfold movePaneToNewSession
  cases hs : w.activeSession with
  | none => exact ⟨hf, fun hl => hl⟩
  | some source =>
    cases hp : source.focusedPane with
    | none => simp only [hp]; exact ⟨hf, fun hl => hl⟩
    | some pane =>
      simp only [hp]
      split
      · rename_i hlen
        have hmem := (Session.focusedPane_some hp).2.2
        have hsource := full_pos hf hs hmem source (List.mem_of_getElem? hs)
        obtain ⟨t, ht⟩ := removing_some hsource (fun x => Nat.le_trans (total_pos hs x) (hone x)) hlen pane.id
        have hd := detach_drops hw hs hmem fresh
        have hgood := detach_good hf hs hmem ht fresh
        have hresp : (w.detach w.active pane.id fresh).responder ≠ some pane.id := by
          rw [detach_some hs hmem ht]
          intro hr
          have hr : w.responder = some pane.id := hr
          simp [carries, hs, hlen, hp, hr] at hg
        have hnew := adopt_new (w.detach w.active pane.id fresh) (fresh + 1) pane
        generalize w.detach w.active pane.id fresh = v at hd hgood hresp hnew ⊢
        have hnew' : ((v.setSessions (v.sessions ++ [Session.new (fresh + 1)])).setActive v.sessions.length).adopt
            ((v.setSessions (v.sessions ++ [Session.new (fresh + 1)])).setActive v.sessions.length).active pane = _ := hnew
        rw [hnew']
        have honce : ∀ x, ((v.setSessions (v.sessions ++ [single (fresh + 1) pane])).setActive v.sessions.length).keys.count
            x ≤ 1 := fun x => by
          have h1 := total_append v (single (fresh + 1) pane) v.sessions.length x
          have h2 := hd.total x
          have h3 := hone x
          have h4 := single_count (fresh + 1) pane x
          unfold total at h1 h2 h3
          omega
        have hget : ((v.setSessions (v.sessions ++ [single (fresh + 1) pane])).setActive v.sessions.length).sessions[
            v.sessions.length]? = some (single (fresh + 1) pane) := by
          show (v.sessions ++ [single (fresh + 1) pane])[v.sessions.length]? = _
          simp
        have hkey : pane.id ∈ (single (fresh + 1) pane).keys := by
          rw [← List.count_pos_iff, single_count, one, if_pos rfl]
          exact Nat.zero_lt_one
        refine ⟨full_focus honce hget hkey (fun x => ?_) (fun j s' hj hne => ?_) fun h => absurd h hresp,
          fun _ => law_focus honce hget hkey rfl fun h => absurd h hresp⟩
        · rw [single_count]
          exact (SplitNode.count_leaf pane.id x).symm
        · have hj : (v.sessions ++ [single (fresh + 1) pane])[j]? = some s' := hj
          obtain hj | ⟨hj, -⟩ := getElem?_snoc_some_iff.mp hj
          · exact hgood s' (List.mem_of_getElem? hj)
          · exact absurd hj hne
      · exact ⟨hf, fun hl => hl⟩

theorem movePane_full (index fresh : Nat) :
    (w.movePane index fresh).Full ∧
      (w.Law → (index < w.sessions.length → index ≠ w.active → w.carries = false) → (w.movePane index fresh).Law) := by
  unfold movePane
  split
  · exact ⟨hf, fun hl _ => hl⟩
  rename_i hne
  split
  · rename_i target source htarget hs
    cases hp : source.focusedPane with
    | none => exact ⟨hf, fun hl _ => hl⟩
    | some pane =>
      simp only
      have hmem := (Session.focusedPane_some hp).2.2
      have hsource := full_pos hf hs hmem source (List.mem_of_getElem? hs)
      have hd := detach_drops hw hs hmem fresh
      have hone' : ∀ x, (w.detach w.active pane.id fresh).total x + one pane.id x ≤ 1 := fun x =>
        Nat.le_trans (hd.total x) (hone x)
      have h0 : (w.detach w.active pane.id fresh).total pane.id = 0 := by
        have := hone' pane.id
        rw [one, if_pos rfl] at this
        omega
      cases ht : source.tree.bind fun t => t.removing pane.id with
      | none =>
        -- the source goes, another session gets the keys, and the pane takes them back
        obtain ⟨hfull, hlaw⟩ := detach_none hw hf (fun x => Nat.le_trans (Nat.le_add_right _ _) (hone x)) hs hmem ht
          fresh
        have hr := not_responder hfull h0
        generalize w.detach w.active pane.id fresh = v at hd hone' hfull hlaw hr ⊢
        cases hj : v.sessions.findIdx? fun s => s.ref == target.ref with
        | none => exact ⟨hfull, fun _ _ => hlaw⟩
        | some j =>
          have hlt := (List.findIdx?_eq_some_iff_getElem.mp hj).1
          have hget : (v.setActive j).sessions[j]? = some v.sessions[j] := List.getElem?_eq_getElem hlt
          exact ⟨adopt_full (setActive_ok hd.ok hlt) hone' hget hfull.good fun h => absurd h hr,
            fun _ _ => adopt_law (setActive_ok hd.ok hlt) hone' hget hfull.good rfl hr⟩
      | some t =>
        have hgood := detach_good hf hs hmem ht fresh
        have hlen := length_of_removing hsource hmem ht
        have hsome := detach_some hs hmem ht fresh
        have hresp : (w.detach w.active pane.id fresh).responder = w.responder := by rw [hsome]; rfl
        have hrefs : (w.detach w.active pane.id fresh).refs = w.refs := by
          rw [hsome]
          refine refs_edit w _ fun s => ?_
          unfold part Session.unzoomIf
          split <;> rfl
        generalize w.detach w.active pane.id fresh = v at hd hone' hgood hresp hrefs ⊢
        cases hj : v.sessions.findIdx? fun s => s.ref == target.ref with
        | none =>
          -- the target is still there
          have hin : target.ref ∈ v.refs := by
            rw [hrefs]
            exact List.mem_map_of_mem (List.mem_of_getElem? htarget)
          obtain ⟨s', hs', hr'⟩ := List.mem_map.mp hin
          have := List.findIdx?_eq_none_iff.mp hj s' hs'
          rw [hr', beq_self_eq_true] at this
          cases this
        | some j =>
          have hlt := (List.findIdx?_eq_some_iff_getElem.mp hj).1
          have hget : (v.setActive j).sessions[j]? = some v.sessions[j] := List.getElem?_eq_getElem hlt
          refine ⟨adopt_full (setActive_ok hd.ok hlt) hone' hget (.inl hgood) fun _ => hgood _ (List.getElem_mem hlt),
            fun _ hg => adopt_law (setActive_ok hd.ok hlt) hone' hget (.inl hgood) rfl ?_⟩
          intro hr
          have hr : v.responder = some pane.id := hr
          rw [hresp] at hr
          have := hg (List.getElem?_eq_some_iff.mp htarget).1 hne
          simp [carries, hs, hlen, hp, hr] at this
  · exact ⟨hf, fun hl _ => hl⟩

end

/-! ## Every operation of a window -/

/-- The pane an operation takes out, and its session. -/
def takenOut (w : Window) : Act → Option (Nat × PaneId)
  | .killFocusedPane => (w.activeSession.bind Session.focusedPane).map fun p => (w.active, p.id)
  | .paneExited id => (w.owner id).map fun i => (i, id)
  | _ => none

/-- The panes that are left keep a focus of their own. -/
def keepsLayout (w : Window) (act : Act) : Bool :=
  ((w.takenOut act).all fun t => !w.stale t.1 t.2) &&
    match act with
    | .movePaneToNewSession => !w.carries
    | _ => true

/-- The keys do not leave the session that is shown, and a pane that has them does not leave its focus behind. -/
def keepsKeys (w : Window) (act : Act) : Bool :=
  ((w.takenOut act).all fun t => !w.steals t.1 t.2) &&
    match act with
    | .movePaneToNewSession => !w.carries
    | .movePane index => !(decide (index < w.sessions.length) && !(index == w.active) && w.carries)
    | _ => true

theorem owner_some {w : Window} {id : PaneId} {i : Nat} (h : w.owner id = some i) :
    ∃ s, w.sessions[i]? = some s ∧ id ∈ s.keys := by
  obtain ⟨hlt, hc, -⟩ := List.findIdx?_eq_some_iff_getElem.mp h
  exact ⟨w.sessions[i], List.getElem?_eq_getElem hlt, Session.contains_iff.mp hc⟩

/-- What is taken out is a pane of the session. -/
theorem takenOut_some {w : Window} {act : Act} {i : Nat} {id : PaneId} (h : w.takenOut act = some (i, id)) :
    ∃ s, w.sessions[i]? = some s ∧ id ∈ s.keys := by
  cases act with
  | killFocusedPane =>
    obtain ⟨p, hp, heq⟩ := Option.map_eq_some_iff.mp h
    cases heq
    obtain ⟨s, hs, hfp⟩ := Option.bind_eq_some_iff.mp hp
    exact ⟨s, hs, (Session.focusedPane_some hfp).2.2⟩
  | paneExited x =>
    obtain ⟨j, hj, heq⟩ := Option.map_eq_some_iff.mp h
    cases heq
    exact owner_some hj
  | _ => cases h

theorem keepsLayout_of_law {w : Window} (hf : w.Full) (hl : w.Law) {act : Act} (h : w.keepsKeys act = true) :
    w.keepsLayout act = true := by
  unfold keepsKeys at h
  unfold keepsLayout
  rw [Bool.and_eq_true] at h ⊢
  refine ⟨?_, ?_⟩
  · cases ht : w.takenOut act with
    | none => rfl
    | some t =>
      obtain ⟨i, id⟩ := t
      obtain ⟨s, hs, hid⟩ := takenOut_some ht
      have h1 := h.1
      rw [ht, Option.all_some, Bool.not_eq_true'] at h1
      rw [Option.all_some, Bool.not_eq_true']
      refine not_stale_of_law hf hl h1 fun s' hs' => ?_
      rw [hs] at hs'
      cases hs'
      exact hid
  · have h2 := h.2
    cases act with
    | movePaneToNewSession => exact h2
    | _ => rfl

/-- A pane goes, or there is none to go. -/
theorem act_takenOut (w : Window) {act : Act}
    (hact : act = .killFocusedPane ∨ ∃ id, act = .paneExited id) (fresh : Nat) :
    (∃ i id, w.takenOut act = some (i, id) ∧ w.act fresh act = w.removePane i id fresh) ∨
      w.act fresh act = w := by
  obtain rfl | ⟨id, rfl⟩ := hact
  · unfold act killFocusedPane takenOut
    cases w.activeSession.bind Session.focusedPane with
    | none => exact .inr rfl
    | some p => exact .inl ⟨w.active, p.id, rfl, rfl⟩
  · show (∃ i x, (w.owner id).map (fun i => (i, id)) = some (i, x) ∧
      w.removePane ((w.owner id).getD w.active) id fresh = w.removePane i x fresh) ∨
        w.removePane ((w.owner id).getD w.active) id fresh = w
    cases ho : w.owner id with
    | some i => exact .inl ⟨i, id, rfl, rfl⟩
    | none =>
      right
      rw [Option.getD_none]
      unfold removePane
      cases hs : w.sessions[w.active]? with
      | none => rfl
      | some s =>
        have := List.findIdx?_eq_none_iff.mp ho s (List.mem_of_getElem? hs)
        simp only [this, Bool.false_eq_true, if_false]

section
variable {a : App} {w : Window} (hw : w.Ok) (hf : w.Full) {act : Act} (hone : ∀ x, w.total x + added act x ≤ 1)
  (fresh : Nat) (hlegal : a.legalAct w act = true)
include hw hf hone hlegal

theorem act_full (hg : w.keepsLayout act = true) : (w.act fresh act).Full := by
  have hle : ∀ x, w.total x ≤ 1 := fun x => Nat.le_trans (Nat.le_add_right _ _) (hone x)
  have hk : ∀ x, w.keys.count x ≤ 1 := fun x => Nat.le_trans (Nat.le_add_right _ _) (hle x)
  have hremove : (act = .killFocusedPane ∨ ∃ id, act = .paneExited id) → (w.act fresh act).Full := fun hact => by
    obtain ⟨i, id, ht, heq⟩ | heq := act_takenOut w hact fresh
    · obtain ⟨s, hs, hid⟩ := takenOut_some ht
      unfold keepsLayout at hg
      rw [ht, Option.all_some, Bool.and_eq_true, Bool.not_eq_true'] at hg
      rw [heq]
      exact removePane_full hw hf hk hs hid fresh hg.1
    · rw [heq]
      exact hf
  cases act with
  | newSession id target => exact (newSession_full hw hf hone fresh target).1
  | split source id d before atRoot target =>
    unfold Window.act
    cases source with
    | none => exact (split_full hw hf hone _ none d before atRoot target).1
    | some p =>
      simp only
      cases w.owner p with
      | none => exact hf
      | some i => exact (split_full hw hf hone i (some p) d before atRoot target).1
  | moveFocused d n => exact (moveFocused_full hw hf hle d hlegal).1
  | toggleZoom => exact (toggleZoom_full hf).1
  | resizeFocused d => exact (resizeFocused_full hf d).1
  | focusDirection target => exact (focusDirection_full hf hk target).1
  | click id => exact (click_full hf hk hlegal).1
  | commitCanvas i id => exact (commitCanvas_full hw hf hle i id).1
  | selectSession i => exact (selectSession_full hf hk i).1
  | movePaneToNewSession =>
    simp only [keepsLayout, takenOut, Option.all_none, Bool.true_and, Bool.not_eq_true'] at hg
    exact (movePaneToNewSession_full hw hf hle fresh hg).1
  | movePane i => exact (movePane_full hw hf hle i fresh).1
  | killFocusedPane => exact hremove (.inl rfl)
  | paneExited id => exact hremove (.inr ⟨id, rfl⟩)
  | reopenClosedTab now => exact (reopenClosedTab_full hw hf hle now fresh).1
  | becomeKey => exact (full_focusActive hk hf hw.active_lt).1

theorem act_law (hl : w.Law) (hg : w.keepsKeys act = true) : (w.act fresh act).Law := by
  have hle : ∀ x, w.total x ≤ 1 := fun x => Nat.le_trans (Nat.le_add_right _ _) (hone x)
  have hk : ∀ x, w.keys.count x ≤ 1 := fun x => Nat.le_trans (Nat.le_add_right _ _) (hle x)
  have hremove : (act = .killFocusedPane ∨ ∃ id, act = .paneExited id) → (w.act fresh act).Law := fun hact => by
    obtain ⟨i, id, ht, heq⟩ | heq := act_takenOut w hact fresh
    · obtain ⟨s, hs, hid⟩ := takenOut_some ht
      unfold keepsKeys at hg
      rw [ht, Option.all_some, Bool.and_eq_true, Bool.not_eq_true'] at hg
      rw [heq]
      exact removePane_law hw hf hk hs hid fresh hl hg.1
    · rw [heq]
      exact hl
  cases act with
  | newSession id target => exact (newSession_full hw hf hone fresh target).2
  | split source id d before atRoot target =>
    unfold Window.act
    cases source with
    | none => exact (split_full hw hf hone _ none d before atRoot target).2 hl rfl
    | some p =>
      simp only
      cases ho : w.owner p with
      | none => exact hl
      | some i =>
        -- the pane it is split from is shown, or has the keys
        refine (split_full hw hf hone i (some p) d before atRoot target).2 hl ?_
        simp only [App.legalAct, Option.all_some, Bool.and_eq_true, Bool.or_eq_true, beq_iff_eq] at hlegal
        have hactive : w.owner p = some w.active := by
          obtain hshown | hr := hlegal.2
          · unfold shows at hshown
            obtain ⟨s, hs, hc⟩ := (Option.any_eq_true _ _).mp hshown
            exact owner_eq hk hs (Session.contains_iff.mp hc)
          · obtain ⟨s, hs, -, hmem⟩ := hl p hr
            exact owner_eq hk hs hmem
        rw [ho] at hactive
        exact Option.some.inj hactive
  | moveFocused d n => exact (moveFocused_full hw hf hle d hlegal).2 hl
  | toggleZoom => exact (toggleZoom_full hf).2 hl
  | resizeFocused d => exact (resizeFocused_full hf d).2 hl
  | focusDirection target => exact (focusDirection_full hf hk target).2 hl
  | click id => exact (click_full hf hk hlegal).2 hl
  | commitCanvas i id => exact (commitCanvas_full hw hf hle i id).2 hl
  | selectSession i => exact (selectSession_full hf hk i).2 hl
  | movePaneToNewSession =>
    simp only [keepsKeys, takenOut, Option.all_none, Bool.true_and, Bool.not_eq_true'] at hg
    exact (movePaneToNewSession_full hw hf hle fresh hg).2 hl
  | movePane i =>
    refine (movePane_full hw hf hle i fresh).2 hl fun hlt hne => ?_
    simp only [keepsKeys, takenOut, Option.all_none, Bool.true_and, Bool.not_eq_true', Bool.and_eq_false_iff,
      decide_eq_false_iff_not] at hg
    obtain (hg | hg) | hg := hg
    · exact absurd hlt hg
    · simp [hne] at hg
    · exact hg
  | killFocusedPane => exact hremove (.inl rfl)
  | paneExited id => exact hremove (.inr ⟨id, rfl⟩)
  | reopenClosedTab now => exact (reopenClosedTab_full hw hf hle now fresh).2 hl
  | becomeKey => exact (full_focusActive hk hf hw.active_lt).2

end

end Window

end Mux.Tiling
