import Mux.RetentionLemmas

/-!
# Histories along the operations of the app

What each operation does to the histories: most leave them as they are or move them with
their window, a reopen and an exit take entries out, the reply to a close records its pane,
and a restart has what was saved.
-/

namespace Mux.Tiling

open Lib

namespace App

/-! ## Histories along the operations of the app -/

/-- What an operation may take out of the histories. -/
def lostBy (a : App) : Op → Key → Prop
  | .window k (.reopenClosedTab now), key =>
    key.2.2 ≤ now ∨ ∃ w e, a.windows[k]? = some w ∧ (w.closedPanes.popLast now).2 = some e ∧ e.key = key
  | .exitEvent id host, key => key.1 = id ∧ key.2.1 = host
  | _, _ => False

theorem popLast_follows {a : App} {k : Nat} {w : Window} (hk : a.windows[k]? = some w) (now : Nat) :
    Follows (a.lostBy (.window k (.reopenClosedTab now))) w.tag (w.id, (w.closedPanes.popLast now).1) := by
  refine ⟨rfl, History.keys_sublist (History.popLast_sublist _ _), fun key hkey hl => ?_⟩
  obtain ⟨e, he, rfl⟩ := History.mem_keys.mp hkey
  refine History.mem_keys.mpr ⟨e, History.mem_popLast he ?_ fun hpop => ?_, rfl⟩
  · exact Nat.not_le.mp fun hle => hl (.inl hle)
  · exact hl (.inr ⟨w, e, hk, hpop, rfl⟩)

theorem remove_follows (a : App) (n : Nat) (h : History) (id : PaneId) (host : Option String) :
    Follows (a.lostBy (.exitEvent id host)) (n, h) (n, h.remove id host) := by
  refine ⟨rfl, History.keys_sublist List.filter_sublist, fun key hkey hl => ?_⟩
  obtain ⟨e, he, rfl⟩ := History.mem_keys.mp hkey
  exact History.mem_keys.mpr ⟨e, History.mem_remove.mpr ⟨he, hl⟩, rfl⟩

theorem parked_remove (w : WindowSnapshot) (id : PaneId) (host : Option String) :
    WindowSnapshot.tag { w with closedPanes := w.closedPanes.map fun h => History.remove h id host } =
      (w.id, History.remove (w.closedPanes.getD []) id host) := by
  unfold WindowSnapshot.tag
  cases w.closedPanes <;> rfl

theorem exitEvent_follows (a : App) (id : PaneId) (host : Option String) :
    List.Forall₂ (Follows (a.lostBy (.exitEvent id host))) a.histories (a.exitEvent id host).histories := by
  refine List.rel_append ?_ ?_
  · show List.Forall₂ _ (a.windows.map Window.tag) ((a.windows.map _).map Window.tag)
    rw [List.map_map, List.forall₂_map_left_iff, List.forall₂_map_right_iff]
    exact List.forall₂_same.mpr fun w _ => a.remove_follows w.id w.closedPanes id host
  · show List.Forall₂ _ (a.closedWindows.map WindowSnapshot.tag) ((a.closedWindows.map _).map WindowSnapshot.tag)
    rw [List.map_map, List.forall₂_map_left_iff, List.forall₂_map_right_iff]
    refine List.forall₂_same.mpr fun w _ => ?_
    show Follows _ w.tag (WindowSnapshot.tag _)
    rw [parked_remove]
    exact a.remove_follows w.id (w.closedPanes.getD []) id host

theorem newWindow_histories (a : App) (source : Nat) (id : PaneId) :
    (a.newWindow source id).histories.Perm ((a.nextRef, []) :: a.histories) := by
  have heq : (a.newWindow source id).histories =
      a.windows.map Window.tag ++ [(a.nextRef, [])] ++ a.closedWindows.map WindowSnapshot.tag := by
    show (a.windows ++ [_]).map Window.tag ++ _ = _
    rw [List.map_append, List.map_singleton, Window.tag_addInitialPane]
    rfl
  rw [heq, List.append_assoc, List.singleton_append]
  exact List.perm_middle

theorem tag_without (w : Window) : (without w).tag = w.tag := by
  simp [without]

theorem moveSession_histories (a : App) (k : Nat) : (a.moveSessionToNewWindow k).histories = a.histories ∨
    (a.moveSessionToNewWindow k).histories.Perm ((a.nextRef, []) :: a.histories) := by
  unfold moveSessionToNewWindow
  split
  · exact .inl rfl
  split
  · exact .inl rfl
  split
  · right
    have heq := a.histories_onWindow k tag_without
    generalize hb : a.onWindow k without = b at heq
    rw [← heq]
    show ((b.windows ++ [_]).map Window.tag ++ b.closedWindows.map WindowSnapshot.tag).Perm _
    rw [List.map_append, List.map_singleton, Window.tag_focusActive, List.append_assoc, List.singleton_append]
    exact List.perm_middle
  · exact .inl rfl

theorem closeWindow_histories (a : App) (k : Nat) : (a.closeWindow k).histories.Perm a.histories := by
  unfold closeWindow
  cases hk : a.windows[k]? with
  | none => exact List.Perm.refl _
  | some w =>
    obtain ⟨hlt, hget⟩ := List.getElem?_eq_some_iff.mp hk
    show ((a.windows.eraseIdx k).map Window.tag ++ (a.closedWindows ++ [w.snapshot]).map WindowSnapshot.tag).Perm _
    have hsnap : WindowSnapshot.tag w.snapshot = w.tag := rfl
    have hperm : (w :: a.windows.eraseIdx k).Perm a.windows := hget ▸ List.getElem_cons_eraseIdx_perm hlt
    rw [List.map_append, List.map_singleton, hsnap, ← List.append_assoc]
    refine List.perm_append_comm.trans ?_
    exact (hperm.map Window.tag).append_right (a.closedWindows.map WindowSnapshot.tag)

theorem closePane_histories (a : App) (k : Nat) (id : PaneId) : (a.closePane k id).histories = a.histories := by
  obtain h | ⟨i, q, h⟩ := a.closePane_cases k id
  · rw [h]
  · rw [h]
    exact a.histories_onWindow k fun _ => rfl

/-! ## The reply to a close -/

theorem pane?_edit (w : Window) (i : Nat) {f : Session → Session} (hf : ∀ s, (f s).panes = s.panes) (id : PaneId) :
    (w.edit i f).pane? id = w.pane? id := by
  unfold Window.pane?
  rw [owner_edit w i hf]
  congr 1
  funext j
  show ((w.sessions.modify i f)[j]?).bind _ = _
  rw [List.getElem?_modify]
  cases w.sessions[j]? with
  | none => rfl
  | some s =>
    have hp : ∀ t : Session, t.panes = s.panes → t.pane? id = s.pane? id := fun t ht => by
      unfold Session.pane?
      rw [ht]
    show Session.pane? (if i = j then f s else s) id = s.pane? id
    split
    · exact hp _ (hf s)
    · rfl

theorem closed_tag (w : Window) (id : PaneId) (d fresh : Nat) : (closed w id d fresh).tag =
    match w.pane? id with
    | some p => (w.id, w.closedPanes.record id ⟨p.pwd, p.target, some p.fontDelta, none⟩ d)
    | none => w.tag := by
  unfold closed Window.pane?
  cases w.owner id with
  | none => rfl
  | some i =>
    simp only [Option.bind_some]
    cases (w.sessions[i]?).bind fun s => s.pane? id with
    | none => rfl
    | some p => exact Window.tag_removePane _ _ _ _

theorem pane?_isSome {w : Window} {id : PaneId} (h : id ∈ w.keys) : ∃ p, w.pane? id = some p := by
  obtain ⟨s, hs, hid⟩ := List.mem_flatMap.mp h
  cases ho : w.owner id with
  | none =>
    have := List.findIdx?_eq_none_iff.mp ho s hs
    rw [Session.contains_iff.mpr hid] at this
    cases this
  | some i =>
    obtain ⟨t, ht, hidt⟩ := Window.owner_some ho
    obtain ⟨p, hp⟩ := Session.pane?_of_mem hidt
    refine ⟨p, ?_⟩
    unfold Window.pane?
    rw [ho, Option.bind_some, ht, Option.bind_some, hp]

theorem pane?_mem {w : Window} {id : PaneId} {p : PaneView} (h : w.pane? id = some p) : id ∈ w.keys := by
  obtain ⟨i, ho, -⟩ := Option.bind_eq_some_iff.mp h
  obtain ⟨s, hs, hid⟩ := Window.owner_some ho
  exact List.mem_flatMap.mpr ⟨s, List.mem_of_getElem? hs, hid⟩

theorem reaches_iff {a : App} {q : Request} : a.reaches q = true ↔ q.alive = true ∧
    ∃ k i w, q.session.bind a.find = some (k, i) ∧ a.windows[k]? = some w ∧ q.pane ∈ w.keys := by
  unfold reaches
  rw [Bool.and_eq_true, Option.any_eq_true]
  refine and_congr_right fun _ => ⟨?_, ?_⟩
  · rintro ⟨⟨k, i⟩, hf, hw⟩
    obtain ⟨w, hw, hmem⟩ := (Option.any_eq_true ..).mp hw
    exact ⟨k, i, w, hf, hw, List.contains_iff_mem.mp hmem⟩
  · rintro ⟨k, i, w, hf, hw, hmem⟩
    exact ⟨(k, i), hf, (Option.any_eq_true ..).mpr ⟨w, hw, List.contains_iff_mem.mpr hmem⟩⟩

/-- The window a live request is about. -/
theorem asked_eq {a : App} (ha : a.Inv) {q : Request} (halive : q.alive = true) {k : Nat} {w : Window} {p : PaneView}
    (hk : a.windows[k]? = some w) (hp : w.pane? q.pane = some p) : a.asked q = some (w.id, daemonOf p.target) := by
  have hmem := pane?_mem hp
  unfold asked
  rw [if_pos halive]
  cases hf : a.windows.find? fun w => w.keys.contains q.pane with
  | none =>
    have := List.find?_eq_none.mp hf w (List.mem_of_getElem? hk)
    exact absurd (List.contains_iff_mem.mpr hmem) this
  | some v =>
    have hc := List.find?_some hf
    have hv : q.pane ∈ v.keys := List.contains_iff_mem.mp hc
    obtain ⟨j, hj⟩ := List.getElem?_of_mem (List.mem_of_find?_eq_some hf)
    have := flatMap_apart Window.keys q.pane hk hj (ha.keys_once q.pane) hmem hv
    subst this
    rw [hk] at hj
    cases hj
    rw [Option.bind_some, hp]
    rfl

/-- The completion of a close that finds no pane leaves the histories as they are; the other one
records its pane. -/
theorem reply_cases {a : App} (ha : a.Inv) (n d : Nat) :
    ((a.reply n (some d)).histories = a.histories ∧ ∀ q, a.requests[n]? = some q → a.reaches q = false) ∨
    ∃ q k w p, a.requests[n]? = some q ∧ a.windows[k]? = some w ∧ w.pane? q.pane = some p ∧
      a.asked q = some (w.id, daemonOf p.target) ∧ (a.reply n (some d)).histories = (a.onWindow k fun w =>
        w.setClosed (w.closedPanes.record q.pane ⟨p.pwd, p.target, some p.fontDelta, none⟩ d)).histories := by
  cases hq : a.requests[n]? with
  | none =>
    refine .inl ⟨?_, fun q hq' => by cases hq'⟩
    unfold App.reply
    rw [hq]
  | some q =>
    by_cases hr : a.reaches q = true
    · obtain ⟨halive, k, i, w, hfind, hk, hmem⟩ := reaches_iff.mp hr
      obtain ⟨p, hp⟩ := pane?_isSome hmem
      have hwin : (a.reply n (some d)).windows =
          a.windows.modify k fun w => closed (w.edit i (Session.answer q.pane)) q.pane d a.nextRef :=
        reply_found hq hfind halive (some d)
      refine .inr ⟨q, k, w, p, rfl, hk, hp, asked_eq ha halive hk hp, ?_⟩
      have hclosed := reply_parked a n (some d)
      unfold histories
      rw [hwin, hclosed]
      congr 1
      refine map_modify_congr hk ?_
      rw [closed_tag, pane?_edit w i (f := Session.answer q.pane) (fun _ => rfl), hp]
      rfl
    · refine .inl ⟨?_, fun q' hq' => ?_⟩
      · obtain h | ⟨q', k, i, hq', hfind, halive, h⟩ := reply_windows a n (some d)
        · unfold histories
          rw [h, reply_parked]
        · rw [hq] at hq'
          cases hq'
          unfold histories
          rw [h, reply_parked]
          congr 1
          cases hk : a.windows[k]? with
          | none => rw [List.modify_eq_self (List.getElem?_eq_none_iff.mp hk)]
          | some w =>
            have hnone : w.pane? q.pane = none := by
              cases hp : w.pane? q.pane with
              | none => rfl
              | some p => exact absurd (reaches_iff.mpr ⟨halive, k, i, w, hfind, hk, pane?_mem hp⟩) hr
            refine (map_modify_congr (e := fun w => w) hk ?_).trans (map_modify_of_eq (fun _ => rfl) k a.windows)
            rw [closed_tag, pane?_edit w i (f := Session.answer q.pane) (fun _ => rfl), hnone]
            rfl
      · cases hq'
        exact Bool.eq_false_iff.mpr hr

theorem reply_nextRef (a : App) (n : Nat) (expiresAt : Option Nat) : (a.reply n expiresAt).nextRef = a.nextRef := by
  unfold App.reply
  split
  · rfl
  simp only
  split
  · rfl
  split
  · cases expiresAt <;> rfl
  · rfl

/-! ## One operation -/

/-- Every operation but a reply and a launch. -/
theorem apply_carries {a : App} (hn : a.Named) (op : Op) (hreply : ∀ n d, op ≠ .reply n (some d))
    (hlaunch : ∀ saved, op ≠ .launch saved) :
    Carries (a.lostBy op) a.histories (a.apply op).histories ∧ (a.apply op).Named := by
  -- most operations leave the histories as they are
  have hsame : ∀ b : App, b.histories = a.histories → a.nextRef ≤ b.nextRef →
      Carries (a.lostBy op) a.histories b.histories ∧ b.Named := fun b hb hle =>
    ⟨.of_perm (.of_eq hb), hn.perm (.of_eq hb) hle⟩
  cases op with
  | window k act =>
    by_cases hact : ∃ now, act = .reopenClosedTab now
    · obtain ⟨now, rfl⟩ := hact
      have hf : List.Forall₂ (Follows (a.lostBy (.window k (.reopenClosedTab now)))) a.histories
          (a.apply (.window k (.reopenClosedTab now))).histories := by
        refine List.rel_append ?_ (List.forall₂_same.mpr fun p _ => Follows.refl _ p)
        show List.Forall₂ _ (a.windows.map Window.tag) ((a.windows.modify k _).map Window.tag)
        rw [List.forall₂_map_left_iff, List.forall₂_map_right_iff]
        refine forall₂_modify (fun w => Follows.refl _ w.tag) fun w hk => ?_
        show Follows _ w.tag (w.reopenClosedTab now a.nextRef).tag
        rw [Window.tag_reopenClosedTab]
        exact popLast_follows hk now
      obtain ⟨hc, hnames⟩ := Carries.of_follows hf
      exact ⟨hc, hn.same hnames (Nat.le_add_right _ _)⟩
    · refine hsame _ (a.histories_onWindow k fun w => w.tag_act a.nextRef fun now hnow => ?_) (Nat.le_add_right _ _)
      exact hact ⟨now, hnow⟩
  | newWindow source id =>
    have hp := a.newWindow_histories source id
    exact ⟨.of_new hp, hn.new hp (Nat.lt_succ_self _)⟩
  | moveSessionToNewWindow k =>
    have href : (a.moveSessionToNewWindow k).nextRef = a.nextRef := by
      unfold moveSessionToNewWindow
      repeat' split
      all_goals rfl
    have hlt : a.nextRef < (a.moveSessionToNewWindow k).nextRef + 1 := href ▸ Nat.lt_succ_self _
    obtain h | h := a.moveSession_histories k
    · exact hsame _ h (Nat.le_of_lt hlt)
    · exact ⟨.of_new h, hn.new h hlt⟩
  | closeWindow k =>
    have hp := a.closeWindow_histories k
    refine ⟨.of_perm hp, hn.perm hp ?_⟩
    show a.nextRef ≤ (a.closeWindow k).nextRef
    unfold App.closeWindow
    split <;> exact Nat.le_refl _
  | closePane k id =>
    refine hsame _ (a.closePane_histories k id) ?_
    show a.nextRef ≤ (a.closePane k id).nextRef
    obtain h | ⟨i, q, h⟩ := a.closePane_cases k id <;> rw [h]
    exact Nat.le_refl _
  | reply n expiresAt =>
    cases expiresAt with
    | some d => exact absurd rfl (hreply n d)
    | none =>
      have hparked := reply_parked a n none
      refine hsame _ ?_ (reply_nextRef a n none ▸ Nat.le_succ _)
      show (a.reply n none).histories = _
      unfold histories
      obtain h | ⟨q, k, i, -, -, -, h⟩ := reply_windows a n none
      · rw [h, hparked]
      · rw [h, hparked]
        exact a.histories_onWindow k (f := fun w => w.edit i (Session.answer q.pane)) fun w => w.tag_edit i _
  | addRecoverySession panes =>
    exact hsame _ (a.histories_onWindow 0 fun w => w.tag_addRecoverySession a.nextRef panes) (Nat.le_succ _)
  | exitEvent id host =>
    obtain ⟨hc, hnames⟩ := Carries.of_follows (a.exitEvent_follows id host)
    exact ⟨hc, hn.same hnames (Nat.le_refl _)⟩
  | launch saved => exact absurd rfl (hlaunch saved)

/-! ## Starting -/

theorem launch_histories (a : App) (saved : List WindowSnapshot) :
    (a.launch saved).histories = saved.map fun w => (w.id, History.ofEntries (w.closedPanes.getD [])) := by
  have hmade : ∀ (ws : List WindowSnapshot) (ref : Nat), (launchWindows ref ws).1.map Window.tag =
      ws.map fun w => (w.id, History.ofEntries (w.closedPanes.getD [])) := by
    intro ws
    induction ws with
    | nil => intro ref; rfl
    | cons w ws ih =>
      intro ref
      rw [launchWindows, List.map_cons, List.map_cons, ih, launchWindow, Window.tag_restoreSessions]
      rfl
  show (launchWindows a.nextRef saved).1.map Window.tag ++ [] = _
  rw [List.append_nil, hmade]

theorem le_nextRef_launch (a : App) (saved : List WindowSnapshot) : a.nextRef ≤ (a.launch saved).nextRef := by
  have hle : ∀ (ws : List WindowSnapshot) (ref : Nat), ref ≤ (launchWindows ref ws).2 := by
    intro ws
    induction ws with
    | nil => intro ref; exact Nat.le_refl _
    | cons w ws ih =>
      intro ref
      have := ih (ref + 1 + w.sessions.length)
      rw [launchWindows]
      omega
  exact hle saved a.nextRef

theorem saved_tags (a : App) : a.saved.map WindowSnapshot.tag = a.histories := by
  unfold saved histories
  rw [List.map_append, List.map_map]
  rfl

/-- What is saved names no terminal twice. -/
theorem Inv.bringsNew_saved {a : App} (ha : a.Inv) : a.bringsNew (.launch a.saved) = true := by
  refine decide_eq_true (List.nodup_iff_count.mpr fun x => ?_)
  have h1 : (a.saved.flatMap WindowSnapshot.restored).count x ≤ (a.saved.flatMap WindowSnapshot.ids).count x :=
    count_flatMap_mono x fun w _ => by
      unfold WindowSnapshot.restored WindowSnapshot.ids
      rw [List.count_append, List.count_append]
      exact Nat.add_le_add_left (History.count_ofEntries_le _ x) _
  have h2 : ((a.windows.map Window.snapshot).flatMap WindowSnapshot.ids).count x ≤
      (a.windows.flatMap Window.ids).count x := by
    rw [List.flatMap_map]
    refine count_flatMap_mono x fun w hw => ?_
    rw [Window.count_ids]
    exact snapshot_ids_le (ha.windows w hw) x
  have h3 := ha.once x
  have h4 : (a.saved.flatMap WindowSnapshot.ids).count x =
      ((a.windows.map Window.snapshot).flatMap WindowSnapshot.ids).count x + a.parkedIds.count x :=
    count_flatMap_append ..
  unfold total at h3
  omega

/-- A restart has what was saved. -/
theorem restart_carries {a : App} (ha : a.Inv) (hn : a.Named) (lost : Key → Prop) :
    Carries lost a.histories (a.launch a.saved).histories ∧ (a.launch a.saved).Named := by
  have hf : List.Forall₂ (Follows lost) a.histories (a.launch a.saved).histories := by
    have heq : (a.launch a.saved).histories = a.histories.map fun p => (p.1, History.ofEntries p.2) := by
      rw [launch_histories, ← saved_tags, List.map_map]
      rfl
    rw [heq, List.forall₂_map_right_iff]
    refine List.forall₂_same.mpr fun p hp => ?_
    have hkeys := History.keys_ofEntries (ha.history_once hp)
    exact ⟨rfl, hkeys ▸ List.Sublist.refl _, fun k hk _ => hkeys ▸ hk⟩
  obtain ⟨hc, hnames⟩ := Carries.of_follows hf
  exact ⟨hc, hn.same hnames (a.le_nextRef_launch _)⟩

theorem start_named (saved : List WindowSnapshot) (hnd : (saved.map fun w => w.id).Nodup) :
    (({ App.init with nextRef := firstFree saved } : App).launch saved).Named := by
  have hnames : (({ App.init with nextRef := firstFree saved } : App).launch saved).histories.map Prod.fst =
      saved.map fun w => w.id := by
    rw [launch_histories, List.map_map]
    rfl
  have hle := le_nextRef_launch { App.init with nextRef := firstFree saved } saved
  refine ⟨hnames ▸ hnd, fun n hmem => Nat.lt_of_lt_of_le ?_ hle⟩
  rw [hnames] at hmem
  obtain ⟨w, hw, rfl⟩ := List.mem_map.mp hmem
  have hmax : ∀ (l : List Nat) (m : Nat), m ≤ l.foldl max m ∧ ∀ x ∈ l, x ≤ l.foldl max m := by
    intro l
    induction l with
    | nil => exact fun m => ⟨Nat.le_refl _, fun _ hx => absurd hx List.not_mem_nil⟩
    | cons y l ih =>
      intro m
      obtain ⟨h1, h2⟩ := ih (max m y)
      refine ⟨Nat.le_trans (Nat.le_max_left _ _) h1, fun x hx => ?_⟩
      obtain rfl | hx := List.mem_cons.mp hx
      · exact Nat.le_trans (Nat.le_max_right _ _) h1
      · exact h2 x hx
  exact (hmax (saved.map fun w => w.id + 1) 0).2 _ (List.mem_map_of_mem hw)

end App

end Mux.Tiling
