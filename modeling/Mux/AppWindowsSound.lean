import Mux.WindowSound

/-!
# The structure of the app

Over every run of operations on any number of windows that brings in no terminal twice the
windows stay well formed, and no terminal is at once in two places: a pane of a session, a
closed pane of a window, or part of a parked layout. A session that empties while another one
is active leaves that one active.
-/

namespace Mux.Tiling

open Lib

def Window.ids (w : Window) : List PaneId := w.keys ++ w.closedPanes.ids

theorem Window.count_ids (w : Window) (x : PaneId) : w.ids.count x = w.total x := List.count_append ..

namespace App

def total (a : App) (x : PaneId) : Nat := (a.windows.flatMap Window.ids).count x + a.parkedIds.count x

structure Inv (a : App) : Prop where
  windows : ∀ w ∈ a.windows, w.Ok
  once : ∀ x, a.total x ≤ 1
  refs_once : ∀ r, a.refs.count r ≤ 1
  refs_lt : ∀ r ∈ a.refs, r < a.nextRef

/-- Refs from the next one on are taken once. -/
theorem refs_extend {l l' : List Nat} {n m : Nat} (h1 : ∀ r, l.count r ≤ 1) (h2 : ∀ r ∈ l, r < n)
    (h : ∀ r, l'.count r ≤ l.count r + (List.range' n m).count r) :
    (∀ r, l'.count r ≤ 1) ∧ ∀ r ∈ l', r < n + m := by
  have hnd : (List.range' n m).Nodup := List.nodup_range'
  refine ⟨fun r => ?_, fun r hr => ?_⟩
  · have hle := h r
    by_cases hr : r ∈ List.range' n m
    · have hge := (List.mem_range'_1.mp hr).1
      have h0 : l.count r = 0 := List.count_eq_zero.mpr fun hl => by
        have := h2 r hl
        omega
      have := List.nodup_iff_count.mp hnd r
      omega
    · rw [List.count_eq_zero.mpr hr] at hle
      have := h1 r
      omega
  · have hpos := List.count_pos_iff.mpr hr
    have hle := h r
    by_cases hl : r ∈ l
    · have := h2 r hl
      omega
    · rw [List.count_eq_zero.mpr hl] at hle
      have hmem : r ∈ List.range' n m := List.count_pos_iff.mp (by omega)
      exact (List.mem_range'_1.mp hmem).2

/-! ## One window changes -/

section
variable {a : App} {k : Nat} {w : Window} (hk : a.windows[k]? = some w)
include hk

theorem total_onWindow (f : Window → Window) (x : PaneId) :
    (a.onWindow k f).total x + w.total x = a.total x + (f w).total x := by
  have := count_flatMap_modify Window.ids x hk f
  rw [Window.count_ids, Window.count_ids] at this
  show ((a.windows.modify k f).flatMap Window.ids).count x + a.parkedIds.count x + _ =
    (a.windows.flatMap Window.ids).count x + a.parkedIds.count x + _
  omega

theorem refs_onWindow (f : Window → Window) (r : Nat) :
    (a.onWindow k f).refs.count r + w.refs.count r = a.refs.count r + (f w).refs.count r :=
  count_flatMap_modify Window.refs r hk f

theorem total_window_le (x : PaneId) : w.total x ≤ a.total x := by
  have := count_le_flatMap Window.ids x (List.mem_of_getElem? hk)
  rw [Window.count_ids] at this
  exact Nat.le_trans this (Nat.le_add_right _ _)

theorem mem_onWindow {f : Window → Window} {w' : Window} (h : w' ∈ (a.onWindow k f).windows) :
    w' = f w ∨ w' ∈ a.windows := by
  obtain ⟨j, hj⟩ := List.getElem?_of_mem h
  have hj : (a.windows.modify k f)[j]? = some w' := hj
  rw [List.getElem?_modify] at hj
  obtain ⟨v, hv, heq⟩ := Option.map_eq_some_iff.mp hj
  by_cases hkj : k = j
  · subst hkj
    rw [hk] at hv
    cases hv
    rw [if_pos rfl] at heq
    exact .inl heq.symm
  · rw [if_neg hkj] at heq
    exact .inr (heq ▸ List.mem_of_getElem? hv)

/-- A window changes, and the refs it takes are new. -/
theorem Inv.onWindow (ha : a.Inv) {f : Window → Window} {add : PaneId → Nat} {n : Nat}
    (hone : ∀ x, a.total x + add x ≤ 1)
    (hf : Window.Change add (List.range' a.nextRef n) w (f w)) : ((a.onWindow k f).bump n).Inv := by
  have hle : ∀ r, (a.onWindow k f).refs.count r ≤ a.refs.count r + (List.range' a.nextRef n).count r := fun r => by
    have h1 := refs_onWindow hk f r
    have h2 := hf.refs.count_le r
    rw [List.count_append] at h2
    omega
  have hrefs := refs_extend ha.refs_once ha.refs_lt hle
  refine ⟨fun w' hw' => ?_, fun x => ?_, hrefs.1, hrefs.2⟩
  · obtain rfl | hw' := mem_onWindow hk hw'
    · exact hf.ok
    · exact ha.windows w' hw'
  · have h1 := total_onWindow hk f x
    have h2 := hf.total x
    have h3 := hone x
    show (a.onWindow k f).total x ≤ 1
    omega

end

theorem onWindow_none {a : App} {k : Nat} (hk : a.windows[k]? = none) (f : Window → Window) : a.onWindow k f = a := by
  unfold onWindow
  rw [List.modify_eq_self (List.getElem?_eq_none_iff.mp hk)]
  rfl

theorem Inv.bump {a : App} (ha : a.Inv) (n : Nat) : (a.bump n).Inv :=
  ⟨ha.windows, ha.once, ha.refs_once, fun r hr => Nat.lt_of_lt_of_le (ha.refs_lt r hr) (Nat.le_add_right _ _)⟩

theorem Inv.setRequests {a : App} (ha : a.Inv) (l : List Request) : (a.setRequests l).Inv :=
  ⟨ha.windows, ha.once, ha.refs_once, ha.refs_lt⟩

/-- A window keeps its shape. -/
theorem Inv.shaped {a : App} (ha : a.Inv) {k : Nat} {f : Window → Window} (hf : ∀ w, Window.Shaped w (f w)) :
    (a.onWindow k f).Inv := by
  cases hk : a.windows[k]? with
  | none => rw [onWindow_none hk]; exact ha
  | some w =>
    have hw := ha.windows w (List.mem_of_getElem? hk)
    exact ha.onWindow hk (n := 0) ha.once ((hf w).change hw Window.none' [])

theorem total_of_unused {a : App} {id : PaneId} (h : a.used id = false) : a.total id = 0 := by
  unfold used at h
  simp only [Bool.or_eq_false_iff, List.contains_eq_mem, decide_eq_false_iff_not] at h
  obtain ⟨⟨h1, h2⟩, h3⟩ := h
  have hids : id ∉ a.windows.flatMap Window.ids := by
    intro hm
    obtain ⟨w, hw, hid⟩ := List.mem_flatMap.mp hm
    obtain hid | hid := List.mem_append.mp hid
    · exact h1 (List.mem_flatMap.mpr ⟨w, hw, hid⟩)
    · exact h2 (List.mem_flatMap.mpr ⟨w, hw, hid⟩)
  unfold total
  rw [List.count_eq_zero.mpr hids, List.count_eq_zero.mpr h3]

theorem one_of_unused {a : App} (ha : a.Inv) {id : PaneId} (h : a.used id = false) (x : PaneId) :
    a.total x + Window.one id x ≤ 1 := by
  unfold Window.one
  by_cases hx : x = id
  · exact Nat.le_of_eq (by rw [hx, total_of_unused h, if_pos rfl])
  · rw [if_neg hx]
    exact ha.once x

theorem legal_added {a : App} (ha : a.Inv) {w : Window} {act : Act} (h : a.legalAct w act = true) (x : PaneId) :
    a.total x + Window.added act x ≤ 1 := by
  cases act with
  | newSession id target =>
    exact one_of_unused ha (by simpa [legalAct] using h) x
  | split source id d before atRoot target =>
    simp only [legalAct, Bool.and_eq_true, Bool.not_eq_true'] at h
    exact one_of_unused ha h.1 x
  | _ => exact ha.once x

theorem legal_window {a : App} {k : Nat} {act : Act} (h : a.legal (.window k act) = true) :
    ∃ w, a.windows[k]? = some w ∧ a.legalAct w act = true := by
  simp only [legal, Bool.and_eq_true] at h
  cases hk : a.windows[k]? with
  | none => simp [hk] at h
  | some w =>
    rw [hk, Option.any_some] at h
    exact ⟨w, rfl, h.2⟩

theorem Inv.window {a : App} (ha : a.Inv) {k : Nat} {act : Act} (h : a.legal (.window k act) = true) :
    (a.apply (.window k act)).Inv := by
  obtain ⟨w, hk, h⟩ := legal_window h
  have hw := ha.windows w (List.mem_of_getElem? hk)
  have hone := legal_added ha h
  have hle : ∀ x, w.total x + Window.added act x ≤ 1 := fun x =>
    Nat.le_trans (Nat.add_le_add_right (total_window_le hk x) _) (hone x)
  refine ha.onWindow hk hone (Window.act_change hw hle a.nextRef fun d n hact => ?_)
  subst hact
  exact h

/-! ## Other operations -/

/-- Windows come and go, and so do parked layouts. -/
theorem Inv.of_lists {a a' : App} (ha : a.Inv) (n : Nat) (hw : ∀ w ∈ a'.windows, w.Ok)
    (ht : ∀ x, a'.total x ≤ 1) (hr : ∀ r, a'.refs.count r ≤ a.refs.count r + (List.range' a.nextRef n).count r)
    (hn : a'.nextRef = a.nextRef + n) : a'.Inv := by
  have hrefs := refs_extend ha.refs_once ha.refs_lt hr
  exact ⟨hw, ht, hrefs.1, by rw [hn]; exact hrefs.2⟩

theorem Inv.newWindow {a : App} (ha : a.Inv) {source : Nat} {id : PaneId} (h : a.used id = false) :
    (a.apply (.newWindow source id)).Inv := by
  have hnew : (Window.new a.nextRef a.nextRef).Ok :=
    ⟨List.cons_ne_nil _ _, Nat.zero_lt_one, fun s hs => by
      obtain rfl := List.mem_singleton.mp hs
      exact Session.ok_new _, Nat.le_refl 1⟩
  have hone := one_of_unused ha h
  show ((a.newWindow source id).bump 1).Inv
  unfold App.newWindow
  generalize NewPaneTarget.inherit.seed _ = seed
  have hadd := Window.addInitialPane_change (i := 0) (s := Session.new a.nextRef) hnew rfl
    ⟨id, seed.2, seed.1, 0, false⟩
  refine ha.of_lists 1 (fun w hw => ?_) (fun x => ?_) (fun r => ?_) rfl
  · obtain hw | hw := List.mem_append.mp hw
    · exact ha.windows w hw
    · obtain rfl := List.mem_singleton.mp hw
      exact hadd.ok
  · show ((a.windows ++ [_]).flatMap Window.ids).count x + a.parkedIds.count x ≤ 1
    rw [count_flatMap_append, count_flatMap_cons, Window.count_ids]
    have h1 := hadd.total x
    have h2 := hone x
    have h3 : (Window.new a.nextRef a.nextRef).total x = 0 := rfl
    have h4 : a.total x = (a.windows.flatMap Window.ids).count x + a.parkedIds.count x := rfl
    simp only [List.flatMap_nil, List.count_nil]
    have h5 : Window.one (PaneView.mk id seed.2 seed.1 0 false).id x = Window.one id x := rfl
    omega
  · show ((a.windows ++ [_]).flatMap Window.refs).count r ≤ _
    rw [count_flatMap_append, count_flatMap_cons]
    have h1 := hadd.refs.count_le r
    have h2 : (Window.new a.nextRef a.nextRef).refs ++ [] = List.range' a.nextRef 1 := rfl
    rw [h2] at h1
    simp only [List.flatMap_nil, List.count_nil]
    have h3 : a.refs.count r = (a.windows.flatMap Window.refs).count r := rfl
    omega

/-- The window a session is moved out of keeps the others. -/
theorem without_spec {w : Window} (hw : w.Ok) {s : Session} (hs : w.activeSession = some s)
    (hmore : w.sessions.length > 1) :
    (without w).Ok ∧ (∀ x, (without w).total x + s.keys.count x = w.total x) ∧
      ∀ r, (without w).refs.count r + [s.ref].count r = w.refs.count r := by
  have hlen := List.length_eraseIdx_of_lt hw.active_lt
  have hsub := List.eraseIdx_sublist w.sessions w.active
  have hshape := Window.shaped_focusActive (((w.setResponder none).setSessions (w.sessions.eraseIdx w.active)).setActive
    (min w.active ((w.sessions.eraseIdx w.active).length - 1)))
  have hne : w.sessions.eraseIdx w.active ≠ [] := by
    rw [← List.length_pos_iff]
    omega
  refine ⟨hshape.ok ⟨hne, ?_, fun s' hs' => hw.ok s' (hsub.subset hs'), Nat.le_trans hsub.countP_le hw.empties⟩,
    fun x => ?_, fun r => ?_⟩
  · show min w.active ((w.sessions.eraseIdx w.active).length - 1) < (w.sessions.eraseIdx w.active).length
    omega
  · have := Window.total_eraseIdx hs x
    rw [show (without w).total x = _ from hshape.total x]
    exact this
  · have h := count_flatMap_eraseIdx (fun s : Session => [s.ref]) r hs
    have hmap : ∀ l : List Session, (l.map fun s => s.ref) = l.flatMap fun s => [s.ref] := fun l =>
      List.map_eq_flatMap
    rw [show (without w).refs = _ from hshape.refs]
    show ((w.sessions.eraseIdx w.active).map fun s => s.ref).count r + _ = (w.sessions.map fun s => s.ref).count r
    rw [hmap, hmap]
    exact h

theorem Inv.moveSession {a : App} (ha : a.Inv) (k : Nat) : (a.apply (.moveSessionToNewWindow k)).Inv := by
  show ((a.moveSessionToNewWindow k).bump 1).Inv
  unfold App.moveSessionToNewWindow
  cases hk : a.windows[k]? with
  | none => exact ha.bump 1
  | some w =>
    cases hs : w.activeSession with
    | none => simp only [hs]; exact ha.bump 1
    | some s =>
      simp only [hs]
      split
      · rename_i hmove
        have hw := ha.windows w (List.mem_of_getElem? hk)
        obtain ⟨hok, htot, hrefs⟩ := without_spec hw hs hmove.1
        have hshape := Window.shaped_focusActive (Window.mk a.nextRef [s] 0 [] none)
        have hnew : (Window.mk a.nextRef [s] 0 [] none).focusActive.Ok := by
          refine hshape.ok ⟨List.cons_ne_nil _ _, Nat.zero_lt_one, fun s' hs' => ?_, List.countP_le_length⟩
          obtain rfl := List.mem_singleton.mp hs'
          exact hw.ok s' (List.mem_of_getElem? hs)
        refine ha.of_lists 1 (fun v hv => ?_) (fun x => ?_) (fun r => ?_) rfl
        · obtain hv | hv := List.mem_append.mp hv
          · obtain rfl | hv := mem_onWindow hk hv
            · exact hok
            · exact ha.windows v hv
          · obtain rfl := List.mem_singleton.mp hv
            exact hnew
        · show (((a.onWindow k without).windows ++ [_]).flatMap Window.ids).count x + a.parkedIds.count x ≤ 1
          rw [count_flatMap_append, count_flatMap_cons, Window.count_ids, hshape.total]
          have h1 := total_onWindow hk without x
          have h2 := htot x
          have h3 := ha.once x
          have h4 : (Window.mk a.nextRef [s] 0 [] none).total x = s.keys.count x := by
            show ([s].flatMap Session.keys).count x + 0 = _
            rw [count_flatMap_cons]
            rfl
          have h5 : (a.onWindow k without).total x = ((a.onWindow k without).windows.flatMap Window.ids).count x +
            a.parkedIds.count x := rfl
          simp only [List.flatMap_nil, List.count_nil]
          omega
        · show (((a.onWindow k without).windows ++ [_]).flatMap Window.refs).count r ≤ _
          rw [count_flatMap_append, count_flatMap_cons, hshape.refs]
          have h1 := refs_onWindow hk without r
          have h2 := hrefs r
          have h3 : (a.onWindow k without).refs.count r = ((a.onWindow k without).windows.flatMap Window.refs).count r :=
            rfl
          have h4 : (Window.mk a.nextRef [s] 0 [] none).refs.count r = [s.ref].count r := rfl
          simp only [List.flatMap_nil, List.count_nil]
          omega
      · exact ha.bump 1

theorem snapshot_ids_le {w : Window} (hw : w.Ok) (x : PaneId) : w.snapshot.ids.count x ≤ w.total x := by
  have hle : ∀ l : List Session, (∀ s ∈ l, s.Ok) →
      ((l.filterMap Session.snapshot).flatMap fun s => s.tree.leaves).count x ≤ (l.flatMap Session.keys).count x := by
    intro l
    induction l with
    | nil => intro _; exact Nat.le_refl _
    | cons s l ih =>
      intro hok
      have hrest := ih fun s' hs' => hok s' (List.mem_cons_of_mem _ hs')
      have hs := hok s List.mem_cons_self x
      rw [count_flatMap_cons]
      cases ht : s.tree with
      | none =>
        rw [List.filterMap_cons_none (by simp [Session.snapshot, ht])]
        omega
      | some t =>
        rw [ht, leavesOf_some] at hs
        have hsnap : s.snapshot = some ⟨t, s.panes.map fun p => (p.id, p.snapshot), s.focusedID, s.zoomedID⟩ := by
          rw [Session.snapshot, ht]
          rfl
        rw [List.filterMap_cons_some hsnap, count_flatMap_cons]
        exact Nat.add_le_add hs hrest
  show (_ ++ _ : List PaneId).count x ≤ _
  rw [List.count_append]
  exact Nat.add_le_add_right (hle w.sessions hw.ok) _

theorem Inv.closeWindow {a : App} (ha : a.Inv) (k : Nat) : (a.closeWindow k).Inv := by
  unfold App.closeWindow
  cases hk : a.windows[k]? with
  | none => exact ha
  | some w =>
    have hw := ha.windows w (List.mem_of_getElem? hk)
    have hsub := List.eraseIdx_sublist a.windows k
    refine ha.of_lists 0 (fun v hv => ha.windows v (hsub.subset hv)) (fun x => ?_) (fun r => ?_) rfl
    · show ((a.windows.eraseIdx k).flatMap Window.ids).count x +
        ((a.closedWindows ++ [w.snapshot]).flatMap WindowSnapshot.ids).count x ≤ 1
      have h1 := count_flatMap_eraseIdx Window.ids x hk
      rw [Window.count_ids] at h1
      rw [count_flatMap_append, count_flatMap_cons]
      have h2 := snapshot_ids_le hw x
      have h3 := ha.once x
      have h4 : a.total x = (a.windows.flatMap Window.ids).count x +
        (a.closedWindows.flatMap WindowSnapshot.ids).count x := rfl
      simp only [List.flatMap_nil, List.count_nil]
      omega
    · exact Nat.le_trans (count_flatMap_sublist Window.refs r hsub) (Nat.le_add_right _ _)

/-- At most, one session of the window notes the pane, and a request is added. -/
theorem closePane_cases (a : App) (k : Nat) (id : PaneId) :
    a.closePane k id = a ∨ ∃ i q, a.closePane k id =
      (a.onWindow k fun w => w.edit i fun s => s.setClosing (s.closingPanes ++ [id])).setRequests
        (a.requests ++ [q]) := by
  unfold App.closePane
  split
  · exact .inl rfl
  split
  · exact .inl rfl
  split
  · exact .inl rfl
  split
  · exact .inl rfl
  · exact .inr ⟨_, _, rfl⟩

theorem Inv.closePane {a : App} (ha : a.Inv) (k : Nat) (id : PaneId) : (a.closePane k id).Inv := by
  obtain h | ⟨i, q, h⟩ := a.closePane_cases k id
  · rw [h]
    exact ha
  · rw [h]
    refine Inv.setRequests (ha.shaped fun w => ?_) _
    exact Window.shaped_edit w _ fun s => s.shape_setClosing _

/-- The completion of a request whose session and pane are there. -/
theorem reply_found {a : App} {n : Nat} {q : Request} {k i : Nat} (hq : a.requests[n]? = some q)
    (hfind : q.session.bind a.find = some (k, i)) (halive : q.alive = true) (expiresAt : Option Nat) :
    (a.reply n expiresAt).windows = a.windows.modify k fun w =>
      match expiresAt with
      | none => w.edit i (Session.answer q.pane)
      | some d => closed (w.edit i (Session.answer q.pane)) q.pane d a.nextRef := by
  unfold App.reply
  rw [hq]
  simp only [show q.session.bind (a.setRequests (a.requests.eraseIdx n)).find = some (k, i) from hfind, halive, if_true]
  cases expiresAt with
  | none => rfl
  | some d =>
    show (a.windows.modify k _).modify k _ = _
    rw [List.modify_modify_eq]
    rfl

/-- What a reply does to the windows, in one step. -/
theorem reply_windows (a : App) (n : Nat) (expiresAt : Option Nat) :
    (a.reply n expiresAt).windows = a.windows ∨ ∃ q k i, a.requests[n]? = some q ∧
      q.session.bind a.find = some (k, i) ∧ q.alive = true ∧
      (a.reply n expiresAt).windows = a.windows.modify k fun w =>
        match expiresAt with
        | none => w.edit i (Session.answer q.pane)
        | some d => closed (w.edit i (Session.answer q.pane)) q.pane d a.nextRef := by
  by_cases hfound : ∃ q k i, a.requests[n]? = some q ∧ q.session.bind a.find = some (k, i) ∧ q.alive = true
  · obtain ⟨q, k, i, hq, hfind, halive⟩ := hfound
    exact .inr ⟨q, k, i, hq, hfind, halive, reply_found hq hfind halive expiresAt⟩
  · refine .inl ?_
    unfold App.reply
    split
    · rfl
    rename_i q hq
    simp only
    split
    · rfl
    rename_i k i hfind
    rw [if_neg fun halive => hfound ⟨q, k, i, hq, hfind, halive⟩]
    rfl

/-- A pane becomes a closed pane of its window. -/
theorem closed_change {w : Window} (hw : w.Ok) (id : PaneId) (d fresh : Nat) :
    Window.Change Window.none' [fresh] w (closed w id d fresh) := by
  have hsame := (Window.Shaped.refl w).change hw Window.none' [fresh]
  unfold closed
  cases ho : w.owner id with
  | none => exact hsame
  | some i =>
    simp only
    cases hs : w.sessions[i]? with
    | none => exact hsame
    | some s =>
      cases hp : s.pane? id with
      | none => simp only [Option.bind_some, hp]; exact hsame
      | some p =>
        simp only [Option.bind_some, hp]
        generalize hrec : w.closedPanes.record id ⟨p.pwd, p.target, some p.fontDelta, none⟩ d = h
        have hw' : (w.setClosed h).Ok := ⟨hw.nonempty, hw.active_lt, hw.ok, hw.empties⟩
        have hd := Window.removePane_drops hw' hs (Session.pane?_mem hp) fresh
        refine ⟨hd.ok, fun x => ?_, hd.refs⟩
        have h1 := hd.total x
        have h2 := History.count_record_le w.closedPanes id ⟨p.pwd, p.target, some p.fontDelta, none⟩ d x
        rw [hrec] at h2
        have h3 : (w.setClosed h).total x = w.keys.count x + h.ids.count x := rfl
        have h4 : w.total x = w.keys.count x + w.closedPanes.ids.count x := rfl
        have h5 : Window.one id x = if x = id then 1 else 0 := rfl
        omega

theorem Inv.reply {a : App} (ha : a.Inv) (n : Nat) (expiresAt : Option Nat) :
    (a.apply (.reply n expiresAt)).Inv := by
  show ((a.reply n expiresAt).bump 1).Inv
  unfold App.reply
  split
  · exact ha.bump 1
  simp only
  split
  · exact (ha.setRequests _).bump 1
  split
  · rename_i q _ _ k i _ _
    have hclosing : ((a.setRequests (a.requests.eraseIdx n)).onWindow k fun w =>
        w.edit i (Session.answer q.pane)).Inv :=
      (ha.setRequests _).shaped fun w => Window.shaped_edit w _ (Session.shape_answer q.pane)
    cases expiresAt with
    | none => exact hclosing.bump 1
    | some d =>
      generalize hb : ((a.setRequests (a.requests.eraseIdx n)).onWindow k fun w => w.edit i (Session.answer q.pane)) = b
        at hclosing
      have href : a.nextRef = b.nextRef := by rw [← hb]; rfl
      show ((((a.setRequests (a.requests.eraseIdx n)).onWindow k fun w => w.edit i (Session.answer q.pane)).onWindow k
        fun w => closed w q.pane d a.nextRef).bump 1).Inv
      rw [hb, href]
      cases hk : b.windows[k]? with
      | none => rw [onWindow_none hk]; exact hclosing.bump 1
      | some w =>
        have hw := hclosing.windows w (List.mem_of_getElem? hk)
        exact hclosing.onWindow hk hclosing.once (closed_change hw q.pane d b.nextRef)
  · exact (ha.setRequests _).bump 1

theorem recovered_once {a : App} (ha : a.Inv) {panes : List (PaneId × PaneSnapshot)}
    (hnd : (panes.map fun p => p.1).Nodup) (hun : ∀ p ∈ panes, a.used p.1 = false) (x : PaneId) :
    a.total x + (panes.map fun p => p.1).count x ≤ 1 := by
  refine add_count_le_one x (ha.once x) hnd fun y hy => ?_
  obtain ⟨p, hp, rfl⟩ := List.mem_map.mp hy
  exact total_of_unused (hun p hp)

theorem Inv.recover {a : App} (ha : a.Inv) {panes : List (PaneId × PaneSnapshot)}
    (hnd : (panes.map fun p => p.1).Nodup) (hun : ∀ p ∈ panes, a.used p.1 = false) :
    (a.apply (.addRecoverySession panes)).Inv := by
  show ((a.onWindow 0 fun w => w.addRecoverySession a.nextRef panes).bump 1).Inv
  cases hk : a.windows[0]? with
  | none => rw [onWindow_none hk]; exact ha.bump 1
  | some w =>
    have hw := ha.windows w (List.mem_of_getElem? hk)
    exact ha.onWindow hk (recovered_once ha hnd hun) (Window.addRecoverySession_change hw a.nextRef panes hnd)

theorem Inv.exitEvent {a : App} (ha : a.Inv) (id : PaneId) (host : Option String) : (a.exitEvent id host).Inv := by
  have hrefs : (a.exitEvent id host).refs = a.refs := by
    show (a.windows.map _).flatMap Window.refs = _
    rw [List.flatMap_map]
    rfl
  refine ha.of_lists 0 (fun w hw => ?_) (fun x => ?_) (fun r => ?_) rfl
  · obtain ⟨v, hv, rfl⟩ := List.mem_map.mp hw
    have := ha.windows v hv
    exact ⟨this.nonempty, this.active_lt, this.ok, this.empties⟩
  · have h1 : ((a.windows.map fun w => w.setClosed (w.closedPanes.remove id host)).flatMap Window.ids).count x ≤
        (a.windows.flatMap Window.ids).count x := by
      rw [List.flatMap_map]
      refine count_flatMap_mono x fun w _ => ?_
      rw [Window.count_ids, Window.count_ids]
      exact Nat.add_le_add_left (History.count_remove_le _ _ _ _) _
    have h2 : ((a.closedWindows.map fun w =>
          { w with closedPanes := w.closedPanes.map fun h => History.remove h id host }).flatMap
        WindowSnapshot.ids).count x ≤ (a.closedWindows.flatMap WindowSnapshot.ids).count x := by
      rw [List.flatMap_map]
      refine count_flatMap_mono x fun w _ => ?_
      show (w.leaves ++ _).count x ≤ (w.leaves ++ _).count x
      rw [List.count_append, List.count_append]
      refine Nat.add_le_add_left ?_ _
      cases hc : w.closedPanes with
      | none => simp [WindowSnapshot.closedIds, hc]
      | some h =>
        simp only [WindowSnapshot.closedIds, hc, Option.map_some, Option.getD_some]
        exact History.count_remove_le h id host x
    exact Nat.le_trans (Nat.add_le_add h1 h2) (ha.once x)
  · rw [hrefs]
    exact Nat.le_add_right _ _

/-! ## Launch -/

theorem launchWindow_spec (ref : Nat) (saved : WindowSnapshot) (hone : ∀ x, saved.restored.count x ≤ 1) :
    (launchWindow ref saved).Ok ∧ (∀ x, (launchWindow ref saved).total x ≤ saved.restored.count x) ∧
      (launchWindow ref saved).refs.Sublist (List.range' ref (saved.sessions.length + 1)) := by
  generalize hw : (Window.new saved.id ref).setClosed (History.ofEntries (saved.closedPanes.getD [])) = w
  have hids : ∀ x, saved.restored.count x =
      saved.leaves.count x + (History.ofEntries (saved.closedPanes.getD [])).ids.count x := fun x =>
    List.count_append ..
  have hok : w.Ok := by
    subst hw
    refine ⟨List.cons_ne_nil _ _, Nat.zero_lt_one, fun s hs => ?_, Nat.le_refl 1⟩
    obtain rfl := List.mem_singleton.mp hs
    exact Session.ok_new ref
  have hclosed : ∀ x, w.total x = (History.ofEntries (saved.closedPanes.getD [])).ids.count x := fun x => by
    subst hw
    exact Nat.zero_add _
  obtain ⟨h1, h2, h3⟩ := Window.restoreSessions_change hok (by rw [← hw]; rfl) (ref + 1) saved.sessions
    saved.activeSession fun x => by
      have := hone x
      have := hids x
      show saved.leaves.count x ≤ 1
      omega
  have heq : launchWindow ref saved = w.restoreSessions (ref + 1) saved.sessions saved.activeSession := by
    rw [← hw]
    rfl
  rw [heq]
  refine ⟨h1, fun x => ?_, ?_⟩
  · have := h2 x
    have := hclosed x
    have := hids x
    have h4 : saved.leaves.count x = (saved.sessions.flatMap fun s => s.tree.leaves).count x := rfl
    omega
  · rw [show w.refs = [ref] by rw [← hw]; rfl] at h3
    rw [List.range'_succ]
    exact h3

theorem launchWindows_spec (ref : Nat) (saved : List WindowSnapshot)
    (hone : ∀ x, (saved.flatMap WindowSnapshot.restored).count x ≤ 1) :
    (∀ w ∈ (launchWindows ref saved).1, w.Ok) ∧
    (∀ x, ((launchWindows ref saved).1.flatMap Window.ids).count x ≤ (saved.flatMap WindowSnapshot.restored).count x) ∧
    ∃ n, (launchWindows ref saved).2 = ref + n ∧
      ((launchWindows ref saved).1.flatMap Window.refs).Sublist (List.range' ref n) := by
  induction saved generalizing ref with
  | nil => exact ⟨fun w hw => absurd hw List.not_mem_nil, fun _ => Nat.le_refl _, 0, rfl, List.Sublist.refl _⟩
  | cons first rest ih =>
    have hsplit : ∀ x, first.restored.count x ≤ 1 ∧ (rest.flatMap WindowSnapshot.restored).count x ≤ 1 := fun x => by
      have := hone x
      rw [count_flatMap_cons] at this
      omega
    obtain ⟨h1, h2, h3⟩ := launchWindow_spec ref first fun x => (hsplit x).1
    obtain ⟨i1, i2, n, i3, i4⟩ := ih (ref + 1 + first.sessions.length) fun x => (hsplit x).2
    refine ⟨fun w hw => ?_, fun x => ?_, first.sessions.length + 1 + n, ?_, ?_⟩
    · obtain rfl | hw := List.mem_cons.mp hw
      · exact h1
      · exact i1 w hw
    · rw [launchWindows, count_flatMap_cons, count_flatMap_cons, Window.count_ids]
      exact Nat.add_le_add (h2 x) (i2 x)
    · show (launchWindows (ref + 1 + first.sessions.length) rest).2 = _
      omega
    · rw [launchWindows, List.flatMap_cons, ← List.range'_append_1]
      refine h3.append ?_
      rw [show ref + (first.sessions.length + 1) = ref + 1 + first.sessions.length by omega]
      exact i4

/-- Starting again, the app knows what was saved and nothing else. -/
theorem Inv.launch (a : App) {saved : List WindowSnapshot} (hnd : (saved.flatMap WindowSnapshot.restored).Nodup) :
    (a.launch saved).Inv := by
  obtain ⟨h1, h2, n, h3, h4⟩ := launchWindows_spec a.nextRef saved (List.nodup_iff_count.mp hnd)
  have hrange : (List.range' a.nextRef n).Nodup := List.nodup_range'
  refine ⟨h1, fun x => ?_, fun r => ?_, fun r hr => ?_⟩
  · have := h2 x
    have := List.nodup_iff_count.mp hnd x
    show ((launchWindows a.nextRef saved).1.flatMap Window.ids).count x + 0 ≤ 1
    omega
  · exact Nat.le_trans (h4.count_le r) (List.nodup_iff_count.mp hrange r)
  · show r < (launchWindows a.nextRef saved).2
    rw [h3]
    exact (List.mem_range'_1.mp (h4.subset hr)).2

/-! ## Runs -/

theorem legal_recovery {a : App} {panes : List (PaneId × PaneSnapshot)} (h : a.legal (.addRecoverySession panes) = true)
    (hnew : a.bringsNew (.addRecoverySession panes) = true) :
    (panes.map fun p => p.1).Nodup ∧ ∀ p ∈ panes, a.used p.1 = false := by
  simp only [legal, Bool.and_eq_true, decide_eq_true_eq] at h
  simp only [bringsNew, List.all_eq_true, Bool.not_eq_true'] at hnew
  exact ⟨h.2, hnew⟩

theorem apply_inv {a : App} (ha : a.Inv) {op : Op} (h : a.legal op = true) (hnew : a.bringsNew op = true) :
    (a.apply op).Inv := by
  cases op with
  | window k act => exact ha.window h
  | newWindow source id =>
    simp only [legal, Bool.and_eq_true, Bool.not_eq_true'] at h
    exact ha.newWindow h.2
  | moveSessionToNewWindow k => exact ha.moveSession k
  | closeWindow k => exact ha.closeWindow k
  | closePane k id => exact ha.closePane k id
  | reply n expiresAt => exact ha.reply n expiresAt
  | addRecoverySession panes =>
    obtain ⟨hnd, hun⟩ := legal_recovery h hnew
    exact ha.recover hnd hun
  | exitEvent id host => exact ha.exitEvent id host
  | launch saved => exact Inv.launch a (of_decide_eq_true hnew)

theorem step_some {a a' : App} {op : Op} (h : a.step op = some a') : a.legal op = true ∧ a' = (a.apply op).sweep := by
  unfold step at h
  split at h
  · rename_i hl
    exact ⟨hl, (Option.some.inj h).symm⟩
  · cases h

theorem step_inv {a a' : App} {op : Op} (h : a.step op = some a') (hnew : a.bringsNew op = true) (ha : a.Inv) :
    a'.Inv := by
  obtain ⟨hl, rfl⟩ := step_some h
  exact (apply_inv ha hl hnew).setRequests _

theorem init_inv : init.Inv :=
  ⟨fun _ hw => absurd hw List.not_mem_nil, fun _ => Nat.zero_le _, fun _ => Nat.zero_le _,
    fun _ hr => absurd hr List.not_mem_nil⟩

theorem exec_inv {run : List Op} {a : App} (h : exec step init run = some a)
    (hm : Meets step (fun a op => a.bringsNew op = true) init run) : a.Inv :=
  exec_inv_of_meets (fun _ _ _ hnew hs ha => step_inv hs hnew ha) hm h init_inv

end App

/-! ## Sessions that empty -/

namespace Window

def activeRef (w : Window) : Option Nat := w.activeSession.map fun s => s.ref

/-- Whatever session other than the active one is gone, the same session is active. -/
def KeepsActive (w w' : Window) : Prop :=
  ∀ r ∈ w.refs, r ∉ w'.refs → w.activeRef ≠ some r → w'.activeRef = w.activeRef

theorem KeepsActive.of_refs {w w' : Window} (h : w'.refs = w.refs) : KeepsActive w w' :=
  fun _ hr hgone _ => absurd (h ▸ hr) hgone

theorem KeepsActive.after {w v w' : Window} (hr : v.refs = w.refs) (ha : v.activeRef = w.activeRef)
    (h : KeepsActive v w') : KeepsActive w w' := by
  intro r hmem hgone hne
  rw [← ha] at hne ⊢
  exact h r (hr ▸ hmem) hgone hne

theorem sessionDidEmpty_keepsActive {w : Window} {i : Nat} (fresh : Nat) (hi : i < w.sessions.length)
    (ha : w.active < w.sessions.length) : KeepsActive w (w.sessionDidEmpty i fresh) := by
  intro r hr hgone hne
  by_cases hia : i = w.active
  · -- the active session goes, so every other one is still there
    subst hia
    obtain ⟨j, hj⟩ := List.getElem?_of_mem hr
    have hj : (w.sessions.map fun s => s.ref)[j]? = some r := hj
    rw [List.getElem?_map] at hj
    have hji : j ≠ w.active := by
      intro he
      subst he
      exact hne hj
    obtain ⟨s, hs, rfl⟩ := Option.map_eq_some_iff.mp hj
    have hmem : s ∈ w.sessions.eraseIdx w.active := List.mem_eraseIdx_iff_getElem?.mpr ⟨j, hji, hs⟩
    refine absurd ?_ hgone
    unfold sessionDidEmpty
    have hnil : (w.sessions.eraseIdx w.active).isEmpty = false := by
      rw [List.isEmpty_eq_false_iff]
      exact List.ne_nil_of_mem hmem
    simp only [hnil, Bool.false_eq_true, if_false]
    rw [(shaped_focusActive _).refs]
    exact List.mem_map_of_mem hmem
  · exact sessionDidEmpty_active fresh hi ha hia

theorem removePane_keepsActive {w : Window} (ha : w.active < w.sessions.length) (i : Nat) (id : PaneId)
    (fresh : Nat) :
    KeepsActive w (w.removePane i id fresh) := by
  cases hi : w.sessions[i]? with
  | none =>
    refine .of_refs ?_
    unfold removePane
    rw [hi]
  | some s =>
    by_cases hid : id ∈ s.keys
    · rw [removePane_eq hi hid]
      simp only
      generalize (s.tree.bind fun t => t.removing id) = tree
      generalize hv : (w.edit i fun s => (s.dropPane id).setTree tree).removeView id = v
      have hs := shaped_removeView (w.edit i fun s => (s.dropPane id).setTree tree) id
      rw [hv] at hs
      have hrefs : v.refs = w.refs := hs.refs.trans (refs_edit w i fun _ => rfl)
      have hlen : v.sessions.length = w.sessions.length := hs.length.trans (List.length_modify ..)
      have hmap : v.activeRef = v.refs[v.active]? := (List.getElem?_map ..).symm
      have hactive : v.activeRef = w.activeRef := by
        rw [hmap, hrefs, hs.active]
        exact List.getElem?_map ..
      cases tree with
      | none =>
        refine .after hrefs hactive (sessionDidEmpty_keepsActive fresh ?_ ?_)
        · rw [hlen]
          exact (List.getElem?_eq_some_iff.mp hi).1
        · rw [hlen, hs.active]
          exact ha
      | some t => exact .of_refs ((shaped_settle v i id _).refs.trans hrefs)
    · refine .of_refs ?_
      unfold removePane
      rw [hi]
      simp only [if_neg (fun h => hid (Session.contains_iff.mp h))]

end Window

/-- A pane is closed, killed or gone. -/
def Op.takesOut : Op → Bool
  | .reply _ (some _) | .window _ .killFocusedPane | .window _ (.paneExited _) => true
  | _ => false

namespace App

section
variable {P : Window → Window → Prop} (hrefl : ∀ w, P w w)
include hrefl

/-- What holds of a window and itself, and of the one that changes. -/
theorem onWindow_forall {a : App} {k : Nat} {f : Window → Window} (hf : ∀ w, a.windows[k]? = some w → P w (f w))
    {j : Nat} {w w' : Window} (hw : a.windows[j]? = some w) (hw' : (a.onWindow k f).windows[j]? = some w') :
    P w w' := by
  have hw' : (a.windows.modify k f)[j]? = some w' := hw'
  rw [List.getElem?_modify, hw] at hw'
  obtain rfl : (if k = j then f w else w) = w' := Option.some.inj hw'
  by_cases hkj : k = j
  · subst hkj
    rw [if_pos rfl]
    exact hf w hw
  · rw [if_neg hkj]
    exact hrefl w

end

theorem closed_keepsActive {w : Window} (ha : w.active < w.sessions.length) (id : PaneId) (d fresh : Nat) :
    Window.KeepsActive w (closed w id d fresh) := by
  unfold closed
  repeat' split
  · exact .of_refs rfl
  · exact .of_refs rfl
  · rename_i i _ _ p _
    generalize w.closedPanes.record id ⟨p.pwd, p.target, some p.fontDelta, none⟩ d = h
    exact Window.KeepsActive.after (v := w.setClosed h) rfl rfl
      (Window.removePane_keepsActive (w := w.setClosed h) ha i id fresh)

theorem apply_keepsActive {a : App} (ha : a.Inv) {op : Op} (hop : op.takesOut = true) {k : Nat} {w w' : Window}
    (hw : a.windows[k]? = some w) (hw' : (a.apply op).windows[k]? = some w') : Window.KeepsActive w w' := by
  have hlt : ∀ {j : Nat} {v : Window}, a.windows[j]? = some v → v.active < v.sessions.length := fun hv =>
    (ha.windows _ (List.mem_of_getElem? hv)).active_lt
  have hrefl : ∀ v, Window.KeepsActive v v := fun v => .of_refs rfl
  have hsame : a.windows[k]? = some w' → Window.KeepsActive w w' := fun h => by
    rw [hw] at h
    cases h
    exact hrefl w
  cases op with
  | window j act =>
    refine onWindow_forall hrefl (fun v hv => ?_) hw hw'
    cases act with
    | killFocusedPane =>
      show Window.KeepsActive v (v.killFocusedPane a.nextRef)
      unfold Window.killFocusedPane
      split
      · exact Window.removePane_keepsActive (hlt hv) _ _ _
      · exact hrefl v
    | paneExited id => exact Window.removePane_keepsActive (hlt hv) _ _ _
    | _ => cases hop
  | reply n expiresAt =>
    cases expiresAt with
    | none => cases hop
    | some d =>
      have hw' : (a.reply n (some d)).windows[k]? = some w' := hw'
      obtain h | ⟨q, j, i, -, -, -, h⟩ := reply_windows a n (some d)
      · rw [h] at hw'
        exact hsame hw'
      · rw [h] at hw'
        refine onWindow_forall (k := j) (f := fun w => closed (w.edit i (Session.answer q.pane)) q.pane d a.nextRef) hrefl
          (fun v hv => ?_) hw hw'
        have hs := Window.shaped_edit v i (Session.shape_answer q.pane)
        refine Window.KeepsActive.after hs.refs hs.activeRef (closed_keepsActive ?_ q.pane d a.nextRef)
        rw [hs.length]
        exact hlt hv
  | _ => cases hop

/-! ## The structure of every window -/

structure Structured (a : App) : Prop where
  nonempty : ∀ w ∈ a.windows, w.sessions ≠ []
  active : ∀ w ∈ a.windows, w.active < w.sessions.length
  leaves : ∀ w ∈ a.windows, ∀ s ∈ w.sessions, s.leaves.Nodup ∧ ∀ x ∈ s.leaves, x ∈ s.keys
  apart : ∀ {k k' i i' : Nat} {w w' : Window} {s s' : Session} {x : PaneId}, a.windows[k]? = some w →
    a.windows[k']? = some w' → w.sessions[i]? = some s → w'.sessions[i']? = some s' → x ∈ s.keys → x ∈ s'.keys →
    k = k' ∧ i = i'

theorem Inv.keys_once {a : App} (ha : a.Inv) (x : PaneId) : a.keys.count x ≤ 1 := by
  have hle : (a.windows.flatMap Window.keys).count x ≤ (a.windows.flatMap Window.ids).count x :=
    count_flatMap_mono x fun w _ => by
      rw [Window.count_ids]
      exact Nat.le_add_right _ _
  exact Nat.le_trans hle (Nat.le_trans (Nat.le_add_right _ _) (ha.once x))

theorem Inv.structured {a : App} (ha : a.Inv) : a.Structured := by
  have hkeys : ∀ w ∈ a.windows, ∀ x, w.keys.count x ≤ 1 := fun w hw x =>
    Nat.le_trans (count_le_flatMap Window.keys x hw) (ha.keys_once x)
  refine ⟨fun w hw => (ha.windows w hw).nonempty, fun w hw => (ha.windows w hw).active_lt, fun w hw s hs => ?_, ?_⟩
  · have hok := (ha.windows w hw).ok s hs
    refine ⟨List.nodup_iff_count.mpr fun x => ?_, fun x hx => ?_⟩
    · exact Nat.le_trans (hok x) (Nat.le_trans (count_le_flatMap Session.keys x hs) (hkeys w hw x))
    · exact List.count_pos_iff.mp (Nat.lt_of_lt_of_le (List.count_pos_iff.mpr hx) (hok x))
  · intro k k' i i' w w' s s' x hk hk' hi hi' hx hx'
    have hmem : ∀ {v : Window} {j : Nat} {t : Session}, v.sessions[j]? = some t → x ∈ t.keys → x ∈ v.keys :=
      fun ht hxt => List.mem_flatMap.mpr ⟨_, List.mem_of_getElem? ht, hxt⟩
    have hkk := flatMap_apart Window.keys x hk hk' (ha.keys_once x) (hmem hi hx) (hmem hi' hx')
    subst hkk
    rw [hk] at hk'
    cases hk'
    exact ⟨rfl, flatMap_apart Session.keys x hi hi' (hkeys w (List.mem_of_getElem? hk) x) hx hx'⟩

/-- After every sequence of operations on any number of windows that brings in no terminal twice. -/
theorem windows_structured {run : List Op} {a : App} (h : exec step init run = some a)
    (hm : Meets step (fun a op => a.bringsNew op = true) init run) :
    a.Structured ∧ ∀ (op : Op) (a' : App), op.takesOut = true → a.step op = some a' →
      ∀ (k : Nat) (w w' : Window), a.windows[k]? = some w → a'.windows[k]? = some w' → Window.KeepsActive w w' := by
  have ha := exec_inv h hm
  refine ⟨ha.structured, fun op a' hop hstep k w w' hw hw' => ?_⟩
  obtain ⟨-, rfl⟩ := step_some hstep
  exact apply_keepsActive ha hop hw hw'

/-- Two sessions, the first of which is active and split. -/
def twoSessions : List Op :=
  [.newWindow 0 1, .window 0 (.newSession 2 .inherit), .window 0 (.selectSession 0),
    .window 0 (.split none 3 .vertical false false .inherit)]

theorem windows_structured_twoSessions : ∃ (a a' : App) (w w' : Window), exec step init twoSessions = some a ∧ a.Structured ∧
    a.step (.window 0 (.paneExited 2)) = some a' ∧ a.windows[0]? = some w ∧ a'.windows[0]? = some w' ∧
    w.refs.length = 2 ∧ w'.refs.length = 1 ∧ Window.KeepsActive w w' := by
  have hs : exec step init twoSessions = some ((exec step init twoSessions).get (by decide)) :=
    (Option.some_get _).symm
  have hw := windows_structured hs (by decide)
  exact ⟨_, _, _, _, hs, hw.1, rfl, rfl, rfl, rfl, rfl, hw.2 (.window 0 (.paneExited 2)) _ rfl rfl 0 _ _ rfl rfl⟩

/-- Two aliases of one daemon list a terminal that no window has; it is moved from the session of the
one into the session of the other. -/
def twoAliases : List Op :=
  [.newWindow 0 1, .addRecoverySession [(2, ⟨none, some "spark", none, none⟩)],
    .addRecoverySession [(2, ⟨none, some "spark-lan", none, none⟩)], .window 0 (.selectSession 1), .window 0 (.movePane 2)]

theorem terminal_placed_twice : ¬ ∀ (run : List Op) (a : App), exec step init run = some a → a.Structured := by
  intro h
  have hs : exec step init twoAliases = some ((exec step init twoAliases).get (by decide)) := (Option.some_get _).symm
  have hleaves := (h _ _ hs).leaves
  have hdistinct : ∀ w ∈ ((exec step init twoAliases).get (by decide)).windows, ∀ s ∈ w.sessions, s.leaves.Nodup :=
    fun w hw s hs' => (hleaves w hw s hs').1
  exact absurd hdistinct (by decide)

end App

end Mux.Tiling
