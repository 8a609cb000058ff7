import Mux.LayoutSound

/-!
# The reply to a close

The completion of a close holds the session and the pane it started from weakly, and looks
for the pane in that session's window only. Until it runs the pane may have moved to another
session or window, its first session may be gone, or its window closed. When it reaches the
pane, and when a failed close can be tried again, is decided by the state it finds.
-/

namespace Mux.Tiling

open Lib

/-- The deadlines the history has for a pane. -/
def History.deadlines (h : History) (id : PaneId) : List (Option Nat) :=
  (h.filter fun e => e.id == id).map fun e => e.expiresAt

/-- All of a window but which closes are outstanding. -/
def Window.layout (w : Window) : Window := w.setSessions (w.sessions.map fun s => s.setClosing [])

namespace App

/-- Every pane of a session or of a parked layout. -/
def layoutIds (a : App) : List PaneId := a.keys ++ a.closedWindows.flatMap WindowSnapshot.leaves

/-- The pane has left the layouts, and the history of the window it was in has it once. -/
structure TookEffect (a a' : App) (id : PaneId) (d : Nat) : Prop where
  gone : id ∉ a'.layoutIds
  history :
    (∃ (k : Nat) (w w' : Window), a.windows[k]? = some w ∧ id ∈ w.keys ∧ a'.windows[k]? = some w' ∧
      w'.closedPanes.deadlines id = [some d]) ∨
    ∃ (k : Nat) (p p' : WindowSnapshot), a.closedWindows[k]? = some p ∧ id ∈ p.leaves ∧ a'.closedWindows[k]? = some p' ∧
      History.deadlines (p'.closedPanes.getD []) id = [some d]

def SameLayout (a a' : App) : Prop :=
  a'.windows.map Window.layout = a.windows.map Window.layout ∧ a'.closedWindows = a.closedWindows

/-- Closing the pane in window `k` asks the daemon. -/
def Sends (a : App) (k : Nat) (id : PaneId) : Prop :=
  ∃ q, (a.closePane k id).requests = a.requests ++ [q] ∧ q.pane = id

/-- What a reply to `q` is for: a deadline takes effect, a failure can be tried again. -/
def Settles (a a' : App) (q : Request) : Option Nat → Prop
  | some d => q.pane ∈ a.layoutIds → TookEffect a a' q.pane d
  | none => SameLayout a a' ∧ ∀ (k : Nat) (w : Window), a'.windows[k]? = some w → q.pane ∈ w.keys → a'.Sends k q.pane

/-- With a deadline: what started the close is alive, and the pane is in the window its session
is in. With a failure: a session that has the pane and waits for a reply is the one that started
this close, and the pane is the one it was. -/
def Reaches (a : App) (q : Request) : Option Nat → Prop
  | some _ => q.pane ∈ a.layoutIds → q.alive = true ∧ ∃ (r k i : Nat) (w : Window), q.session = some r ∧
      a.find r = some (k, i) ∧ a.windows[k]? = some w ∧ q.pane ∈ w.keys
  | none => ∀ w ∈ a.windows, ∀ s ∈ w.sessions, q.pane ∈ s.keys → q.pane ∈ s.closingPanes →
      q.session = some s.ref ∧ q.alive = true

/-! ## Finding a session -/

theorem find_some {a : App} {r k i : Nat} (h : a.find r = some (k, i)) :
    ∃ w s, a.windows[k]? = some w ∧ w.sessions[i]? = some s ∧ s.ref = r := by
  obtain ⟨k', hk', h⟩ := Option.bind_eq_some_iff.mp h
  obtain ⟨i', hi', heq⟩ := Option.map_eq_some_iff.mp h
  cases heq
  obtain ⟨w, hw, hi'⟩ := Option.bind_eq_some_iff.mp hi'
  obtain ⟨hlt, hr, -⟩ := List.findIdx?_eq_some_iff_getElem.mp hi'
  exact ⟨w, w.sessions[i], hw, List.getElem?_eq_getElem hlt, eq_of_beq hr⟩

theorem refs_eq_flatMap (w : Window) : w.refs = w.sessions.flatMap fun s => [s.ref] := List.map_eq_flatMap

theorem find_eq {a : App} (ha : a.Inv) {k i : Nat} {w : Window} {s : Session} (hk : a.windows[k]? = some w)
    (hi : w.sessions[i]? = some s) : a.find s.ref = some (k, i) := by
  have hmem : s.ref ∈ w.refs := List.mem_map_of_mem (List.mem_of_getElem? hi)
  have hwindow : (a.windows.findIdx? fun w => w.refs.contains s.ref) = some k := by
    cases hf : a.windows.findIdx? fun w => w.refs.contains s.ref with
    | none =>
      have := List.findIdx?_eq_none_iff.mp hf w (List.mem_of_getElem? hk)
      rw [List.contains_iff_mem.mpr hmem] at this
      cases this
    | some k' =>
      obtain ⟨hlt, hc, -⟩ := List.findIdx?_eq_some_iff_getElem.mp hf
      rw [flatMap_apart Window.refs s.ref (List.getElem?_eq_getElem hlt) hk (ha.refs_once s.ref)
        (List.contains_iff_mem.mp hc) hmem]
  have hsession : (w.sessions.findIdx? fun t => t.ref == s.ref) = some i := by
    cases hf : w.sessions.findIdx? fun t => t.ref == s.ref with
    | none =>
      have := List.findIdx?_eq_none_iff.mp hf s (List.mem_of_getElem? hi)
      rw [beq_self_eq_true] at this
      cases this
    | some j =>
      obtain ⟨hlt, hr, -⟩ := List.findIdx?_eq_some_iff_getElem.mp hf
      have hone : (w.sessions.flatMap fun t => [t.ref]).count s.ref ≤ 1 := by
        rw [← refs_eq_flatMap]
        exact Nat.le_trans (count_le_flatMap Window.refs s.ref (List.mem_of_getElem? hk)) (ha.refs_once s.ref)
      rw [flatMap_apart (fun t : Session => [t.ref]) s.ref (List.getElem?_eq_getElem hlt) hi hone
        (List.mem_singleton.mpr (eq_of_beq hr).symm) List.mem_cons_self]
  unfold find
  rw [hwindow, Option.bind_some, hk, Option.bind_some, hsession]
  rfl

/-! ## Asking again -/

theorem sends_iff {a : App} {k i : Nat} {w : Window} {s : Session} {id : PaneId} (hk : a.windows[k]? = some w)
    (ho : w.owner id = some i) (hi : w.sessions[i]? = some s) : a.Sends k id ↔ id ∉ s.closingPanes := by
  have heq : a.closePane k id = if s.closingPanes.contains id then a else
      (a.onWindow k fun w => w.edit i fun s => s.setClosing (s.closingPanes ++ [id])).setRequests
        (a.requests ++ [⟨id, some s.ref, true⟩]) := by
    unfold App.closePane
    rw [hk]
    simp only [ho, hi]
  unfold Sends
  rw [heq]
  by_cases hc : id ∈ s.closingPanes
  · rw [if_pos (List.contains_iff_mem.mpr hc)]
    refine ⟨fun ⟨q, h, _⟩ => ?_, fun h => absurd hc h⟩
    have := congrArg List.length h
    rw [List.length_append, List.length_singleton] at this
    omega
  · rw [if_neg (fun h => hc (List.contains_iff_mem.mp h))]
    exact ⟨fun _ => hc, fun _ => ⟨_, rfl, rfl⟩⟩

/-! ## A deadline -/

end App

theorem Window.removePane_closed (w : Window) (i : Nat) (id : PaneId) (fresh : Nat) :
    (w.removePane i id fresh).closedPanes = w.closedPanes := by
  cases hi : w.sessions[i]? with
  | none =>
    unfold removePane
    rw [hi]
  | some s =>
    by_cases hid : id ∈ s.keys
    · rw [removePane_eq hi hid]
      simp only
      generalize (s.tree.bind fun t => t.removing id) = tree
      have hview := (shaped_removeView (w.edit i fun s => (s.dropPane id).setTree tree) id).closed
      cases tree with
      | none =>
        refine Eq.trans ?_ hview
        unfold sessionDidEmpty
        simp only
        split
        · exact (shaped_focusActive _).closed
        · exact (shaped_focusActive _).closed
      | some t => exact (shaped_settle _ i id _).closed.trans hview
    · unfold removePane
      rw [hi]
      simp only [if_neg (fun h => hid (Session.contains_iff.mp h))]

namespace App

theorem deadlines_record {h : History} {id : PaneId} (h0 : h.ids.count id = 0) (pane : PaneSnapshot) (d : Nat) :
    (h.record id pane d).deadlines id = [some d] := by
  have hnone : (h.remove id (daemonOf pane.target)).filter (fun e => e.id == id) = [] := by
    rw [List.filter_eq_nil_iff]
    intro e he
    have hmem : e ∈ h := (List.mem_filter.mp he).1
    have hne : e.id ≠ id := fun heq => by
      have := List.count_eq_zero.mp h0
      exact this (heq ▸ List.mem_map_of_mem hmem)
    simpa using hne
  unfold History.deadlines History.record
  rw [List.filter_append, hnone, List.nil_append, List.filter_cons_of_pos (by simp)]
  rfl

theorem closed_spec {w : Window} (hw : w.Ok) {id : PaneId} (hid : id ∈ w.keys) (hone : w.total id ≤ 1)
    (d fresh : Nat) :
    (closed w id d fresh).keys.count id = 0 ∧ (closed w id d fresh).closedPanes.deadlines id = [some d] := by
  have hpos := List.count_pos_iff.mpr hid
  have h0 : w.closedPanes.ids.count id = 0 := by
    unfold Window.total at hone
    omega
  obtain ⟨t, ht, hidt⟩ := List.mem_flatMap.mp hid
  unfold closed
  cases ho : w.owner id with
  | none =>
    have := List.findIdx?_eq_none_iff.mp ho t ht
    rw [Session.contains_iff.mpr hidt] at this
    cases this
  | some i =>
    obtain ⟨s, hs, hids⟩ := Window.owner_some ho
    obtain ⟨p, hp⟩ := Session.pane?_of_mem hids
    simp only [hs, Option.bind_some, hp]
    have hrec := deadlines_record h0 ⟨p.pwd, p.target, some p.fontDelta, none⟩ d
    generalize w.closedPanes.record id ⟨p.pwd, p.target, some p.fontDelta, none⟩ d = h at hrec ⊢
    have hw' : (w.setClosed h).Ok := ⟨hw.nonempty, hw.active_lt, hw.ok, hw.empties⟩
    have hd := (Window.removePane_drops hw' (show (w.setClosed h).sessions[i]? = some s from hs) hids fresh).total id
    have hc := Window.removePane_closed (w.setClosed h) i id fresh
    refine ⟨?_, by rw [hc]; exact hrec⟩
    have h1 : (w.setClosed h).total id = w.keys.count id + h.ids.count id := rfl
    unfold Window.total at hone hd h1
    rw [hc] at hd
    rw [Window.one, if_pos rfl] at hd
    have h2 : (w.setClosed h).closedPanes = h := rfl
    rw [h2] at hd h1
    omega

theorem reply_parked (a : App) (n : Nat) (expiresAt : Option Nat) :
    (a.reply n expiresAt).closedWindows = a.closedWindows := by
  unfold App.reply
  split
  · rfl
  simp only
  split
  · rfl
  split
  · cases expiresAt <;> rfl
  · rfl

theorem keys_modify {a : App} {k : Nat} {w : Window} (hk : a.windows[k]? = some w) (f : Window → Window)
    (x : PaneId) :
    ((a.windows.modify k f).flatMap Window.keys).count x + w.keys.count x = a.keys.count x + (f w).keys.count x :=
  count_flatMap_modify Window.keys x hk f

section
variable {a : App} (ha : a.Inv) {n : Nat} {q : Request} (hq : a.requests[n]? = some q)
include ha hq

/-- The completion finds the pane. -/
theorem reply_takes_effect {d r k i : Nat} {w : Window} (halive : q.alive = true) (hr : q.session = some r)
    (hfind : a.find r = some (k, i)) (hk : a.windows[k]? = some w) (hpane : q.pane ∈ w.keys) :
    TookEffect a ((a.apply (.reply n (some d))).sweep) q.pane d := by
  have hmem := List.mem_of_getElem? hk
  have hwin : (a.reply n (some d)).windows =
      a.windows.modify k fun w => closed (w.edit i (Session.answer q.pane)) q.pane d a.nextRef :=
    reply_found hq (by rw [hr, Option.bind_some, hfind]) halive (some d)
  have hs := Window.shaped_edit w i (Session.shape_answer q.pane)
  obtain ⟨hkeys, hhist⟩ := closed_spec (hs.ok (ha.windows w hmem)) (hs.keys ▸ hpane)
    (by rw [hs.total]; exact ha.window_once hmem q.pane) d a.nextRef
  have hpos := List.count_pos_iff.mpr hpane
  have hone := ha.once q.pane
  have hle := total_window_le hk q.pane
  refine ⟨fun hin => ?_, .inl ⟨k, w, _, hk, hpane, ?_, hhist⟩⟩
  · obtain hin | hin := List.mem_append.mp hin
    · have hin : q.pane ∈ (a.reply n (some d)).windows.flatMap Window.keys := hin
      rw [hwin] at hin
      have h1 := keys_modify hk (fun w => closed (w.edit i (Session.answer q.pane)) q.pane d a.nextRef) q.pane
      have h2 := List.count_pos_iff.mpr hin
      have h3 := ha.keys_once q.pane
      omega
    · -- it was in a window, so it is in no parked layout
      have hin : q.pane ∈ (a.reply n (some d)).closedWindows.flatMap WindowSnapshot.leaves := hin
      rw [reply_parked] at hin
      obtain ⟨p, hp, hleaf⟩ := List.mem_flatMap.mp hin
      have hparked : q.pane ∈ a.parkedIds := List.mem_flatMap.mpr ⟨p, hp, List.mem_append_left _ hleaf⟩
      have h1 := List.count_pos_iff.mpr hparked
      have h2 : q.pane ∈ a.windows.flatMap Window.ids :=
        List.mem_flatMap.mpr ⟨w, hmem, List.mem_append_left _ hpane⟩
      have h3 := List.count_pos_iff.mpr h2
      unfold App.total at hone
      omega
  · show (a.reply n (some d)).windows[k]? = _
    rw [hwin, List.getElem?_modify, hk]
    exact congrArg some (if_pos rfl)

omit ha in
/-- The completion does not find the pane, which stays where it is. -/
theorem reply_misses {d : Nat} (hmiss : ¬ (q.alive = true ∧ ∃ (r k i : Nat) (w : Window), q.session = some r ∧
    a.find r = some (k, i) ∧ a.windows[k]? = some w ∧ q.pane ∈ w.keys)) (hin : q.pane ∈ a.layoutIds) :
    q.pane ∈ ((a.apply (.reply n (some d))).sweep).layoutIds := by
  have hkeys : ((a.reply n (some d)).windows.flatMap Window.keys).count q.pane = a.keys.count q.pane := by
    obtain h | ⟨q', k, i, hq', hfind, halive, h⟩ := reply_windows a n (some d)
    · rw [h]
      rfl
    · rw [hq] at hq'
      cases hq'
      rw [h]
      cases hk : a.windows[k]? with
      | none =>
        rw [List.modify_eq_self (List.getElem?_eq_none_iff.mp hk)]
        rfl
      | some w =>
        obtain ⟨r, hr, hfind⟩ := Option.bind_eq_some_iff.mp hfind
        have hnot : q.pane ∉ w.keys := fun hin => hmiss ⟨halive, r, k, i, w, hr, hfind, hk, hin⟩
        have howner : (w.edit i (Session.answer q.pane)).owner q.pane =
            none := by
          rw [owner_edit w i (f := Session.answer q.pane) fun _ => rfl]
          cases ho : w.owner q.pane with
          | none => rfl
          | some j =>
            obtain ⟨s, hs, hin⟩ := Window.owner_some ho
            exact absurd (List.mem_flatMap.mpr ⟨s, List.mem_of_getElem? hs, hin⟩) hnot
        have hsame : closed (w.edit i (Session.answer q.pane)) q.pane d
            a.nextRef = w.edit i (Session.answer q.pane) := by
          unfold closed
          rw [howner]
        have hcount := keys_modify hk (fun w => closed (w.edit i (Session.answer q.pane)) q.pane d a.nextRef) q.pane
        rw [hsame, (Window.shaped_edit w i (Session.shape_answer q.pane)).keys] at hcount
        exact Nat.add_right_cancel hcount
  obtain hin | hin := List.mem_append.mp hin
  · refine List.mem_append_left _ ?_
    show q.pane ∈ (a.reply n (some d)).windows.flatMap Window.keys
    rw [← List.count_pos_iff, hkeys]
    exact List.count_pos_iff.mpr hin
  · refine List.mem_append_right _ ?_
    show q.pane ∈ (a.reply n (some d)).closedWindows.flatMap WindowSnapshot.leaves
    rw [reply_parked]
    exact hin

theorem deadline_settles_iff (d : Nat) :
    Settles a ((a.apply (.reply n (some d))).sweep) q (some d) ↔ a.Reaches q (some d) := by
  constructor
  · intro h hin
    by_contra hmiss
    exact (h hin).gone (reply_misses hq hmiss hin)
  · intro h hin
    obtain ⟨halive, r, k, i, w, hr, hfind, hk, hpane⟩ := h hin
    exact reply_takes_effect ha hq halive hr hfind hk hpane

/-! ## A failure -/

omit ha hq in
theorem failure_same_layout (a : App) (n : Nat) : SameLayout a ((a.apply (.reply n none)).sweep) := by
  refine ⟨?_, reply_parked a n none⟩
  show (a.reply n none).windows.map Window.layout = _
  obtain h | ⟨q', k, i, -, -, -, h⟩ := reply_windows a n none
  · rw [h]
  · rw [h]
    refine map_modify_of_eq (fun w => ?_) k a.windows
    have hmap := map_modify_of_eq (f := Session.answer q'.pane) (g := fun s => s.setClosing []) (fun _ => rfl) i w.sessions
    show (w.edit i _).setSessions ((w.sessions.modify i _).map _) = w.setSessions (w.sessions.map _)
    rw [hmap]
    rfl

/-- A window after a failure: the session that started the close no longer waits. -/
theorem failure_get {k i : Nat} {w : Window} {s : Session} (hk : a.windows[k]? = some w)
    (hi : w.sessions[i]? = some s) :
    ∃ w' s', ((a.apply (.reply n none)).sweep).windows[k]? = some w' ∧ w'.sessions[i]? = some s' ∧
      w'.owner q.pane = w.owner q.pane ∧
      (s'.closingPanes = if q.session = some s.ref ∧ q.alive = true then s.closingPanes.filter fun x => !(x == q.pane)
        else s.closingPanes) := by
  have hown : ∀ j, (w.edit j (Session.answer q.pane)).owner q.pane = w.owner q.pane := fun j =>
    owner_edit w j (f := Session.answer q.pane) (fun _ => rfl) q.pane
  by_cases hstart : q.session = some s.ref ∧ q.alive = true
  · have hwin : (a.reply n none).windows = a.windows.modify k fun w => w.edit i (Session.answer q.pane) :=
      reply_found hq (by rw [hstart.1, Option.bind_some, find_eq ha hk hi]) hstart.2 none
    refine ⟨w.edit i (Session.answer q.pane), s.answer q.pane, ?_, Window.get_edit hi _, hown i, ?_⟩
    · show (a.reply n none).windows[k]? = _
      rw [hwin, List.getElem?_modify, hk]
      exact congrArg some (if_pos rfl)
    · rw [if_pos hstart]
      rfl
  · rw [if_neg hstart]
    obtain h | ⟨q', k', i', hq', hfind, halive, h⟩ := reply_windows a n none
    · exact ⟨w, s, (congrArg (fun l : List Window => l[k]?) h).trans hk, hi, rfl, rfl⟩
    · rw [hq] at hq'
      cases hq'
      obtain ⟨r, hr, hfind⟩ := Option.bind_eq_some_iff.mp hfind
      obtain ⟨v, t, hv, ht, href⟩ := find_some hfind
      have hwin : ((a.apply (.reply n none)).sweep).windows[k]? =
          some (if k' = k then w.edit i' (Session.answer q.pane) else w) := by
        show (a.reply n none).windows[k]? = _
        rw [h, List.getElem?_modify, hk]
        rfl
      by_cases hkk : k' = k
      · subst hkk
        have hii : i ≠ i' := by
          intro he
          subst he
          rw [hk] at hv
          cases hv
          rw [hi] at ht
          cases ht
          exact hstart ⟨href ▸ hr, halive⟩
        rw [if_pos rfl] at hwin
        exact ⟨_, s, hwin, (Window.get_edit_ne w hii _).trans hi, hown i', rfl⟩
      · rw [if_neg hkk] at hwin
        exact ⟨w, s, hwin, hi, rfl, rfl⟩

theorem failure_settles_iff :
    Settles a ((a.apply (.reply n none)).sweep) q none ↔ a.Reaches q none := by
  have hsame := failure_same_layout a n
  constructor
  · rintro ⟨-, hsend⟩ w hw s hs hin hclosing
    obtain ⟨k, hk⟩ := List.getElem?_of_mem hw
    obtain ⟨i, hi⟩ := List.getElem?_of_mem hs
    obtain ⟨w', s', hk', hi', hown, hcl⟩ := failure_get ha hq hk hi
    have ho : w'.owner q.pane = some i := hown.trans (Window.owner_eq (ha.window_keys hw) hi hin)
    obtain ⟨t, ht, hint⟩ := Window.owner_some ho
    have hsends := hsend k w' hk' (List.mem_flatMap.mpr ⟨t, List.mem_of_getElem? ht, hint⟩)
    have hnot := (sends_iff hk' ho hi').mp hsends
    by_contra hstart
    rw [hcl, if_neg hstart] at hnot
    exact hnot hclosing
  · intro h
    refine ⟨hsame, fun k w' hk' hin => ?_⟩
    have hget := congrArg (fun l : List Window => l[k]?) hsame.1
    simp only [List.getElem?_map, hk', Option.map_some] at hget
    obtain ⟨w, hk, hlayout⟩ := Option.map_eq_some_iff.mp hget.symm
    have hkeys : ∀ v : Window, v.layout.keys = v.keys := fun v => by
      show (v.sessions.map fun s => s.setClosing []).flatMap Session.keys = _
      rw [List.flatMap_map]
      rfl
    rw [← hkeys, ← hlayout, hkeys] at hin
    obtain ⟨s, hs, hins⟩ := List.mem_flatMap.mp hin
    obtain ⟨i, hi⟩ := List.getElem?_of_mem hs
    obtain ⟨w'', s', hk'', hi', hown, hcl⟩ := failure_get ha hq hk hi
    rw [hk'] at hk''
    cases hk''
    have ho := Window.owner_eq (ha.window_keys (List.mem_of_getElem? hk)) hi hins
    refine (sends_iff hk' (hown.trans ho) hi').mpr ?_
    rw [hcl]
    split
    · simp
    · rename_i hstart
      exact fun hclosing => hstart (h w (List.mem_of_getElem? hk) s hs hins hclosing)

end

/-! ## Every reply of every run -/

theorem reply_settles_iff {run : List Op} {a : App} (h : exec step init run = some a)
    (hm : Meets step (fun a op => a.bringsNew op = true) init run) {n : Nat} {q : Request}
    (hq : a.requests[n]? = some q) {reply : Option Nat} {a' : App} (hs : a.step (.reply n reply) = some a') :
    Settles a a' q reply ↔ a.Reaches q reply := by
  have ha := exec_inv h hm
  obtain ⟨-, rfl⟩ := step_some hs
  cases reply with
  | some d => exact deadline_settles_iff ha hq d
  | none => exact failure_settles_iff ha hq

/-- A pane is closed, moves to another session of its window, and is closed there too. -/
def movedClose : List Op :=
  [.newWindow 0 1, .window 0 (.split none 2 .horizontal false false .inherit), .window 0 (.newSession 3 .inherit),
    .window 0 (.selectSession 0), .closePane 0 2, .window 0 (.movePane 1), .closePane 0 2]

theorem reply_settles_iff_moved : ∃ a a' q, exec step init movedClose = some a ∧ a.requests[0]? = some q ∧
    a.step (.reply 0 (some 60)) = some a' ∧ Settles a a' q (some 60) := by
  have hs : exec step init movedClose = some ((exec step init movedClose).get (by decide)) := (Option.some_get _).symm
  exact ⟨_, _, _, hs, rfl, rfl, (reply_settles_iff hs (by decide) rfl rfl).mpr fun _ => ⟨rfl, 0, 0, 0, _, rfl, rfl, rfl, by decide⟩⟩

/-- The session the close started from is gone when the reply comes. -/
def orphanedClose : List Op :=
  [.newWindow 0 1, .window 0 (.newSession 2 .inherit), .window 0 (.selectSession 0), .closePane 0 1,
    .window 0 (.movePane 1)]

theorem confirmed_close_lost : ¬ ∀ (run : List Op) (a a' : App) (n : Nat) (q : Request) (reply : Option Nat),
    exec step init run = some a → a.requests[n]? = some q → a.step (.reply n reply) = some a' →
    Settles a a' q reply := by
  intro h
  have hs : exec step init orphanedClose = some ((exec step init orphanedClose).get (by decide)) :=
    (Option.some_get _).symm
  have hset := h _ _ _ 0 _ (some 60) hs rfl rfl
  have heff := hset (by decide)
  exact absurd heff.gone (by decide)


end App

end Mux.Tiling
