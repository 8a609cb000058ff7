import Mux.PrefixEngine
import Mathlib.Data.List.Basic

/-!
# A mode is where its window shows it

In every run the window that a mode was entered in shows exactly this mode and gets the keys, and no other window shows
anything of one, except a canvas that is on its way out and will be taken down.
-/

namespace Mux.PrefixEngine

open Lib

/-! ## What a window shows -/

/-- The canvas is up while it is open or closing, and a closing one has its teardown to come. -/
structure Window.Fades (w : Window) : Prop where
  up : w.canvas = (w.canvasOpen || w.canvasClosing)
  apart : w.canvasOpen = true → w.canvasClosing = false
  scheduled : w.canvasClosing = true → 0 < w.teardowns

/-- Nothing of a mode. -/
structure Window.Clean (w : Window) : Prop where
  modeBar : w.modeBar = none
  helpOverlay : w.helpOverlay = false
  hostsWindow : w.hostsWindow = false
  paneTags : w.paneTags = false
  resizeOutline : w.resizeOutline = false
  canvasOpen : w.canvasOpen = false

structure Window.Shows (w : Window) (m : Mode) : Prop where
  modeBar : w.modeBar = some m
  helpOverlay : w.helpOverlay = (m == .help)
  hostsWindow : w.hostsWindow = (m == .hosts || m == .hostsTemplate)
  pickingTemplate : w.hostsWindow = true → w.pickingTemplate = (m == .hostsTemplate)
  paneTags : w.paneTags = (m == .prefixMode)
  resizeOutline : w.resizeOutline = true → m = .resize
  canvasOpen : w.canvasOpen = (m == .canvas)

theorem fades_new : Window.new.Fades where
  up := rfl
  apart h := by cases h
  scheduled h := by cases h

theorem clean_new : Window.new.Clean := ⟨rfl, rfl, rfl, rfl, rfl, rfl⟩

theorem fades_hide {w : Window} (h : w.Fades) : w.hideCanvasOverlay.Fades ∧ w.hideCanvasOverlay.canvasOpen = false := by
  unfold Window.hideCanvasOverlay
  split
  · rename_i hup
    rw [Bool.and_eq_true] at hup
    exact ⟨⟨by simpa using hup.1, fun hc => (by cases hc), fun _ => Nat.succ_pos _⟩, rfl⟩
  · rename_i hup
    refine ⟨h, ?_⟩
    cases ho : w.canvasOpen with
    | false => rfl
    | true =>
      have hcanvas := h.up
      have hclosing := h.apart ho
      rw [ho, Bool.true_or] at hcanvas
      simp [hcanvas, hclosing] at hup

theorem fades_dismiss {w : Window} (h : w.Fades) : w.dismissAllChrome.Fades where
  up := (fades_hide h).1.up
  apart := (fades_hide h).1.apart
  scheduled := (fades_hide h).1.scheduled

theorem clean_dismiss {w : Window} (h : w.Fades) : w.dismissAllChrome.Clean :=
  ⟨rfl, rfl, rfl, rfl, rfl, (fades_hide h).2⟩

theorem fades_put {w : Window} (h : w.Fades) (focusedPane : Bool) (m : Mode) : (w.put focusedPane m).Fades := by
  cases m with
  | canvas => exact ⟨rfl, fun _ => rfl, fun hc => (by cases hc)⟩
  | _ => exact ⟨h.up, h.apart, h.scheduled⟩

theorem shows_put {w : Window} (h : w.Clean) (focusedPane : Bool) {m : Mode} (hm : m ≠ .normal) :
    (w.put focusedPane m).Shows m := by
  obtain ⟨_, hhelp, hhosts, htags, houtline, hopen⟩ := h
  cases m with
  | normal => exact absurd rfl hm
  | _ => constructor <;> simp [Window.put, Window.showCanvasOverlay, hhelp, hhosts, htags, houtline, hopen]

theorem fades_teardown {w : Window} (h : w.Fades) : w.teardown.Fades := by
  unfold Window.teardown
  simp only
  split
  · rename_i hc
    simp only [Bool.and_eq_true, Bool.not_eq_true'] at hc
    exact ⟨by simp [hc.1], fun _ => rfl, fun hx => (by cases hx)⟩
  · rename_i hc
    refine ⟨h.up, h.apart, fun hclosing => ?_⟩
    have hclosing : w.canvasClosing = true := hclosing
    have hclosed : w.canvasOpen = false := by
      cases ho : w.canvasOpen with
      | false => rfl
      | true =>
        have := h.apart ho
        rw [hclosing] at this
        cases this
    simp [hclosed, hclosing] at hc

theorem teardown_shown (w : Window) : ∃ closing canvas n,
    w.teardown = { w with canvasClosing := closing, canvas := canvas, teardowns := n } := by
  unfold Window.teardown
  simp only
  split
  · exact ⟨_, _, _, rfl⟩
  · exact ⟨w.canvasClosing, w.canvas, _, rfl⟩

theorem clean_teardown {w : Window} (h : w.Clean) : w.teardown.Clean := by
  obtain ⟨closing, canvas, n, heq⟩ := teardown_shown w
  rw [heq]
  exact ⟨h.modeBar, h.helpOverlay, h.hostsWindow, h.paneTags, h.resizeOutline, h.canvasOpen⟩

theorem shows_teardown {w : Window} {m : Mode} (h : w.Shows m) : w.teardown.Shows m := by
  obtain ⟨closing, canvas, n, heq⟩ := teardown_shown w
  rw [heq]
  exact ⟨h.modeBar, h.helpOverlay, h.hostsWindow, h.pickingTemplate, h.paneTags, h.resizeOutline, h.canvasOpen⟩

theorem clean_hide {w : Window} (hf : w.Fades) (h : w.Clean) : w.hideCanvasOverlay.Clean := by
  have hopen := (fades_hide hf).2
  unfold Window.hideCanvasOverlay at hopen ⊢
  split
  · exact ⟨h.modeBar, h.helpOverlay, h.hostsWindow, h.paneTags, h.resizeOutline, rfl⟩
  · exact h

theorem theme_shown (w : Window) (focusedPane : Bool) : ∃ outline,
    w.theme focusedPane = { w with resizeOutline := outline } ∧ (outline = true → w.resizeOutline = true) := by
  unfold Window.theme
  split
  · rename_i h
    exact ⟨focusedPane, rfl, fun _ => h⟩
  · exact ⟨w.resizeOutline, rfl, id⟩

/-! ## What is kept -/

/-- The window of the mode. -/
structure Owner (s : State) (i : Nat) (w : Window) : Prop where
  isOpen : w.isOpen = true
  key : s.key = some i
  mode : s.mode ≠ .normal
  shows : w.Shows s.mode

/-- What holds also while the mode is being left. -/
structure Kept (s : State) : Prop where
  fades : ∀ (i : Nat) (w : Window), s.windows[i]? = some w → w.Fades
  others : ∀ (i : Nat) (w : Window), s.windows[i]? = some w → s.modeController ≠ some i → w.Clean
  keys : ∀ i, s.key = some i → ∃ w, s.windows[i]? = some w ∧ w.isOpen = true

structure Inv (s : State) : Prop extends Kept s where
  owner : ∀ i, s.modeController = some i → ∃ w, s.windows[i]? = some w ∧ Owner s i w
  normal : s.modeController = none → s.mode = .normal

theorem inv_init : Inv init where
  fades i w hw := by simp [init] at hw
  others i w hw := by simp [init] at hw
  keys i hi := by cases hi
  owner i hi := by cases hi
  normal _ := rfl

/-! ## Changes of the mode -/

/-- One window is changed, in what does not show or with a look at what does. -/
theorem kept_modify {s : State} {i : Nat} {f : Window → Window} (h : Kept s)
    (hfades : ∀ w : Window, w.Fades → (f w).Fades)
    (hclean : ∀ w : Window, w.Fades → w.Clean → (f w).Clean) (hopen : ∀ w : Window, (f w).isOpen = w.isOpen) :
    Kept (s.modify i f) where
  fades j w hw := by
    obtain ⟨x, hx, hw⟩ := getElem?_modify_some_iff.mp hw
    split at hw
    · exact hw ▸ hfades x (h.fades j x hx)
    · exact hw ▸ h.fades j x hx
  others j w hw hj := by
    obtain ⟨x, hx, hw⟩ := getElem?_modify_some_iff.mp hw
    have hclear := h.others j x hx hj
    split at hw
    · exact hw ▸ hclean x (h.fades j x hx) hclear
    · exact hw ▸ hclear
  keys j hj := by
    obtain ⟨x, hx, ho⟩ := h.keys j hj
    refine ⟨_, getElem?_modify_some_iff.mpr ⟨x, hx, rfl⟩, ?_⟩
    split
    · rw [hopen, ho]
    · exact ho

theorem isOpen_hide (w : Window) : w.hideCanvasOverlay.isOpen = w.isOpen := by
  unfold Window.hideCanvasOverlay
  split <;> rfl

theorem isOpen_dismiss (w : Window) : w.dismissAllChrome.isOpen = w.isOpen := isOpen_hide w

theorem kept_hide {s : State} (h : Kept s) (i : Nat) : Kept (s.modify i Window.hideCanvasOverlay) :=
  kept_modify h (fun _ hw => (fades_hide hw).1) (fun _ hf hc => clean_hide hf hc) isOpen_hide

structure Left (s s' : State) : Prop extends Inv s' where
  mode : s'.mode = .normal
  modeController : s'.modeController = none
  key : s'.key = s.key

theorem left_cancel {s : State} (h : Kept s) : Left s s.cancel := by
  cases ho : s.modeController with
  | none =>
    have heq : s.cancel = { s with mode := .normal, modeController := none } := by
      simp [State.cancel, State.setMode, ho]
    rw [heq]
    exact
      { fades := h.fades
        others := fun i w hw _ => h.others i w hw (by simp [ho])
        keys := h.keys
        owner := fun i hi => by cases hi
        normal := fun _ => rfl
        mode := rfl
        modeController := rfl
        key := rfl }
  | some o =>
    have heq : s.cancel =
        { s.modify o Window.dismissAllChrome with mode := .normal, modeController := none } := by
      simp [State.cancel, State.setMode, ho, State.modify]
    have hkept : Kept (s.modify o Window.dismissAllChrome) :=
      kept_modify h (fun _ hw => fades_dismiss hw) (fun _ hf _ => clean_dismiss hf) isOpen_dismiss
    rw [heq]
    refine
      { fades := hkept.fades
        others := ?_
        keys := hkept.keys
        owner := fun i hi => by cases hi
        normal := fun _ => rfl
        mode := rfl
        modeController := rfl
        key := rfl }
    intro i w hw _
    by_cases hi : i = o
    · -- The window of the mode: everything is taken down.
      subst hi
      obtain ⟨x, hx, hw⟩ := getElem?_modify_some_iff.mp hw
      rw [if_pos rfl] at hw
      exact hw ▸ clean_dismiss (h.fades i x hx)
    · exact hkept.others i w hw (by simpa [State.modify, ho] using Ne.symm hi)

theorem enter_eq (s : State) (w : Nat) (env : Env) {m : Mode} (hm : m ≠ .normal) : enter s w env m =
    ({ s.cancel with mode := m, modeController := some w } : State).modify w fun x => x.put env.focusedPane m := by
  cases ho : s.modeController <;> simp [enter, State.setMode, State.cancel, ho, hm, State.modify]

theorem inv_enter {s : State} {w : Nat} (h : Kept s) (hkey : s.key = some w) (env : Env) {m : Mode}
    (hm : m ≠ .normal) : Inv (enter s w env m) := by
  have hleft := left_cancel h
  have hclean : ∀ (i : Nat) (x : Window), s.cancel.windows[i]? = some x → x.Clean := fun i x hx =>
    hleft.others i x hx (by simp [hleft.modeController])
  have hisOpen (x : Window) : (x.put env.focusedPane m).isOpen = x.isOpen := by
    cases m <;> rfl
  rw [enter_eq s w env hm]
  refine { fades := ?_, others := ?_, keys := ?_, owner := ?_, normal := fun hn => by cases hn }
  · intro i y hy
    obtain ⟨x, hx, hy⟩ := getElem?_modify_some_iff.mp hy
    split at hy
    · exact hy ▸ fades_put (hleft.fades i x hx) _ _
    · exact hy ▸ hleft.fades i x hx
  · intro i y hy hi
    obtain ⟨x, hx, hy⟩ := getElem?_modify_some_iff.mp hy
    have hne : ¬w = i := fun heq => hi (heq ▸ rfl)
    rw [if_neg hne] at hy
    exact hy ▸ hclean i x hx
  · intro i hi
    obtain ⟨x, hx, ho⟩ := hleft.keys i hi
    refine ⟨_, getElem?_modify_some_iff.mpr ⟨x, hx, rfl⟩, ?_⟩
    split
    · rw [hisOpen, ho]
    · exact ho
  · intro i hi
    cases hi
    have hk : s.cancel.key = some w := hleft.key.trans hkey
    obtain ⟨x, hx, ho⟩ := hleft.keys w hk
    refine ⟨x.put env.focusedPane m, getElem?_modify_some_iff.mpr ⟨x, hx, by rw [if_pos rfl]⟩, ?_⟩
    exact ⟨(hisOpen x).trans ho, hk, hm, shows_put (hclean w x hx) _ hm⟩

/-! ## Windows that come and go -/

theorem inv_newWindow {s : State} (h : Kept s) : Inv s.newWindow := by
  have hleft := left_cancel h
  unfold State.newWindow
  refine { fades := ?_, others := ?_, keys := ?_, owner := ?_, normal := fun _ => hleft.mode }
  · intro i w hw
    rcases getElem?_snoc_some_iff.mp hw with hw | ⟨_, rfl⟩
    · exact hleft.fades i w hw
    · exact fades_new
  · intro i w hw hi
    rcases getElem?_snoc_some_iff.mp hw with hw | ⟨_, rfl⟩
    · exact hleft.others i w hw hi
    · exact clean_new
  · intro i hi
    cases hi
    exact ⟨Window.new, getElem?_snoc_some_iff.mpr (.inr ⟨rfl, rfl⟩), rfl⟩
  · intro i hi
    simp only [hleft.modeController] at hi
    cases hi

theorem inv_closeWindow {s : State} (h : Kept s) (i : Nat) : Inv (s.closeWindow i) := by
  have hleft := left_cancel h
  have hshown (w : Window) (hw : w.Clean) : Window.Clean { w with isOpen := false } :=
    ⟨hw.modeBar, hw.helpOverlay, hw.hostsWindow, hw.paneTags, hw.resizeOutline, hw.canvasOpen⟩
  unfold State.closeWindow
  refine { fades := ?_, others := ?_, keys := ?_, owner := ?_, normal := fun _ => hleft.mode }
  · intro j w hw
    obtain ⟨x, hx, hw⟩ := getElem?_modify_some_iff.mp hw
    have hf := hleft.fades j x hx
    split at hw
    · exact hw ▸ ⟨hf.up, hf.apart, hf.scheduled⟩
    · exact hw ▸ hf
  · intro j w hw hj
    obtain ⟨x, hx, hw⟩ := getElem?_modify_some_iff.mp hw
    have hc := hleft.others j x hx hj
    split at hw
    · exact hw ▸ hshown x hc
    · exact hw ▸ hc
  · intro j hj
    have hj : (if s.cancel.key == some i then none else s.cancel.key) = some j := hj
    by_cases hkey : (s.cancel.key == some i) = true
    · rw [if_pos hkey] at hj
      cases hj
    · rw [if_neg hkey] at hj
      obtain ⟨x, hx, ho⟩ := hleft.keys j hj
      have hij : ¬i = j := by
        intro heq
        simp [hj, heq] at hkey
      exact ⟨x, getElem?_modify_some_iff.mpr ⟨x, hx, by rw [if_neg hij]⟩, ho⟩
  · intro j hj
    simp only [State.modify, hleft.modeController] at hj
    cases hj

theorem inv_theme {s : State} (h : Inv s) (focusedPane : Bool) :
    Inv { s with windows := s.windows.map fun w => w.theme focusedPane } := by
  have hget {i : Nat} {w : Window} (hw : (s.windows.map fun w => w.theme focusedPane)[i]? = some w) :
      ∃ x outline, s.windows[i]? = some x ∧ w = { x with resizeOutline := outline } ∧
        (outline = true → x.resizeOutline = true) := by
    rw [List.getElem?_map] at hw
    obtain ⟨x, hx, rfl⟩ := Option.map_eq_some_iff.mp hw
    obtain ⟨outline, heq, hout⟩ := theme_shown x focusedPane
    exact ⟨x, outline, hx, heq, hout⟩
  have hput {i : Nat} {x : Window} (hx : s.windows[i]? = some x) :
      (s.windows.map fun w => w.theme focusedPane)[i]? = some (x.theme focusedPane) := by
    rw [List.getElem?_map, hx, Option.map_some]
  refine { fades := ?_, others := ?_, keys := ?_, owner := ?_, normal := h.normal }
  · intro i w hw
    obtain ⟨x, outline, hx, rfl, _⟩ := hget hw
    exact ⟨(h.fades i x hx).up, (h.fades i x hx).apart, (h.fades i x hx).scheduled⟩
  · intro i w hw hi
    obtain ⟨x, outline, hx, rfl, hout⟩ := hget hw
    have hc := h.others i x hx hi
    have hoff : outline = false := by
      cases outline with
      | false => rfl
      | true =>
        have := hout rfl
        rw [hc.resizeOutline] at this
        cases this
    exact ⟨hc.modeBar, hc.helpOverlay, hc.hostsWindow, hc.paneTags, hoff, hc.canvasOpen⟩
  · intro i hi
    obtain ⟨x, hx, ho⟩ := h.keys i hi
    obtain ⟨outline, heq, _⟩ := theme_shown x focusedPane
    exact ⟨_, hput hx, by rw [heq]; exact ho⟩
  · intro i hi
    obtain ⟨x, hx, howner⟩ := h.owner i hi
    obtain ⟨outline, heq, hout⟩ := theme_shown x focusedPane
    refine ⟨_, hput hx, ?_⟩
    rw [heq]
    have hs := howner.shows
    exact ⟨howner.isOpen, howner.key, howner.mode, ⟨hs.modeBar, hs.helpOverlay, hs.hostsWindow, hs.pickingTemplate,
      hs.paneTags, fun ho => hs.resizeOutline (hout ho), hs.canvasOpen⟩⟩

theorem inv_teardown {s : State} (h : Inv s) (i : Nat) : Inv (s.modify i Window.teardown) := by
  have hopen (w : Window) : w.teardown.isOpen = w.isOpen := by
    obtain ⟨closing, canvas, n, heq⟩ := teardown_shown w
    rw [heq]
  have hkept := kept_modify (i := i) h.toKept (fun _ hw => fades_teardown hw) (fun _ _ hc => clean_teardown hc) hopen
  refine { hkept with owner := ?_, normal := h.normal }
  intro j hj
  obtain ⟨x, hx, howner⟩ := h.owner j hj
  refine ⟨_, getElem?_modify_some_iff.mpr ⟨x, hx, rfl⟩, ?_⟩
  split
  · exact ⟨(hopen x).trans howner.isOpen, howner.key, howner.mode, shows_teardown howner.shows⟩
  · exact ⟨howner.isOpen, howner.key, howner.mode, howner.shows⟩

/-! ## Keys -/

theorem mode_of_prefixModes {key : String} {m : Mode} (h : prefixModes.lookup key = some m) : m ≠ .normal := by
  obtain ⟨before, after, heq, _⟩ := List.lookup_eq_some_iff.mp h
  have hin : (key, m) ∈ prefixModes := heq ▸ List.mem_append_right _ (.head _)
  rintro rfl
  simp [prefixModes] at hin

section
variable {s : State} {w : Nat}

theorem inv_runPrefixAction (h : Inv s) (hkey : s.key = some w) (env : Env) (key : String) :
    Inv (runPrefixAction s w env key).state := by
  unfold runPrefixAction
  split
  · exact h
  · split
    · rename_i hm
      exact inv_enter h.toKept hkey env (mode_of_prefixModes hm)
    · split <;> exact h

theorem inv_handleResizeKey (h : Inv s) (hkey : s.key = some w) (env : Env) (key : String) :
    Inv (handleResizeKey s w env key).state := by
  have hleft := (left_cancel h.toKept).toInv
  unfold handleResizeKey
  split
  · exact h
  · split
    · exact hleft
    · split
      · exact hleft
      · split
        · exact inv_enter (m := .help) h.toKept hkey env (by simp)
        · split
          · exact hleft
          · exact h

theorem inv_handleCanvasKey (h : Inv s) (env : Env) (e : KeyEvent) : Inv (handleCanvasKey s w env e).state := by
  have hleft := (left_cancel h.toKept).toInv
  unfold handleCanvasKey
  split
  · exact h
  · split
    · exact h
    · split
      · -- The jump takes the canvas down before the mode does.
        cases env.selection with
        | false => exact hleft
        | true => exact (left_cancel (kept_hide h.toKept w)).toInv
      · split
        · exact hleft
        · exact h

theorem inv_handleHostsKey (h : Inv s) (hkey : s.key = some w) (env : Env) (key : String) (control : Bool) :
    Inv (handleHostsKey s w env key control).state := by
  have hleft := (left_cancel h.toKept).toInv
  unfold handleHostsKey
  split
  · split
    · exact hleft
    · exact h
  · split
    · exact h
    · split
      · exact hleft
      · split
        · exact h
        · split
          · exact inv_enter (m := .hostsTemplate) h.toKept hkey env (by simp)
          · split
            · exact inv_enter (m := .help) h.toKept hkey env (by simp)
            · split
              · exact hleft
              · exact h

theorem inv_handleTemplateKey (h : Inv s) (hkey : s.key = some w) (env : Env) (key : String) :
    Inv (handleTemplateKey s w env key).state := by
  unfold handleTemplateKey
  split
  · exact h
  · split
    · exact inv_enter (m := .hosts) h.toKept hkey env (by simp)
    · split
      · exact inv_enter (m := .hosts) h.toKept hkey env (by simp)
      · exact h

theorem inv_handle (h : Inv s) (hkey : s.key = some w) (env : Env) (e : KeyEvent) : Inv (handle s w env e).state := by
  have hleft := left_cancel h.toKept
  unfold handle
  split
  · exact hleft.toInv
  · cases s.mode with
    | normal =>
      simp only
      split
      · exact inv_enter (m := .prefixMode) h.toKept hkey env (by simp)
      · exact h
    | prefixMode =>
      simp only
      split
      · exact hleft.toInv
      · exact inv_runPrefixAction hleft.toInv (hleft.key.trans hkey) env _
    | resize => exact inv_handleResizeKey h hkey env _
    | help => exact hleft.toInv
    | canvas => exact inv_handleCanvasKey h env e
    | hosts => exact inv_handleHostsKey h hkey env _ _
    | hostsTemplate => exact inv_handleTemplateKey h hkey env _

theorem inv_press (h : Inv s) (hkey : s.key = some w) (env : Env) (e : KeyEvent) : Inv (press s w env e).state := by
  have hleft := (left_cancel h.toKept).toInv
  unfold press
  split
  · exact hleft
  · split
    · exact hleft
    · exact inv_newWindow h.toKept
    · split
      · exact inv_newWindow h.toKept
      · exact h
    · exact inv_closeWindow h.toKept w
    · split
      · split
        · exact hleft
        · exact h
      · split
        · exact hleft
        · exact inv_handle h hkey env e

end

/-! ## What the terminal gets -/

theorem mode_cancel (s : State) : s.cancel.mode = .normal := by
  unfold State.cancel State.setMode
  cases s.modeController <;> rfl

section
variable (s : State) (w : Nat) (env : Env)

theorem passes_runPrefixAction (key : String) : (runPrefixAction s w env key).passes = false := by
  unfold runPrefixAction
  repeat' split
  all_goals rfl

theorem passes_handleResizeKey (key : String) : (handleResizeKey s w env key).passes = false := by
  unfold handleResizeKey
  repeat' split
  all_goals rfl

theorem passes_handleCanvasKey (e : KeyEvent) : (handleCanvasKey s w env e).passes = false := by
  unfold handleCanvasKey
  repeat' split
  all_goals rfl

theorem passes_handleHostsKey (key : String) (control : Bool) :
    (handleHostsKey s w env key control).passes = false := by
  unfold handleHostsKey
  repeat' split
  all_goals rfl

theorem passes_handleTemplateKey (key : String) : (handleTemplateKey s w env key).passes = false := by
  unfold handleTemplateKey
  repeat' split
  all_goals rfl

end

theorem passes_handle {s : State} {w : Nat} {env : Env} {e : KeyEvent} (h : (handle s w env e).passes = true) :
    (handle s w env e).state.mode = .normal ∧ (handle s w env e).actions = [] ∧
      (s.mode = .normal ∨ s.mode = .prefixMode ∧ e.control = true ∧ e.characters = "b") := by
  unfold handle at h ⊢
  split at h
  · cases h
  · cases hm : s.mode with
    | normal =>
      simp only [hm] at h ⊢
      split at h
      · cases h
      · rename_i hnot
        rw [if_neg hnot]
        exact ⟨hm, rfl, .inl trivial⟩
    | prefixMode =>
      simp only [hm] at h ⊢
      split at h
      · rename_i hb
        rw [if_pos hb]
        rw [Bool.and_eq_true, beq_iff_eq] at hb
        exact ⟨mode_cancel s, rfl, .inr ⟨trivial, hb⟩⟩
      · rw [passes_runPrefixAction] at h
        cases h
    | resize =>
      simp only [hm, passes_handleResizeKey] at h
      cases h
    | help =>
      simp only [hm] at h
      cases h
    | canvas =>
      simp only [hm, passes_handleCanvasKey] at h
      cases h
    | hosts =>
      simp only [hm, passes_handleHostsKey] at h
      cases h
    | hostsTemplate =>
      simp only [hm, passes_handleTemplateKey] at h
      cases h

theorem passes_press {s : State} {w : Nat} {env : Env} {e : KeyEvent} (h : (press s w env e).passes = true) :
    (press s w env e).state.mode = .normal ∧ (press s w env e).actions = [] ∧
      (cyclesWindows e = true ∨ s.mode = .normal ∨ s.mode = .prefixMode ∧ e.control = true ∧ e.characters = "b") := by
  unfold press at h ⊢
  split
  · rename_i hc
    exact ⟨mode_cancel s, rfl, .inl hc⟩
  · rename_i hc
    rw [if_neg hc] at h
    cases hs : windowShortcut e with
    | some shortcut =>
      simp only [hs] at h
      cases shortcut with
      | moveSession =>
        simp only at h
        split at h <;> cases h
      | _ => cases h
    | none =>
      simp only [hs] at h ⊢
      split at h
      · split at h <;> cases h
      · rename_i hreopen
        rw [if_neg hreopen]
        split at h
        · cases h
        · rename_i hclose
          rw [if_neg hclose]
          obtain ⟨hmode, hactions, hcase⟩ := passes_handle h
          exact ⟨hmode, hactions, .inr hcase⟩

/-! ## Runs -/

theorem hide_of_closed {w : Window} (h : w.Fades) (ho : w.canvasOpen = false) : w.hideCanvasOverlay = w := by
  have hup := h.up
  rw [ho, Bool.false_or] at hup
  unfold Window.hideCanvasOverlay
  rw [hup]
  cases w.canvasClosing <;> rfl

theorem closed_of_mode {s : State} (h : Inv s) (hm : s.mode ≠ .canvas) {i : Nat} {w : Window}
    (hw : s.windows[i]? = some w) : w.canvasOpen = false := by
  by_cases hi : s.modeController = some i
  · obtain ⟨x, hx, howner⟩ := h.owner i hi
    rw [hw, Option.some.injEq] at hx
    subst hx
    rw [howner.shows.canvasOpen]
    simpa using hm
  · exact (h.others i w hw hi).canvasOpen

theorem inv_click {s : State} (h : Inv s) (i : Nat) (jump : Bool) :
    let s' := if jump then s.modify i Window.hideCanvasOverlay else s
    Inv (if s'.mode == .canvas then s'.cancel else s') := by
  intro s'
  have hkept : Kept s' := by
    cases jump with
    | false => exact h.toKept
    | true => exact kept_hide h.toKept i
  by_cases hm : s.mode = .canvas
  · have hm' : (s'.mode == Mode.canvas) = true := by
      cases jump <;> simp [s', State.modify, hm]
    rw [if_pos hm']
    exact (left_cancel hkept).toInv
  · -- No canvas is open, so there is none to hide.
    have hm' : ¬(s'.mode == Mode.canvas) = true := by
      cases jump <;> simp [s', State.modify, hm]
    rw [if_neg hm']
    cases jump with
    | false => exact h
    | true =>
      have hsame : s.windows.modify i Window.hideCanvasOverlay = s.windows := by
        refine List.ext_getElem? fun j => ?_
        rw [List.getElem?_modify]
        cases hw : s.windows[j]? with
        | none => rfl
        | some w =>
          have hid := hide_of_closed (h.fades j w hw) (closed_of_mode h hm hw)
          by_cases hij : i = j <;> simp [hij, hid]
      have hs : s' = s := by
        simp only [s', if_true, State.modify, hsame]
      rw [hs]
      exact h

theorem inv_step {s s' : State} {l : Label} (hs : step s l = some s') (h : Inv s) : Inv s' := by
  cases l with
  | newWindow =>
    cases hs
    exact inv_newWindow h.toKept
  | closeWindow i =>
    rw [step, Option.ite_none_right_eq_some] at hs
    cases hs.2
    exact inv_closeWindow h.toKept i
  | becomeKey i =>
    rw [step, Option.ite_none_right_eq_some, Bool.and_eq_true] at hs
    obtain ⟨⟨hkey, hopen⟩, hs⟩ := hs
    cases hs
    have hnone : s.key = none := Option.isNone_iff_eq_none.mp hkey
    refine { h with keys := ?_, owner := ?_ }
    · intro j hj
      cases hj
      cases hw : s.windows[i]? with
      | none => simp [hw] at hopen
      | some w => exact ⟨w, rfl, by simpa [hw] using hopen⟩
    · -- The window of a mode had the keys.
      intro j hj
      obtain ⟨_, _, howner⟩ := h.owner j hj
      have hkeys := howner.key
      rw [hnone] at hkeys
      cases hkeys
  | resignKey =>
    cases hs
    have hleft := left_cancel h.toKept
    refine { hleft.toInv with keys := fun i hi => (by cases hi), owner := ?_ }
    intro i hi
    rw [hleft.modeController] at hi
    cases hi
  | cancel =>
    cases hs
    exact (left_cancel h.toKept).toInv
  | press env e =>
    obtain ⟨w, hkey, hs⟩ := Option.map_eq_some_iff.mp hs
    exact hs ▸ inv_press h hkey env e
  | click i jump =>
    rw [step, Option.ite_none_right_eq_some] at hs
    cases hs.2
    exact inv_click h i jump
  | theme focusedPane =>
    cases hs
    exact inv_theme h focusedPane
  | teardown i =>
    rw [step, Option.ite_none_right_eq_some] at hs
    cases hs.2
    exact inv_teardown h i

theorem inv_run {run : List Label} {s : State} (h : exec step init run = some s) : Inv s :=
  exec_inv (I := Inv) (fun _ _ _ hs hi => inv_step hs hi) h inv_init

/-- In every run: the window a mode was entered in is open, has the keys and shows this mode and nothing else; any other
window shows nothing of a mode, and a canvas that is still up there is closing with its teardown to come. A key that
reaches the terminal leaves no mode behind, and comes in no mode, as the second prefix, or to cycle the windows. -/
theorem mode_is_shown_where_it_is {run : List Label} {s : State} (h : exec step init run = some s) :
    (∀ i, s.modeController = some i → ∃ w, s.windows[i]? = some w ∧ w.isOpen = true ∧ s.key = some i ∧
      s.mode ≠ .normal ∧ w.Shows s.mode) ∧
    (s.modeController = none → s.mode = .normal) ∧
    (∀ i w, s.windows[i]? = some w → s.modeController ≠ some i → w.Clean ∧
      (w.canvas = true → w.canvasClosing = true ∧ 0 < w.teardowns)) ∧
    ∀ w env e, (press s w env e).passes = true → (press s w env e).state.mode = .normal ∧
      (press s w env e).actions = [] ∧ (cyclesWindows e = true ∨ s.mode = .normal ∨
        s.mode = .prefixMode ∧ e.control = true ∧ e.characters = "b") := by
  have hinv := inv_run h
  refine ⟨?_, hinv.normal, ?_, fun _ _ _ hp => passes_press hp⟩
  · intro i hi
    obtain ⟨w, hw, howner⟩ := hinv.owner i hi
    exact ⟨w, hw, howner.isOpen, howner.key, howner.mode, howner.shows⟩
  · intro i w hw hi
    have hclean := hinv.others i w hw hi
    refine ⟨hclean, fun hcanvas => ?_⟩
    have hup := (hinv.fades i w hw).up
    rw [hcanvas, hclean.canvasOpen, Bool.false_or] at hup
    exact ⟨hup.symm, (hinv.fades i w hw).scheduled hup.symm⟩

def plain (characters : String) (command control : Bool) : KeyEvent where
  characters := characters
  unmodified := characters
  command := command
  control := control
  option := false
  shift := false

/-- The canvas is opened and jumped from in one window, and before it has faded the prefix is pressed in another. -/
def fadeBehind : List Label :=
  let env : Env := { focusedPane := true, closedPanes := false, canMoveSession := false, selection := true }
  [.newWindow, .press env (plain "b" false true), .press env (plain "f" false false),
    .press env (plain "\r" false false), .newWindow, .press env (plain "b" false true)]

theorem mode_is_shown_where_it_is_fade_behind :
    ∃ s first second, exec step init fadeBehind = some s ∧ s.windows = [first, second] ∧ first.Clean ∧
      first.canvasClosing = true ∧ 0 < first.teardowns ∧ second.Shows .prefixMode := by
  obtain ⟨s, hs⟩ := Option.isSome_iff_exists.mp (show (exec step init fadeBehind).isSome = true by decide +kernel)
  have hmode : (exec step init fadeBehind).map (fun s => (s.modeController, s.mode, s.windows.length)) =
      some (some 1, .prefixMode, 2) := by
    decide +kernel
  have hcanvas : (exec step init fadeBehind).map (fun s => s.windows.map (·.canvas)) = some [true, false] := by
    decide +kernel
  rw [hs, Option.map_some, Option.some.injEq] at hmode hcanvas
  simp only [Prod.mk.injEq] at hmode
  obtain ⟨howner, hm, hlength⟩ := hmode
  obtain ⟨hshown, _, hothers, _⟩ := mode_is_shown_where_it_is hs
  obtain ⟨first, second, hwindows⟩ := List.length_eq_two.mp hlength
  rw [hwindows] at hcanvas
  simp only [List.map_cons, List.map_nil, List.cons.injEq, and_true] at hcanvas
  obtain ⟨hclean, hfade⟩ := hothers 0 first (by rw [hwindows]; rfl) (by rw [howner]; simp)
  obtain ⟨w, hw, _, _, _, hw'⟩ := hshown 1 howner
  have hsame : w = second := by
    rw [hwindows] at hw
    exact (Option.some.inj hw).symm
  rw [hm, hsame] at hw'
  exact ⟨s, first, second, hs, hwindows, hclean, (hfade hcanvas.1).1, (hfade hcanvas.1).2, hw'⟩

end Mux.PrefixEngine
