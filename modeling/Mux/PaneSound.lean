import Mux.ManagerLemmas
import Mux.Pane

/-!
# A relay that requires its terminal to exist

Whether an open may cancel a close is decided anew at each connection, from two flags of the
command line and from who asks. With `--require-existing` a relay asks for a reopen until an
open succeeds and for a plain attach from then on, and neither makes a daemon start a process.
-/

namespace Mux.Pane

open Lib

/-- What the relay will pass to `open_session` as `reopening` when it connects next. -/
def Phase.reopening : Phase → Option Bool
  | .dialing c | .asking c => some c.reopening
  | .checking reopening => some reopening
  | .entering | .pumping | .ended _ => some false
  | .exited _ => none

structure RequestInv (args : List String) (attach : Attach) (i : Image) : Prop where
  sameArgs : i.args = args
  sameAttach : i.attach = attach
  reopening : ∀ b, i.phase.reopening = some b → b = !i.opened
  sent : ∀ q ∈ i.sent, q.request.mode = if q.opened then .attach attach.name else .reopen attach.name
  opened : ∀ q ∈ i.sent, q.opened = true → i.opened = true
  ordered : i.sent.Pairwise fun q q' => q.opened = true → q'.opened = true

section
variable {args : List String} {attach : Attach} {i j : Image} {a : Label}

theorem main_eq (hp : parseArgs args = .ok attach) (currentAlias : String) (inherited : Bool) :
    main args currentAlias inherited = some ⟨args, attach, currentAlias,
      if inherited then .entering else .dialing .runAttach, inherited, false, [], false⟩ := by
  unfold main
  rw [hp]

theorem mode_openSession (hreq : attach.requireExisting = true) (size : UInt16 × UInt16) (term : Option String)
    (opened : Bool) :
    (openSession attach size term !opened).mode = if opened then .attach attach.name else .reopen attach.name := by
  cases opened <;> simp [openSession, hreq]

namespace RequestInv

/-- A step that sends nothing and does not change what is asked for next. -/
theorem quiet (hi : RequestInv args attach i) (hargs : j.args = i.args) (hattach : j.attach = i.attach)
    (hsent : j.sent = i.sent) (hopened : j.opened = i.opened)
    (hphase : ∀ b, j.phase.reopening = some b → i.phase.reopening = some b) : RequestInv args attach j where
  sameArgs := hargs.trans hi.sameArgs
  sameAttach := hattach.trans hi.sameAttach
  reopening := by
    intro b hb
    rw [hopened]
    exact hi.reopening b (hphase b hb)
  sent := by rw [hsent]; exact hi.sent
  opened := by rw [hsent, hopened]; exact hi.opened
  ordered := by rw [hsent]; exact hi.ordered

theorem openFailed (hi : RequestInv args attach i) {c : Caller} (hc : i.phase.reopening = some c.reopening) :
    RequestInv args attach (i.openFailed c) := by
  unfold Image.openFailed
  cases c with
  | runAttach =>
    by_cases he : i.attach.expectExisting = true
    · rw [if_pos he]
      exact hi.quiet rfl rfl rfl rfl fun b hb => hc.trans hb
    · rw [if_neg he]
      exact hi.quiet rfl rfl rfl rfl nofun
  | reconnect reopening => exact hi.quiet rfl rfl rfl rfl fun b hb => hc.trans hb

theorem openSucceeded (hi : RequestInv args attach i) : RequestInv args attach i.openSucceeded where
  sameArgs := hi.sameArgs
  sameAttach := hi.sameAttach
  reopening := fun _ hb => (Option.some.inj hb).symm
  sent := hi.sent
  opened := fun _ _ _ => rfl
  ordered := hi.ordered

theorem connect (hreq : attach.requireExisting = true) (hi : RequestInv args attach i) {stream : Bool}
    {size : UInt16 × UInt16} {term : Option String} (hs : i.connect stream size term = some j) :
    RequestInv args attach j := by
  unfold Image.connect at hs
  split at hs
  case h_2 => cases hs
  case h_1 c hc =>
    have hph : i.phase.reopening = some c.reopening := by rw [hc]; rfl
    have hb : c.reopening = !i.opened := hi.reopening c.reopening hph
    split at hs <;> cases hs
    · refine ⟨hi.sameArgs, hi.sameAttach, fun b h => (Option.some.inj h).symm.trans hb, fun q hq => ?_, fun q hq h => ?_, ?_⟩
      · rcases List.mem_append.mp hq with hq | hq
        · exact hi.sent q hq
        · cases List.mem_singleton.mp hq
          rw [hb, hi.sameAttach]
          exact mode_openSession hreq size term i.opened
      · rcases List.mem_append.mp hq with hq | hq
        · exact hi.opened q hq h
        · cases List.mem_singleton.mp hq
          exact h
      · refine List.pairwise_append.mpr ⟨hi.ordered, List.pairwise_singleton _ _, fun q hq q' hq' h => ?_⟩
        cases List.mem_singleton.mp hq'
        exact hi.opened q hq h
    · exact hi.openFailed hph

theorem read (hi : RequestInv args attach i) {frame : Option Frame} {stdout : Bool}
    (hs : i.read frame stdout = some j) : RequestInv args attach j := by
  unfold Image.read at hs
  split at hs
  · rename_i c hc
    split at hs <;> cases hs
    · exact hi.openSucceeded
    · exact hi.openFailed (by rw [hc]; rfl)
  · rename_i hp
    split at hs <;> cases hs
    · exact hi.quiet rfl rfl rfl rfl fun b hb => by rw [hp]; exact hb
    · exact hi
  · cases hs

theorem reexecAs (hp : parseArgs args = .ok attach) (hi : RequestInv args attach i) {ok : Bool}
    (hs : i.reexecAs ok = some j) : RequestInv args attach j := by
  unfold Image.reexecAs at hs
  split at hs
  case h_2 => cases hs
  case h_1 name hname =>
    cases ok with
    | false =>
      cases hs
      exact hi.quiet rfl rfl rfl rfl fun b hb => by rw [hname]; exact hb
    | true =>
      rw [if_pos rfl, hi.sameArgs, main_eq hp] at hs
      cases hs
      exact hi.quiet hi.sameArgs.symm hi.sameAttach.symm rfl rfl fun b hb => by rw [hname]; exact hb

theorem tryClone (hi : RequestInv args attach i) {ok : Bool} (hs : i.tryClone ok = some j) :
    RequestInv args attach j := by
  unfold Image.tryClone at hs
  split at hs <;> cases hs
  rename_i hph
  refine hi.quiet rfl rfl rfl rfl fun b hb => ?_
  cases ok
  · cases hb
  · rw [hph]
    exact hb

theorem relayLoop (hi : RequestInv args attach i) (hs : i.relayLoop = some j) : RequestInv args attach j := by
  unfold Image.relayLoop at hs
  split at hs <;> cases hs
  · exact hi.quiet rfl rfl rfl rfl nofun
  · rename_i hph
    refine hi.quiet rfl rfl rfl rfl fun b hb => ?_
    by_cases hc : i.stdinClosed = true
    · simp [hc, Phase.reopening] at hb
    · simp only [hc] at hb
      rw [hph]
      exact hb

theorem check (hi : RequestInv args attach i) (hs : i.check = some j) : RequestInv args attach j := by
  unfold Image.check at hs
  split at hs <;> cases hs
  rename_i reopening hph
  refine hi.quiet rfl rfl rfl rfl fun b hb => ?_
  by_cases hc : i.stdinClosed = true
  · simp [hc, Phase.reopening] at hb
  · simp only [hc] at hb
    rw [hph]
    exact hb

theorem stdinEof (hi : RequestInv args attach i) (hs : i.stdinEof = some j) : RequestInv args attach j := by
  unfold Image.stdinEof at hs
  split at hs <;> cases hs
  exact hi.quiet rfl rfl rfl rfl fun _ => id

theorem step (hp : parseArgs args = .ok attach) (hreq : attach.requireExisting = true)
    (hi : RequestInv args attach i) (hs : step i a = some j) : RequestInv args attach j := by
  cases a with
  | connect stream size term => exact hi.connect hreq hs
  | read frame stdout => exact hi.read hs
  | tryClone ok => exact hi.tryClone hs
  | relayLoop => exact hi.relayLoop hs
  | reexecAs ok => exact hi.reexecAs hp hs
  | check => exact hi.check hs
  | stdinEof => exact hi.stdinEof hs

end RequestInv

theorem requestInv_run (hp : parseArgs args = .ok attach) (hreq : attach.requireExisting = true)
    {currentAlias : String} {i₀ : Image} (h₀ : main args currentAlias false = some i₀) {tr : List Label}
    (h : exec step i₀ tr = some i) : RequestInv args attach i := by
  rw [main_eq hp] at h₀
  cases h₀
  refine exec_inv (fun _ _ _ hs hi => hi.step hp hreq hs) h ⟨rfl, rfl, fun b hb => (Option.some.inj hb).symm, ?_, ?_, ?_⟩
  · simp
  · simp
  · exact List.Pairwise.nil

end

/-! ## The daemon's side -/

/-- The steps of a daemon that `open_terminal` takes for a mode. `open_existing` takes two: the
session it finds in the table is checked when the table is free again. -/
def handles : OpenMode → Manager.Label → Prop
  | .openTerm name _ command _, .openTerm name' command' .. => name' = name ∧ command' = command
  | .reopen name, .reopen name' => name' = name
  | .attach name, .get name' => name' = name
  | .attach _, .checkExisting _ => True
  | _, _ => False

/-- No process was started and nothing was put into the table. -/
structure NothingNew {T : Type} (d d' : Manager.State T) : Prop where
  children : d'.cells.map (·.session.child) = d.cells.map (·.session.child)
  table : d'.ptys = d.ptys

/-- A reopen and an attach hand out the session that is in the table, or was when it was looked up. -/
structure Existing {T : Type} (d : Manager.State T) (name : String) : Prop where
  reopen : ∀ r created, (d.reopen name).1 = .ok (r, created) → created = false ∧ d.get name = some r
  attach : ∀ r r', d.checkExisting name r = .ok r' → r' = r

def deadlines {T : Type} (d : Manager.State T) : List (Option Nat) := d.cells.map (·.session.closeDeadline)

section
variable {T : Type} [Ghostty T] {d d' : Manager.State T} {a : Manager.Label} {name : String}

theorem map_modify {α β : Type} {f : α → α} {g : α → β} (h : ∀ x, g (f x) = g x) (l : List α) (n : Nat) :
    (l.modify n f).map g = l.map g := by
  refine List.ext_getElem? fun k => ?_
  rw [List.getElem?_map, List.getElem?_map, List.getElem?_modify]
  by_cases hk : n = k
  · subst hk
    cases l[n]? <;> simp [h]
  · simp [hk]

theorem nothingNew_reopen (ha : handles (.reopen name) a) (hs : Manager.step d a = some d') : NothingNew d d' := by
  cases a <;> try cases ha
  simp only [Manager.step, Manager.State.reopen, Option.some.injEq] at hs
  subst hs
  split
  · split
    · exact ⟨rfl, rfl⟩
    · refine ⟨?_, rfl⟩
      apply map_modify
      intro c
      rfl
  · exact ⟨rfl, rfl⟩

/-- An attach reads the table and a session of it, and writes neither. -/
theorem untouched_attach (ha : handles (.attach name) a) (hs : Manager.step d a = some d') :
    d'.cells = d.cells ∧ d'.ptys = d.ptys := by
  cases a <;> try cases ha
  · simp only [Manager.step, Option.map_eq_some_iff] at hs
    obtain ⟨r, -, rfl⟩ := hs
    exact ⟨rfl, rfl⟩
  · simp only [Manager.step] at hs
    split at hs <;> cases hs
    exact ⟨rfl, rfl⟩

omit [Ghostty T] in
theorem existing (d : Manager.State T) (name : String) : Existing d name where
  reopen := by
    intro r created h
    unfold Manager.State.reopen at h
    split at h
    · rename_i q hq
      split at h <;> cases h
      exact ⟨rfl, hq⟩
    · cases h
  attach := by
    intro r r' h
    unfold Manager.State.checkExisting at h
    split at h
    · split at h
      · cases h
      · split at h <;> cases h
        rfl
    · cases h

/-- With `--require-existing` every request is a reopen until the relay sees an open succeed and
an attach after it, whatever the connections, the daemons and the images in between. No step by
which a daemon handles one starts a process or adds to the table, an attach leaves every
deadline alone, and what either hands out was there before. -/
theorem require_existing_never_creates {args : List String} {attach : Attach} (hp : parseArgs args = .ok attach)
    (hreq : attach.requireExisting = true) {currentAlias : String} {i₀ i : Image}
    (h₀ : main args currentAlias false = some i₀) {tr : List Label} (h : exec step i₀ tr = some i) :
    (∀ q ∈ i.sent,
      q.request.mode = (if q.opened then .attach attach.name else .reopen attach.name) ∧
      ∀ (d d' : Manager.State T) (a : Manager.Label), handles q.request.mode a → Manager.step d a = some d' →
        NothingNew d d' ∧ (q.opened = true → deadlines d' = deadlines d)) ∧
    (i.sent.Pairwise fun q q' => q.opened = true → q'.opened = true) ∧
    ∀ d : Manager.State T, Existing d attach.name := by
  have hi := requestInv_run hp hreq h₀ h
  refine ⟨fun q hq => ⟨hi.sent q hq, fun d d' a ha hs => ?_⟩, hi.ordered, fun d => existing d attach.name⟩
  have hmode := hi.sent q hq
  cases ho : q.opened with
  | false =>
    rw [hmode, ho] at ha
    exact ⟨nothingNew_reopen ha hs, nofun⟩
  | true =>
    rw [hmode, ho] at ha
    obtain ⟨hcells, hptys⟩ := untouched_attach ha hs
    exact ⟨⟨by rw [hcells], hptys⟩, fun _ => by unfold deadlines; rw [hcells]⟩

end

/-- A first connect that fails, a refused reopen, one that succeeds, a change of image, a daemon
that goes away, and the attach after it. -/
def reopenRun : List Label :=
  [.connect false (80, 24) none, .check, .connect true (80, 24) none, .read (some (.refused "expired")) true, .check,
    .connect true (80, 24) none, .read (some (.attached false)) true, .tryClone true,
    .read (some (.foreground "vim")) true, .reexecAs true, .tryClone true, .read none true, .relayLoop, .check,
    .connect true (80, 24) none]

def reopenArgs : List String := ["--mirror-foreground", "--require-existing", "local:p1"]

def reopenAttach : Attach := ⟨none, "p1", none, none, [], true, true, true⟩

def reopenStart : Image := ⟨reopenArgs, reopenAttach, "mux-attach", .dialing .runAttach, false, false, [], false⟩

theorem require_existing_never_creates_mirrored :
    ∃ i, parseArgs reopenArgs = .ok reopenAttach ∧ main reopenArgs "mux-attach" false = some reopenStart ∧
      exec step reopenStart reopenRun = some i ∧
      i.sent.map (·.request.mode) = [.reopen "p1", .reopen "p1", .attach "p1"] ∧
      ∀ q ∈ i.sent, ∀ (d d' : Manager.State Echo) (a : Manager.Label), handles q.request.mode a →
        Manager.step d a = some d' → NothingNew d d' := by
  have hp : parseArgs reopenArgs = .ok reopenAttach := rfl
  have h₀ : main reopenArgs "mux-attach" false = some reopenStart := rfl
  refine ⟨_, hp, h₀, rfl, rfl, fun q hq d d' a ha hs => ?_⟩
  have hrun := require_existing_never_creates (T := Echo) hp rfl h₀ (show exec step reopenStart reopenRun = some _ from rfl)
  exact ((hrun.1 q hq).2 d d' a ha hs).1

end Mux.Pane
