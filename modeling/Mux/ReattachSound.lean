import Mux.Reattach

/-!
# What a relay does when its session is killed

`kill` and an expired lease drop the client without an Exit event. The relay takes the end of
its connection for a daemon that went away and opens the terminal again by name; the name is
free, so that the daemon starts a new process. A kill is final for the relay as long as it gets
the Exit event, or its pane goes first.
-/

namespace Mux.Reattach

open Lib Pane

def Handler.answered : Handler → Bool
  | .serving .. | .closed => true
  | _ => false

/-- The relay cannot come to open its terminal again. -/
def settled (i : Image) : Bool :=
  match i.phase with
  | .dialing _ => false
  | .checking _ | .ended .daemonGone => i.stdinClosed
  | _ => true

/-- The relay reads, its stdin is open, and there is nothing left on a connection that has ended,
or no good answer to an open that it will repeat. -/
def cutOff {T : Type} (w : World T) : Label T → Bool
  | .read _ =>
    !w.image.stdinClosed &&
      match w.image.phase with
      | .asking c =>
        !(handshake (w.conn.bind (·.wire.head?))).isOk && (decide (c ≠ .runAttach) || w.image.attach.expectExisting)
      | .pumping => (w.conn.bind (·.wire.head?)).isNone
      | _ => false
  | _ => false

def NotCutOff {T : Type} (w : World T) (a : Label T) : Prop := w.removed = true → cutOff w a = false

instance {T : Type} (w : World T) (a : Label T) : Decidable (NotCutOff w a) := by
  unfold NotCutOff
  infer_instance

structure KillInv {T : Type} (w : World T) : Prop where
  conn : w.conn.isSome = connected w.image.phase
  /-- The relay sees the end of a connection only when it has ended. -/
  served : ∀ c, w.conn = some c → c.handler ≠ .closed → w.image.phase ≠ .ended .daemonGone
  answered : w.removed = true → ∀ c, w.conn = some c → c.handler.answered = true
  final : w.removed = true → settled w.image = true
  answers : ∀ q ∈ w.answers, q.removed = true → q.created = false

section
variable {i j : Image}

theorem settled_of_connected (h : connected i.phase = true) (hne : i.phase ≠ .ended .daemonGone) : settled i = true := by
  unfold settled
  cases hp : i.phase with
  | dialing c | checking reopening => rw [hp] at h; cases h
  | ended r =>
    cases r with
    | daemonGone => exact absurd hp hne
    | exited code | mirror name => rfl
  | asking c | entering | pumping | exited code => rfl

theorem settled_openFailed {c : Caller} (h : i.stdinClosed = true ∨ c = .runAttach ∧ i.attach.expectExisting = false) :
    settled (i.openFailed c) = true := by
  unfold Image.openFailed
  rcases h with h | ⟨rfl, h⟩
  · cases c with
    | runAttach =>
      by_cases he : i.attach.expectExisting = true
      · rw [if_pos he]; exact h
      · rw [if_neg he]; rfl
    | reconnect reopening => exact h
  · simp [h, settled]

theorem frame_of_daemonGone {mirror stdout : Bool} {currentAlias : String} {frame : Option Frame}
    (h : pump mirror currentAlias stdout frame = some .daemonGone) : frame = none := by
  unfold pump at h
  split at h
  · rfl
  · split at h <;> cases h
  · cases h
  · split at h <;> cases h
  · cases h

theorem phase_of_read {frame : Option Frame} {stdout : Bool} (hs : i.read frame stdout = some j) :
    (∃ c, i.phase = .asking c ∧ (handshake frame).isOk = false ∧ j = i.openFailed c) ∨
      connected j.phase = true ∧ j.stdinClosed = i.stdinClosed ∧
        (j.phase = .ended .daemonGone → i.phase = .pumping ∧ frame = none) := by
  unfold Image.read at hs
  split at hs
  · rename_i c hph
    cases hh : handshake frame with
    | ok created =>
      rw [hh] at hs
      cases hs
      exact .inr ⟨rfl, rfl, nofun⟩
    | error e =>
      rw [hh] at hs
      cases hs
      exact .inl ⟨c, hph, rfl, rfl⟩
  · rename_i hph
    split at hs <;> cases hs
    · rename_i r hr
      refine .inr ⟨rfl, rfl, fun hgone => ⟨hph, ?_⟩⟩
      cases hgone
      exact frame_of_daemonGone hr
    · exact .inr ⟨by rw [hph]; rfl, rfl, fun hgone => by rw [hph] at hgone; cases hgone⟩
  · cases hs

theorem openFailed_retries {c : Caller} (h : c ≠ .runAttach ∨ i.attach.expectExisting = true) :
    (i.openFailed c).phase = .checking c.reopening ∧ (i.openFailed c).stdinClosed = i.stdinClosed ∧
      (i.openFailed c).attach = i.attach := by
  unfold Image.openFailed
  cases c with
  | runAttach =>
    have he : i.attach.expectExisting = true := h.resolve_left fun hne => hne rfl
    rw [if_pos he]
    exact ⟨rfl, rfl, rfl⟩
  | reconnect reopening => exact ⟨rfl, rfl, rfl⟩

theorem connected_openFailed (c : Caller) : connected (i.openFailed c).phase = false := by
  unfold Image.openFailed
  cases c with
  | runAttach =>
    by_cases he : i.attach.expectExisting = true
    · rw [if_pos he]; rfl
    · rw [if_neg he]; rfl
  | reconnect reopening => rfl

end

namespace KillInv

section
variable {T : Type} {w w' : World T} {a : Label T} {i : Image}

theorem goOn (hi : KillInv w) (hc : connected w.image.phase = true ∨ connected i.phase = false)
    (hg : i.phase = .ended .daemonGone → ∀ c, w.conn = some c → c.handler = .closed)
    (hd : w.removed = true → settled i = true) : KillInv (w.goOn i) where
  conn := by
    unfold World.goOn
    by_cases h : connected i.phase = true
    · have hw : connected w.image.phase = true := hc.resolve_right (by rw [h]; nofun)
      simp [h, hi.conn, hw]
    · simp [h]
  served := by
    intro c h hne hgone
    have hgone : i.phase = .ended .daemonGone := hgone
    simp only [World.goOn, hgone, connected, if_true] at h
    exact hne (hg hgone c h)
  answered := by
    intro hr c h
    unfold World.goOn at h
    by_cases hi' : connected i.phase = true
    · simp only [hi', if_true] at h
      exact hi.answered hr c h
    · simp [hi'] at h
  final := hd
  answers := hi.answers

theorem handler (hi : KillInv w) {c c' : Conn} (hc : w.conn = some c) (d : Daemon T)
    (ha : c.handler.answered = true → c'.handler.answered = true) (hcl : c.handler = .closed → c'.handler = .closed) :
    KillInv { w with daemon := d, conn := some c' } where
  conn := by
    have h := hi.conn
    rw [hc] at h
    exact h
  served := by
    rintro _ ⟨⟩ hne
    exact hi.served c hc fun h => hne (hcl h)
  answered := by
    rintro hr _ ⟨⟩
    exact ha (hi.answered hr c hc)
  final := hi.final
  answers := hi.answers

theorem unanswered (hi : KillInv w) {c c' : Conn} (hc : w.conn = some c) (d : Daemon T)
    (hh : c.handler.answered = false) : KillInv { w with daemon := d, conn := some c' } := by
  refine hi.handler hc d (fun h => ?_) fun h => ?_
  · rw [hh] at h
    cases h
  · rw [h] at hh
    cases hh

theorem lose (hi : KillInv w) (k : Nat) : KillInv (w.lose k) where
  conn := by
    unfold World.lose
    rw [Option.isSome_map]
    exact hi.conn
  served := by
    intro c h hne
    unfold World.lose at h
    obtain ⟨c, -, rfl⟩ := Option.map_eq_some_iff.mp h
    exact absurd rfl hne
  answered := by
    intro hr c h
    unfold World.lose at h
    obtain ⟨c, -, rfl⟩ := Option.map_eq_some_iff.mp h
    rfl
  final := hi.final
  answers := hi.answers

theorem daemon (hi : KillInv w) (d : Daemon T) : KillInv { w with daemon := d } :=
  ⟨hi.conn, hi.served, hi.answered, hi.final, hi.answers⟩

/-- At the time its session is removed, the relay's connection is served. -/
theorem removal (hi : KillInv w) {r : Manager.Ref} (h : w.attachedTo = some r) : KillInv { w with removed := true } := by
  obtain ⟨c, hc, hr⟩ := Option.bind_eq_some_iff.mp h
  obtain ⟨q, id, hserve⟩ : ∃ q id, c.handler = .serving q id := by
    cases hh : c.handler <;> rw [hh] at hr <;> first | cases hr | exact ⟨_, _, rfl⟩
  refine ⟨hi.conn, hi.served, fun _ c' hc' => ?_, fun _ => ?_, hi.answers⟩
  · rw [hc] at hc'
    cases hc'
    rw [hserve]
    rfl
  · refine settled_of_connected ?_ (hi.served c hc (by rw [hserve]; nofun))
    rw [← hi.conn, hc]
    rfl

/-- A request that is not answered yet was sent before any removal. -/
theorem fresh (hi : KillInv w) {c : Conn} (hc : w.conn = some c) (hh : c.handler.answered = false) : w.removed = false := by
  cases hr : w.removed with
  | false => rfl
  | true => rw [hi.answered hr c hc] at hh; cases hh

theorem answer (hi : KillInv w) {c : Conn} (hc : w.conn = some c) (hh : c.handler.answered = false)
    (x : Except String (Manager.Ref × Bool) × Daemon T) : KillInv (w.answer c x) := by
  have hnot : w.removed ≠ true := by rw [hi.fresh hc hh]; nofun
  have hconn : true = connected w.image.phase := by
    rw [← hi.conn, hc]
    rfl
  have hgone : w.image.phase ≠ .ended .daemonGone := by
    refine hi.served c hc fun hcl => ?_
    rw [hcl] at hh
    cases hh
  obtain ⟨answer, d⟩ := x
  cases answer with
  | error e => exact ⟨hconn, fun _ _ _ => hgone, fun h => absurd h hnot, hi.final, hi.answers⟩
  | ok x =>
    refine ⟨hconn, fun _ _ _ => hgone, fun h => absurd h hnot, hi.final, fun q hq h => ?_⟩
    rcases List.mem_append.mp hq with hq | hq
    · exact hi.answers q hq h
    · cases List.mem_singleton.mp hq
      exact absurd h hnot

theorem forward (hi : KillInv w) (hs : w.forward = some w') : KillInv w' := by
  obtain ⟨c, hc, hs⟩ := Option.bind_eq_some_iff.mp hs
  split at hs
  · obtain ⟨⟨msg, chan⟩, -, hs⟩ := Option.bind_eq_some_iff.mp hs
    obtain ⟨d, -, rfl⟩ := Option.map_eq_some_iff.mp hs
    exact hi.handler hc d id id
  · cases hs

theorem finish (hi : KillInv w) (hs : w.finish = some w') : KillInv w' := by
  obtain ⟨c, hc, hs⟩ := Option.bind_eq_some_iff.mp hs
  split at hs
  · obtain ⟨s, -, hs⟩ := Option.bind_eq_some_iff.mp hs
    split at hs
    · obtain ⟨d, -, rfl⟩ := Option.map_eq_some_iff.mp hs
      exact hi.handler hc d (fun _ => rfl) fun _ => rfl
    · cases hs
  · cases hs

theorem connect (hi : KillInv w) {stream : Bool} {size : UInt16 × UInt16} {term : Option String}
    (hs : w.connect stream size term = some w') : KillInv w' := by
  obtain ⟨i, hi', rfl⟩ := Option.map_eq_some_iff.mp hs
  unfold Image.connect at hi'
  split at hi'
  case h_2 => cases hi'
  case h_1 c hph =>
    have hr : w.removed ≠ true := by
      intro hr
      have hd := hi.final hr
      simp [settled, hph] at hd
    cases stream with
    | true =>
      cases hi'
      refine ⟨?_, fun _ _ _ => nofun, fun h => absurd h hr, fun h => absurd h hr, hi.answers⟩
      simp [connected]
    | false =>
      cases hi'
      exact ⟨(connected_openFailed c).symm, nofun, fun h => absurd h hr, fun h => absurd h hr, hi.answers⟩

/-- The relay reads on; it stays settled unless it is cut off. -/
theorem read (hi : KillInv w) {stdout : Bool} (hg : NotCutOff w (.read stdout)) (hs : w.read stdout = some w') :
    KillInv w' := by
  obtain ⟨c, hc, hs⟩ := Option.bind_eq_some_iff.mp hs
  by_cases hblock : c.wire = [] ∧ c.handler ≠ .closed
  · rw [if_pos hblock] at hs
    cases hs
  rw [if_neg hblock] at hs
  obtain ⟨i, hread, rfl⟩ := Option.map_eq_some_iff.mp hs
  have hconn : connected w.image.phase = true := by rw [← hi.conn, hc]; rfl
  have hw : KillInv { w with conn := some { c with wire := c.wire.tail } } := hi.handler hc w.daemon id id
  have hcut : w.removed = true → w.image.stdinClosed = false → cutOff w (.read stdout) = false := fun hr _ => hg hr
  simp only [cutOff, hc, Option.bind_some] at hcut
  rcases phase_of_read hread with ⟨caller, hph, hfail, rfl⟩ | ⟨hcon, hstdin, hgone⟩
  · -- The open failed: the relay has ended, or it finds its stdin closed at the next check.
    refine hw.goOn (.inl hconn) (fun h => ?_) fun hr => settled_openFailed ?_
    · have := connected_openFailed (i := w.image) caller
      rw [h] at this
      cases this
    · by_cases hstdin : w.image.stdinClosed = true
      · exact .inl hstdin
      · rw [Bool.not_eq_true] at hstdin
        simpa [hstdin, hph, hfail] using hcut hr hstdin
  · refine hw.goOn (.inl hconn) (fun h c' hc' => ?_) fun hr => ?_
    · cases hc'
      have hnone := (hgone h).2
      rw [List.head?_eq_none_iff] at hnone
      exact Classical.not_not.mp fun hcl => hblock ⟨hnone, hcl⟩
    · by_cases h : i.phase = .ended .daemonGone
      · obtain ⟨hph, hnone⟩ := hgone h
        simp only [settled, h, hstdin]
        by_cases hclosed : w.image.stdinClosed = true
        · exact hclosed
        · rw [Bool.not_eq_true] at hclosed
          simpa [hclosed, hph, hnone] using hcut hr hclosed
      · exact settled_of_connected hcon h

theorem relayLoop (hi : KillInv w) (hs : w.image.relayLoop = some i) : KillInv (w.goOn i) := by
  unfold Image.relayLoop at hs
  split at hs <;> cases hs
  · exact hi.goOn (.inr rfl) nofun fun _ => rfl
  · rename_i hph
    refine hi.goOn (.inl (by rw [hph]; rfl)) (fun h => ?_) fun hr => ?_
    · by_cases hc : w.image.stdinClosed = true <;> simp [hc] at h
    · have hf := hi.final hr
      simp only [settled, hph] at hf
      simp [settled, hf]

theorem reexecAs (hi : KillInv w) {ok : Bool} (hs : w.image.reexecAs ok = some i) : KillInv (w.goOn i) := by
  unfold Image.reexecAs at hs
  split at hs
  case h_2 => cases hs
  case h_1 name hph =>
    have hentering : i.phase = .entering := by
      cases ok with
      | false => cases hs; rfl
      | true =>
        obtain ⟨j, hj, rfl⟩ := Option.map_eq_some_iff.mp hs
        unfold main at hj
        split at hj <;> cases hj
        rfl
    refine hi.goOn (.inl (by rw [hph]; rfl)) (fun h => ?_) fun _ => ?_
    · rw [hentering] at h
      cases h
    · simp [settled, hentering]

theorem tryClone (hi : KillInv w) {ok : Bool} (hs : w.image.tryClone ok = some i) : KillInv (w.goOn i) := by
  unfold Image.tryClone at hs
  split at hs <;> cases hs
  rename_i hph
  refine hi.goOn (.inl (by rw [hph]; rfl)) (fun h => ?_) fun _ => ?_
  · cases ok <;> cases h
  · cases ok <;> rfl

theorem check (hi : KillInv w) (hs : w.image.check = some i) : KillInv (w.goOn i) := by
  unfold Image.check at hs
  split at hs <;> cases hs
  rename_i reopening hph
  refine hi.goOn (.inr ?_) (fun h => ?_) fun hr => ?_
  · by_cases hc : w.image.stdinClosed = true <;> simp [hc, connected]
  · by_cases hc : w.image.stdinClosed = true <;> simp [hc] at h
  · have hf := hi.final hr
    simp only [settled, hph] at hf
    simp [settled, hf]

theorem stdinEof (hi : KillInv w) (hs : w.image.stdinEof = some i) : KillInv (w.goOn i) := by
  unfold Image.stdinEof at hs
  split at hs <;> cases hs
  refine hi.goOn ?_ (fun h c hc => ?_) fun hr => ?_
  · by_cases hc : connected w.image.phase = true
    · exact .inl hc
    · exact .inr (by simpa using hc)
  · exact Classical.not_not.mp fun hne => hi.served c hc hne h
  · have hf := hi.final hr
    unfold settled at hf ⊢
    cases hph : w.image.phase with
    | dialing c => rw [hph] at hf; cases hf
    | checking reopening => rfl
    | ended r => cases r <;> rfl
    | asking c | entering | pumping | exited code => rfl

end

section
variable {T : Type} [Ghostty T] {w w' : World T} {a : Label T} {i : Image}

theorem others (hi : KillInv w) {a : Daemon.Label} (hs : w.others a = some w') : KillInv w' := by
  obtain ⟨d, -, rfl⟩ := Option.map_eq_some_iff.mp hs
  by_cases hr : ((w.daemon.removes a).isSome && w.attachedTo == w.daemon.removes a) = true
  · rw [hr, Bool.or_true]
    simp only [Bool.and_eq_true, beq_iff_eq] at hr
    obtain ⟨r, hr'⟩ := Option.isSome_iff_exists.mp hr.1
    exact (hi.removal (hr.2.trans hr')).daemon d
  · rw [Bool.not_eq_true] at hr
    rw [hr, Bool.or_false]
    exact hi.daemon d

theorem openTerminal (hi : KillInv w) {c : Conn} (hc : w.conn = some c) (hh : c.handler = .request) (e : Env) :
    KillInv (w.openTerminal c e) := by
  unfold World.openTerminal
  split
  · exact hi.answer hc (by rw [hh]; rfl) _
  · exact hi.answer hc (by rw [hh]; rfl) _
  · split
    · exact hi.unanswered hc _ (by rw [hh]; rfl)
    · exact hi.unanswered hc _ (by rw [hh]; rfl)

theorem handle (hi : KillInv w) {e : Env} (hs : w.handle e = some w') : KillInv w' := by
  obtain ⟨c, hc, hs⟩ := Option.bind_eq_some_iff.mp hs
  split at hs
  · rename_i hh
    cases hs
    exact hi.openTerminal hc hh e
  · rename_i r hh
    cases hs
    unfold World.checkExisting
    split
    · exact hi.answer hc (by rw [hh]; rfl) _
    · exact hi
  · rename_i r created hh
    obtain ⟨s, -, hs⟩ := Option.bind_eq_some_iff.mp hs
    obtain ⟨d, -, rfl⟩ := Option.map_eq_some_iff.mp hs
    exact hi.unanswered hc d (by rw [hh]; rfl)
  · rename_i r id created hh
    obtain ⟨d, -, rfl⟩ := Option.map_eq_some_iff.mp hs
    exact hi.unanswered hc d (by rw [hh]; rfl)
  · rename_i r id created hh
    obtain ⟨d, -, rfl⟩ := Option.map_eq_some_iff.mp hs
    exact hi.unanswered hc d (by rw [hh]; rfl)
  · cases hs

theorem step (hi : KillInv w) (hg : NotCutOff w a) (hs : step w a = some w') : KillInv w' := by
  cases a with
  | others a =>
    simp only [Reattach.step] at hs
    split at hs
    · exact hi.others hs
    · cases hs
  | handle e => exact hi.handle hs
  | forward => exact hi.forward hs
  | finish => exact hi.finish hs
  | lose k => cases hs; exact hi.lose k
  | replace d k => cases hs; exact (hi.lose k).daemon d
  | connect stream size term => exact hi.connect hs
  | read stdout => exact hi.read hg hs
  | tryClone ok =>
    obtain ⟨i, hi', rfl⟩ := Option.map_eq_some_iff.mp hs
    exact hi.tryClone hi'
  | relayLoop =>
    obtain ⟨i, hi', rfl⟩ := Option.map_eq_some_iff.mp hs
    exact hi.relayLoop hi'
  | reexecAs ok =>
    obtain ⟨i, hi', rfl⟩ := Option.map_eq_some_iff.mp hs
    exact hi.reexecAs hi'
  | check =>
    obtain ⟨i, hi', rfl⟩ := Option.map_eq_some_iff.mp hs
    exact hi.check hi'
  | stdinEof =>
    obtain ⟨i, hi', rfl⟩ := Option.map_eq_some_iff.mp hs
    exact hi.stdinEof hi'

end

end KillInv

theorem killInv_start {T : Type} {args : List String} {currentAlias : String} {i₀ : Image}
    (h₀ : main args currentAlias false = some i₀) (d : Daemon T) : KillInv (World.start i₀ d) := by
  unfold main at h₀
  split at h₀ <;> cases h₀
  exact ⟨rfl, nofun, nofun, nofun, by simp [World.start]⟩

section
variable {T : Type} [Ghostty T] {w : World T} {args : List String} {currentAlias : String} {i₀ : Image}

/-- Once a kill or an expired lease has removed the session that the relay was attached to, no
open of that relay starts a process, in every run in which the relay is not cut off. -/
theorem kill_is_final (h₀ : main args currentAlias false = some i₀) (d : Daemon T) {tr : List (Label T)}
    (hm : Meets step NotCutOff (World.start i₀ d) tr) (h : exec step (World.start i₀ d) tr = some w) :
    ∀ q ∈ w.answers, q.removed = true → q.created = false :=
  (exec_inv_of_meets (fun _ _ _ hg hs hi => hi.step hg hs) hm h (killInv_start h₀ d)).answers

end

/-! ## A relay that is cut off -/

section
variable {T : Type} [Ghostty T] {w w' : World T}

theorem openTerm_creates {d : Daemon T} {name : String} (hfree : d.ptys.get name = none)
    (hroom : d.ptys.entries.length < Manager.maxPtys) {cols rows : UInt16} {terminal : Terminal T}
    (ht : Terminal.new rows cols = some terminal) (command : List String) (master : PtyId) (child : Pid)
    (generation : Generation) (next : ClientId) :
    ∃ r d', d.openTerm name command cols rows (.ok (master, child)) generation next = (.ok (r, true), d') := by
  have hfree' : (d.manager 0).ptys.get name = none := hfree
  have hroom' : ¬ Manager.maxPtys ≤ (d.manager 0).ptys.entries.length := Nat.not_le.mpr hroom
  unfold Daemon.openTerm Manager.State.openTerm
  simp [hfree', hroom', ht, Manager.insertLocked]

/-- A relay at the top of the loop of `reconnect`, with a daemon that has room for its name. -/
structure Retrying (w : World T) (b : Bool) : Prop where
  phase : w.image.phase = .checking b
  stdin : w.image.stdinClosed = false
  mode : w.image.attach.requireExisting = false
  free : w.daemon.ptys.get w.image.attach.name = none
  room : w.daemon.ptys.entries.length < Manager.maxPtys

/-- It opens its terminal again, and the daemon starts a process for it. -/
theorem Retrying.replaced {b : Bool} (h : Retrying w b) {cols rows : UInt16} {terminal : Terminal T}
    (ht : Terminal.new rows cols = some terminal) (master : PtyId) (child : Pid) (generation : Generation) :
    ∃ t, exec step w [.check, .connect true (cols, rows) none, .handle ⟨.ok (master, child), generation, 0, 0⟩] = some t ∧
      ⟨w.removed, true⟩ ∈ t.answers := by
  let q : OpenRequest := openSession w.image.attach (cols, rows) none b
  let i₁ : Image := { w.image with phase := .dialing (.reconnect b) }
  let i₂ : Image := { i₁ with phase := .asking (.reconnect b), sent := i₁.sent ++ [⟨q, i₁.opened⟩] }
  let c : Conn := ⟨q, .request, []⟩
  have hcheck : step w .check = some (w.goOn i₁) := by
    simp [step, Image.check, h.phase, h.stdin, i₁]
  have hconnect : step (w.goOn i₁) (.connect true (cols, rows) none) = some { w with image := i₂, conn := some c } := by
    simp [step, World.connect, World.goOn, Image.connect, i₁, i₂, c, q, Caller.reopening]
  have hmode : c.request.mode = .openTerm w.image.attach.name w.image.attach.cwd w.image.attach.command
      w.image.attach.cwdFrom := by
    simp [c, q, openSession, h.mode]
  obtain ⟨r, d', hopen⟩ := openTerm_creates h.free h.room ht w.image.attach.command master child generation 0
  refine ⟨_, exec_cons_some.mpr ⟨_, hcheck, exec_cons_some.mpr ⟨_, hconnect, exec_cons_some.mpr ⟨_, rfl, rfl⟩⟩⟩, ?_⟩
  have hanswer : ∀ v : World T, v.daemon = w.daemon → v.removed = w.removed →
      ⟨w.removed, true⟩ ∈ (v.openTerminal c ⟨.ok (master, child), generation, 0, 0⟩).answers := by
    intro v hd hr
    have hopen : v.daemon.openTerm w.image.attach.name w.image.attach.command c.request.cols c.request.rows
        (.ok (master, child)) generation 0 = (.ok (r, true), d') := by rw [hd]; exact hopen
    unfold World.openTerminal
    rw [hmode]
    simp only [hopen, World.answer, hr]
    simp
  exact hanswer _ rfl rfl

/-- Where the relay of a removed session is cut off, it can get a new process. -/
theorem replaced_of_cutOff {stdout : Bool} (hr : w.removed = true) (hcut : cutOff w (.read stdout) = true)
    (hs : step w (.read stdout) = some w') (hmode : w.image.attach.requireExisting = false)
    (hfree : w.daemon.ptys.get w.image.attach.name = none) (hroom : w.daemon.ptys.entries.length < Manager.maxPtys)
    {cols rows : UInt16} {terminal : Terminal T} (ht : Terminal.new rows cols = some terminal) :
    ∃ tr t, exec step w' tr = some t ∧ ⟨true, true⟩ ∈ t.answers := by
  obtain ⟨c, hc, hs⟩ := Option.bind_eq_some_iff.mp hs
  simp only [cutOff, hc, Option.bind_some, Bool.and_eq_true, Bool.not_eq_true'] at hcut
  obtain ⟨hstdin, hcut⟩ := hcut
  split at hs
  · cases hs
  obtain ⟨i, hread, rfl⟩ := Option.map_eq_some_iff.mp hs
  cases hph : w.image.phase with
  | pumping =>
    rw [hph] at hcut
    have hnone : c.wire.head? = none := by simpa using hcut
    simp only [Image.read, hph, hnone, pump, Option.some.injEq] at hread
    subst hread
    -- `relay_loop` takes it for a daemon that went away.
    let v : World T := { w with conn := some { c with wire := c.wire.tail } }.goOn { w.image with phase := .ended .daemonGone }
    have hloop : step v .relayLoop = some (v.goOn { v.image with phase := .checking false }) := by
      simp [step, Image.relayLoop, World.goOn, v, hstdin]
    have hagain : Retrying (v.goOn { v.image with phase := .checking false }) false := ⟨rfl, hstdin, hmode, hfree, hroom⟩
    obtain ⟨t, hrun, hmem⟩ := hagain.replaced ht 0 0 0
    exact ⟨_, t, exec_cons_some.mpr ⟨_, hloop, hrun⟩, hr ▸ hmem⟩
  | asking caller =>
    rw [hph] at hcut
    simp only [Bool.and_eq_true, Bool.not_eq_true', Bool.or_eq_true, decide_eq_true_eq] at hcut
    obtain ⟨hfail, hretry⟩ := hcut
    cases hh : handshake c.wire.head? with
    | ok created => rw [hh] at hfail; cases hfail
    | error e =>
      simp only [Image.read, hph, hh, Option.some.injEq] at hread
      subst hread
      obtain ⟨hp, hst, ha⟩ := openFailed_retries hretry
      have hagain : Retrying ({ w with conn := some { c with wire := c.wire.tail } }.goOn (w.image.openFailed caller))
          caller.reopening :=
        ⟨hp, hst.trans hstdin, (congrArg Attach.requireExisting ha).trans hmode, by rw [← hfree, ← ha]; rfl, hroom⟩
      obtain ⟨t, hrun, hmem⟩ := hagain.replaced ht 0 0 0
      exact ⟨_, t, hrun, hr ▸ hmem⟩
  | _ => rw [hph] at hcut; cases hcut

end

/-! ## A kill that is answered by a new shell -/

def paneArgs : List String := ["local:p1"]

def paneStart : Image :=
  ⟨paneArgs, ⟨none, "p1", none, none, [], false, false, false⟩, "mux-attach", .dialing .runAttach, false, false, [], false⟩

def emptyDaemon : Daemon Echo := ⟨∅, []⟩

def spawns (master : PtyId) (child : Pid) (generation : Generation) : Env := ⟨.ok (master, child), generation, 0, 0⟩

/-- A pane opens its terminal, and somebody kills it. -/
def killedRun : List (Label Echo) :=
  [.connect true (80, 24) none, .handle (spawns 0 100 1), .handle (spawns 0 100 1), .handle (spawns 0 100 1),
    .handle (spawns 0 100 1), .read true, .tryClone true, .read true, .others (.kill "p1")]

/-- The reaper is first: it takes the client and sends the Exit event. -/
def reapedRun : List (Label Echo) :=
  killedRun ++ [.others (.task 0 .eof), .others (.task 0 (.reapMark 137)), .others (.task 0 .reapTake),
    .others (.task 0 .reapSend), .others (.task 0 .killClear), .forward, .finish, .read true, .relayLoop]

def clearedRun : List (Label Echo) :=
  killedRun ++ [.others (.task 0 .killClear), .others (.task 0 .killMark), .finish, .read true, .relayLoop, .check,
    .connect true (80, 24) none, .handle (spawns 1 101 2)]

theorem kill_is_final_reaped :
    ∃ w, main paneArgs "mux-attach" false = some paneStart ∧
      Meets step NotCutOff (World.start paneStart emptyDaemon) reapedRun ∧
      exec step (World.start paneStart emptyDaemon) reapedRun = some w ∧ w.removed = true ∧
      w.image.phase = .exited 137 ∧ ∀ q ∈ w.answers, q.removed = true → q.created = false := by
  have h₀ : main paneArgs "mux-attach" false = some paneStart := rfl
  have hm : Meets step NotCutOff (World.start paneStart emptyDaemon) reapedRun := by decide
  refine ⟨_, h₀, hm, rfl, rfl, rfl, ?_⟩
  exact kill_is_final h₀ emptyDaemon hm rfl

/-- The relay sees the end of its connection, opens the terminal again and gets a new shell. -/
theorem killed_shell_replaced :
    ∃ w, main paneArgs "mux-attach" false = some paneStart ∧
      exec step (World.start paneStart emptyDaemon) clearedRun = some w ∧
      w.image.attach.requireExisting = false ∧ ⟨true, true⟩ ∈ w.answers :=
  ⟨_, rfl, rfl, rfl, by decide⟩

end Mux.Reattach
