import Mux.Handoff
import Mux.TableSound

/-!
# What one step of an upgrade can do

Each daemon's half of a run is a run of its manager. `hand_off` and `accept_handoff` only
move through their own phases: the payload is what was read of the sessions of the snapshot,
and the ack is there only after the adoption.
-/

namespace Mux.Handoff

open Lib Manager

attribute [grind =] World.snapshot World.connect World.lock World.gather World.send World.handOffErr
  World.dropStream World.readAck World.accept World.receive World.adopt World.adoptedAll World.writeAck
  World.acceptErr World.onPred World.onSucc World.tick World.produce World.consume World.predRead World.succRead
  World.predCrash World.succCrash

/-! ## The managers -/

section
variable {T : Type}

def predLabel (w : World T) : Label → Option Manager.Label
  | .onPred a => some a
  | .tick ms => some (.tick ms)
  | .predRead r n => (w.pred.session? r).map fun p => .read r ((w.tty p.master).take n)
  | _ => none

def succLabel (w : World T) : Label → Option Manager.Label
  | .onSucc a => some a
  | .tick ms => some (.tick ms)
  | .succRead r n => (w.succ.session? r).map fun p => .read r ((w.tty p.master).take n)
  | .adopt setup =>
    match w.acc with
    | .received ptys => some (.adoptMany (incoming ptys setup))
    | _ => none
  | _ => none

variable [Ghostty T] {w w' : World T} {a : Label}

/-- A daemon at some moment of its life, with sessions of its own and adopted ones. -/
def Reached (s : State T) : Prop := ∃ clock mtr, exec Manager.step (State.new clock) mtr = some s

theorem pred_of_step (hs : step w a = some w') :
    (predLabel w a = none ∧ w'.pred = w.pred) ∨
      ∃ b, predLabel w a = some b ∧ Manager.step w.pred b = some w'.pred := by
  cases a <;> simp only [step] at hs
  all_goals grind [predLabel, Manager.step]

theorem succ_of_step (hs : step w a = some w') :
    (succLabel w a = none ∧ w'.succ = w.succ) ∨
      ∃ b, succLabel w a = some b ∧ Manager.step w.succ b = some w'.succ := by
  cases a <;> simp only [step] at hs
  all_goals grind [succLabel, Manager.step]

section
variable {I : State T → Prop} (hI : ∀ s b s', Manager.step s b = some s' → I s → I s')

include hI

theorem pred_keeps (hs : step w a = some w') (h : I w.pred) : I w'.pred := by
  rcases pred_of_step hs with ⟨_, heq⟩ | ⟨b, _, hb⟩
  · rw [heq]; exact h
  · exact hI _ b _ hb h

theorem succ_keeps (hs : step w a = some w') (h : I w.succ) : I w'.succ := by
  rcases succ_of_step hs with ⟨_, heq⟩ | ⟨b, _, hb⟩
  · rw [heq]; exact h
  · exact hI _ b _ hb h

end

theorem Reached.step {s s' : State T} {b : Manager.Label} (h : Reached s) (hb : Manager.step s b = some s') : Reached s' := by
  obtain ⟨clock, mtr, h⟩ := h
  exact ⟨clock, mtr ++ [b], exec_append_some.mpr ⟨_, h, exec_cons_some.mpr ⟨_, hb, rfl⟩⟩⟩

/-- Each daemon's half of an upgrade is a run of its manager, so the successor can be the
predecessor of the next upgrade. -/
theorem managers_run {s : State T} {tr : List Label} (h₀ : Reached s) (h : exec step (World.start s) tr = some w) :
    Reached w.pred ∧ Reached w.succ := by
  refine exec_inv (I := fun w : World T => Reached w.pred ∧ Reached w.succ) (fun w a w' hs hi => ?_) h
    ⟨h₀, s.clock, [], rfl⟩
  have hstep : ∀ (s : State T) b s', Manager.step s b = some s' → Reached s → Reached s' := fun _ _ _ hb hr => hr.step hb
  exact ⟨pred_keeps hstep hs hi.1, succ_keeps hstep hs hi.2⟩

theorem pred_cell_of_step (hs : step w a = some w') {r : Nat} {c : Cell T} (hc : w.pred.cells[r]? = some c) :
    ∃ c', w'.pred.cells[r]? = some c' ∧ ident c'.session = ident c.session := by
  rcases pred_of_step hs with ⟨_, heq⟩ | ⟨b, _, hb⟩
  · exact ⟨c, heq ▸ hc, rfl⟩
  · obtain ⟨c', hc', he⟩ := evolves_of_step hb hc
    exact ⟨c', hc', he.ident⟩

theorem succ_cell_of_step (hs : step w a = some w') {r : Nat} {c : Cell T} (hc : w.succ.cells[r]? = some c) :
    ∃ c', w'.succ.cells[r]? = some c' ∧ ident c'.session = ident c.session := by
  rcases succ_of_step hs with ⟨_, heq⟩ | ⟨b, _, hb⟩
  · exact ⟨c, heq ▸ hc, rfl⟩
  · obtain ⟨c', hc', he⟩ := evolves_of_step hb hc
    exact ⟨c', hc', he.ident⟩

/-! ## hand_off and accept_handoff -/

/-- The payload is complete and will not change. -/
def Out.sent (o : Out) : Prop :=
  o.ptys.length = o.sessions.length ∧ (o.phase = .awaiting ∨ o.phase = .failed ∨ o.phase = .exited)

def Accept.adopted : Accept → Bool
  | .starting | .acking | .acked => true
  | _ => false

theorem out_of_step (hs : step w a = some w') :
    (w'.out.sessions = w.out.sessions ∧ w'.out.ptys = w.out.ptys) ∨
      (a = .snapshot ∧ w.out.phase = .idle ∧ w'.out = ⟨.snapshot, liveSessions w.pred, 0, []⟩) ∨
      ∃ cols rows r p, a = .gather cols rows ∧ w.out.phase = .locking ∧
        w.out.sessions[w.out.ptys.length]? = some r ∧ w.pred.session? r = some p ∧
        w'.out = { w.out with ptys := w.out.ptys ++ [(migratePty p cols rows, p.master)] } := by
  cases a <;> simp only [step] at hs
  all_goals grind

theorem sent_of_step (hs : step w a = some w') (h : w.out.sent) :
    w'.out.sent ∧ w'.out.sessions = w.out.sessions ∧ w'.out.ptys = w.out.ptys := by
  cases a <;> simp only [step] at hs
  all_goals grind [Out.sent, Out.running]

theorem message_of_step (hs : step w a = some w') {ptys : List (MigratePty × PtyId)} (h : w'.message = some ptys) :
    w.message = some ptys ∨ w'.out.sent ∧ ptys = w'.out.ptys := by
  cases a <;> simp only [step] at hs
  all_goals grind [Out.sent]

theorem received_of_step (hs : step w a = some w') {ptys : List (MigratePty × PtyId)} (h : w'.acc = .received ptys) :
    w.acc = .received ptys ∨ w.message = some ptys := by
  cases a <;> simp only [step] at hs
  all_goals grind

theorem adopted_of_step (hs : step w a = some w') (h : w'.acc.adopted = true) :
    (w.acc.adopted = true ∧ w'.adopted = w.adopted ∧ w'.installed = w.installed) ∨
      ∃ ptys setup, a = .adopt setup ∧ w.acc = .received ptys ∧ setup.length = ptys.length ∧
        w.succ.adoptMany (incoming ptys setup) = (.ok (), w'.succ) ∧
        w'.adopted = pairs w.out.sessions ptys w'.succ ∧
        w'.installed = (w'.succ.cells.drop w.succ.cells.length).map fun c => tuple c.session := by
  cases a <;> simp only [step] at hs
  all_goals grind [Accept.adopted]

theorem ack_of_step (hs : step w a = some w') (h : w.ack = true → w.acc = .acked) (h' : w'.ack = true) :
    w'.acc = .acked := by
  cases a <;> simp only [step] at hs
  all_goals grind

theorem exited_of_step (hs : step w a = some w') (h : w.out.phase = .exited → w.ack = true)
    (h' : w'.out.phase = .exited) : w'.ack = true := by
  cases a <;> simp only [step] at hs
  all_goals grind

theorem predUp_of_step (hs : step w a = some w') (h : w'.predUp = true) : w.predUp = true := by
  cases a <;> simp only [step] at hs
  all_goals grind

theorem succUp_of_step (hs : step w a = some w') (h : w'.succUp = true) : w.succUp = true := by
  cases a <;> simp only [step] at hs
  all_goals grind

theorem ended_of_step (hs : step w a = some w') :
    (w.acc = .acked → w'.acc = .acked) ∧ (w.acc = .failed → w'.acc = .failed) := by
  cases a <;> simp only [step] at hs
  all_goals grind

theorem exit_of_step (hs : step w a = some w') (h : w'.out.phase = .exited) :
    w.out.phase = .exited ∨ w.predUp = true ∧ w.ack = true := by
  cases a <;> simp only [step] at hs
  all_goals grind

theorem exited_down_of_step (hs : step w a = some w') (h : w.out.phase = .exited → w.predUp = false)
    (h' : w'.out.phase = .exited) : w'.predUp = false := by
  cases a <;> simp only [step] at hs
  all_goals grind

theorem running_of_step (hs : step w a = some w') (h' : w'.out.running = true ∨ w'.out.phase = .exited) :
    (w.out.running = true ∨ w.out.phase = .exited) ∨ w'.out = ⟨.snapshot, liveSessions w.pred, 0, []⟩ ∧ w'.pred = w.pred := by
  cases a <;> simp only [step] at hs
  all_goals grind [Out.running]

theorem predLabel_of_step (hs : step w a = some w') {b : Manager.Label} (hb : predLabel w a = some b) :
    (a = .onPred b ∧ w.predUp = true ∧ World.isOwn b = true) ∨ (∃ ms, b = .tick ms) ∨ ∃ r chunk, b = .read r chunk := by
  cases a <;> simp only [step] at hs
  all_goals grind [predLabel]

/-- Where a session of the successor comes from. -/
theorem succ_cell_cases (hs : step w a = some w') {r : Nat} {c' : Cell T} (hc' : w'.succ.cells[r]? = some c') :
    (∃ c, w.succ.cells[r]? = some c ∧ ident c'.session = ident c.session) ∨
      (w.predUp = false ∧ c'.session.adopted = false) ∨
      ∃ setup, a = .adopt setup ∧ w.succ.cells.length < w'.succ.cells.length := by
  by_cases hlt : r < w.succ.cells.length
  · obtain ⟨c₁, hc₁, hident⟩ := succ_cell_of_step hs (List.getElem?_eq_getElem hlt)
    rw [hc'] at hc₁
    cases hc₁
    exact Or.inl ⟨_, List.getElem?_eq_getElem hlt, hident⟩
  · have hlen : w.succ.cells.length < w'.succ.cells.length :=
      Nat.lt_of_le_of_lt (Nat.le_of_not_lt hlt) (List.getElem?_eq_some_iff.mp hc').1
    rcases succ_of_step hs with ⟨_, heq⟩ | ⟨b, hb, hstep⟩
    · rw [heq] at hlen
      exact absurd hlen (Nat.lt_irrefl _)
    · by_cases hn : b.draws = []
      · obtain ⟨c, hc⟩ := old_of_step hstep hn hc'
        exact absurd (List.getElem?_eq_some_iff.mp hc).1 hlt
      · cases b with
        | openTerm name command cols rows spawned generation =>
          have hdown : w.predUp = false := by
            cases a <;> simp only [step] at hs
            all_goals grind [succLabel, World.isRequest]
          rcases openTerm_cases w.succ name command cols rows spawned generation with heq | ⟨_, _, _, _, _, _, heq⟩
          · rw [← Option.some.inj hstep, heq] at hlen
            exact absurd hlen (Nat.lt_irrefl _)
          · rw [← Option.some.inj hstep, heq] at hc'
            rcases install_cell hc' with hc' | ⟨_, rfl⟩
            · exact absurd (List.getElem?_eq_some_iff.mp hc').1 hlt
            · exact Or.inr (Or.inl ⟨hdown, rfl⟩)
        | adoptMany inc =>
          have hadopt : ∃ setup, a = .adopt setup := by
            cases a <;> simp only [step] at hs
            all_goals grind [succLabel, World.isOwn]
          obtain ⟨setup, rfl⟩ := hadopt
          exact Or.inr (Or.inr ⟨setup, rfl, hlen⟩)
        | _ => exact absurd rfl hn

end

end Mux.Handoff
