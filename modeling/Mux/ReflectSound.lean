import Mux.HandoffInv

/-!
# What the successor knows of the predecessor's sessions

`hand_off` holds the terminal locks and not the table lock: it lists the sessions at one
moment and reads each deadline at another, and requests are answered until the process
exits. The successor ends up with the sessions and deadlines of that last moment if no
session came or went after the listing and no deadline changed after it was read.
-/

namespace Mux.Handoff

open Lib Manager

/-- `x` is a session a client of `s` can reach, with its deadline. -/
def Live {T : Type} (s : State T) (x : String × Pid × Option Nat) : Prop :=
  ∃ k r c, s.ptys.get k = some r ∧ s.cells[r]? = some c ∧ c.session.exited = false ∧ x = tuple c.session

section
variable {T : Type} [Ghostty T]

/-- The request, the timer or the reaper changes the set of live sessions, or a deadline
that `hand_off` has already read. -/
def disturbs (w : World T) : Manager.Label → Bool
  | .openTerm name command cols rows spawned generation =>
    match (w.pred.openTerm name command cols rows spawned generation).1 with
    | .ok (_, created) => created
    | .error _ => false
  | .kill name => (w.pred.ptys.get name).any fun r => isLive w.pred r
  | .timerFire i => (w.pred.timers[i]?.bind w.pred.due).any fun r => isLive w.pred r
  | .reapMark r => w.pred.cells[r]?.any fun c => decide (c.removal = none) && !c.session.exited
  | .closeFor name _ => (w.pred.ptys.get name).any fun r =>
    decide (r ∈ w.out.gathered) && isLive w.pred r && decide ((w.pred.session? r).bind (·.closeDeadline) = none)
  | .reopen name => (w.pred.ptys.get name).any fun r =>
    decide (r ∈ w.out.gathered) && isLive w.pred r &&
      ((w.pred.session? r).bind (·.closeDeadline)).any fun d => decide (w.pred.unixMillis < d)
  | _ => false

/-- From the snapshot to the exit nothing disturbs the handoff. -/
def Settled (w : World T) : Label → Prop
  | .onPred b => w.out.running = true → disturbs w b = false
  | _ => True

def disturbing (w : World T) : Label → Bool
  | .onPred b => disturbs w b
  | _ => false

theorem settled_iff (w : World T) (a : Label) : (w.out.running = true → disturbing w a = false) ↔ Settled w a := by
  cases a <;> simp [Settled, disturbing]

instance (w : World T) (a : Label) : Decidable (Settled w a) := decidable_of_iff _ (settled_iff w a)

/-! ## The invariant -/

def Serving (s : State T) (r : Ref) : Prop :=
  ∃ c, s.cells[r]? = some c ∧ c.removal = none ∧ c.session.exited = false

structure ReflectInv (w : World T) : Prop where
  hand : HandInv w
  cells : ∀ c ∈ w.pred.cells, CellOk c
  gone : w.out.phase = .exited → w.predUp = false
  listed : (w.out.running = true ∨ w.out.phase = .exited) → ∀ r, r ∈ w.out.sessions ↔ Serving w.pred r
  deadline : (w.out.running = true ∨ w.out.phase = .exited) → ∀ (i : Nat) r c p fd, w.out.sessions[i]? = some r →
    w.out.ptys[i]? = some (p, fd) → w.pred.cells[r]? = some c → c.session.closeDeadline = p.closeDeadline
  installed : w.acc.adopted = true → ∀ x, x ∈ w.installed ↔
    ∃ i : Nat, ∃ p fd, w.out.ptys[i]? = some (p, fd) ∧ x = (p.name, p.childPid, p.closeDeadline)

variable {w w' : World T} {a : Label}

omit [Ghostty T] in
theorem isLive_iff {s : State T} {r : Ref} {c : Cell T} (hc : s.cells[r]? = some c) :
    isLive s r = true ↔ c.session.exited = false := by
  simp [isLive, session_cell hc]

omit [Ghostty T] in
theorem mem_liveSessions_iff {s : State T} (hi : TableInv s) {r : Ref} : r ∈ liveSessions s ↔ Serving s r := by
  constructor
  · intro h
    obtain ⟨hl, k, hk⟩ := mem_liveSessions h
    obtain ⟨c, hc, _, hn⟩ := hi.key k r hk
    exact ⟨c, hc, hn, (isLive_iff hc).mp hl⟩
  · rintro ⟨c, hc, hn, he⟩
    simp only [liveSessions, List.mem_insertionSort, List.mem_filter, List.mem_map]
    exact ⟨⟨⟨c.session.name, r⟩, Table.mem_entries.mpr (hi.live r c hc hn), rfl⟩, (isLive_iff hc).mpr he⟩

theorem serving_of_step {s s' : State T} {b : Manager.Label} (h : ReflectInv w) (hs : w.pred = s)
    (hb : Manager.step s b = some s') (hn : b.draws = []) (hd : disturbs w b = false) (r : Ref) :
    Serving s' r ↔ Serving s r := by
  subst hs
  constructor
  · rintro ⟨c', hc', hrem, hex⟩
    obtain ⟨c, hc⟩ := old_of_step hb hn hc'
    obtain ⟨c₁, hc₁, he⟩ := evolves_of_step hb hc
    rw [hc'] at hc₁
    cases hc₁
    refine ⟨c, hc, Classical.byContradiction fun hne => he.gone hne hrem, ?_⟩
    cases hcx : c.session.exited with
    | false => rfl
    | true =>
      rw [he.dead hcx] at hex
      cases hex
  · rintro ⟨c, hc, hrem, hex⟩
    obtain ⟨c', hc', he⟩ := evolves_of_step hb hc
    have hlive := (isLive_iff hc).mpr hex
    have hok := h.cells c (List.mem_of_getElem? hc)
    refine ⟨c', hc', ?_, ?_⟩
    · rcases he.removal with heq | ⟨name, rfl, hget⟩ | ⟨i, t, rfl, ht, hdue⟩ | ⟨rfl, hm⟩
      · exact heq.trans hrem
      · simp [disturbs, hget, hlive] at hd
      · simp [disturbs, ht, hdue, hlive] at hd
      · rw [hok.marked hm] at hex
        cases hex
    · rcases he.exited with heq | ⟨rfl, hk⟩ | rfl
      · exact heq.trans hex
      · exact absurd hrem (hok.killing hk)
      · simp [disturbs, hc, hrem, hex] at hd

theorem deadline_of_step {b : Manager.Label} {s' : State T} (hb : Manager.step w.pred b = some s')
    (hd : disturbs w b = false) {r : Ref} {c c' : Cell T} (hg : r ∈ w.out.gathered) (hc : w.pred.cells[r]? = some c)
    (hex : c.session.exited = false) (hc' : s'.cells[r]? = some c') :
    c'.session.closeDeadline = c.session.closeDeadline := by
  obtain ⟨c₁, hc₁, he⟩ := evolves_of_step hb hc
  rw [hc'] at hc₁
  cases hc₁
  have hlive := (isLive_iff hc).mpr hex
  apply he.deadline_kept
  · rintro name retention rfl hget hcd
    simp [disturbs, hget, hg, hlive, session_cell hc, hcd] at hd
  · rintro name d rfl hget hcd hlt
    simp [disturbs, hget, hg, hlive, session_cell hc, hcd, hlt] at hd

theorem Reached.cells {s : State T} (h : Reached s) : ∀ c ∈ s.cells, CellOk c := by
  obtain ⟨_, _, h⟩ := h
  refine exec_inv (I := fun s : State T => ∀ c ∈ s.cells, CellOk c) (fun _ _ _ hs hi => cellOk_step hs hi) h ?_
  intro c hc
  exact absurd hc List.not_mem_nil

namespace ReflectInv

theorem pred_quiet (h : ReflectInv w) (ha : Settled w a) (hs : step w a = some w')
    (hr : w.out.running = true ∨ w.out.phase = .exited) {b : Manager.Label} (hb : predLabel w a = some b)
    (hstep : Manager.step w.pred b = some w'.pred) :
    w'.pred = w.pred ∨ (disturbs w b = false ∧ b.draws = []) := by
  rcases predLabel_of_step hs hb with ⟨rfl, hup, hown⟩ | ⟨ms, rfl⟩ | ⟨r, chunk, rfl⟩
  · have hd : disturbs w b = false := by
      refine ha (hr.resolve_right fun he => ?_)
      rw [h.gone he] at hup
      cases hup
    cases b with
    | openTerm name command cols rows spawned generation =>
      rcases openTerm_cases w.pred name command cols rows spawned generation with heq | ⟨_, _, _, _, _, _, heq⟩
      · exact Or.inl ((Option.some.inj hstep).symm.trans heq)
      · simp [disturbs, heq] at hd
    | adoptMany incoming => cases hown
    | _ => exact Or.inr ⟨hd, rfl⟩
  · exact Or.inr ⟨rfl, rfl⟩
  · exact Or.inr ⟨rfl, rfl⟩

theorem listed_step (h : ReflectInv w) (ha : Settled w a) (hs : step w a = some w')
    (hr' : w'.out.running = true ∨ w'.out.phase = .exited) (r : Ref) :
    r ∈ w'.out.sessions ↔ Serving w'.pred r := by
  rcases running_of_step hs hr' with hr | ⟨hout, hpred⟩
  · have hsess : w'.out.sessions = w.out.sessions := by
      rcases out_of_step hs with ⟨hsess, _⟩ | ⟨_, hidle, _⟩ | ⟨_, _, _, _, _, _, _, _, hout⟩
      · exact hsess
      · simp [Out.running, hidle] at hr
      · rw [hout]
    rw [hsess, h.listed hr r]
    rcases pred_of_step hs with ⟨_, heq⟩ | ⟨b, hb, hstep⟩
    · rw [heq]
    · rcases h.pred_quiet ha hs hr hb hstep with heq | ⟨hd, hn⟩
      · rw [heq]
      · exact (serving_of_step h rfl hstep hn hd r).symm
  · rw [hout, hpred]
    exact mem_liveSessions_iff h.hand.pred

theorem deadline_kept (h : ReflectInv w) (ha : Settled w a) (hs : step w a = some w')
    (hr : w.out.running = true ∨ w.out.phase = .exited) {r : Ref} {c c' : Cell T} (hg : r ∈ w.out.gathered)
    (hc : w.pred.cells[r]? = some c) (hc' : w'.pred.cells[r]? = some c') :
    c'.session.closeDeadline = c.session.closeDeadline := by
  obtain ⟨c₁, hc₁, _, hex⟩ := (h.listed hr r).mp (List.mem_of_mem_take hg)
  rw [hc] at hc₁
  cases hc₁
  rcases pred_of_step hs with ⟨_, heq⟩ | ⟨b, hb, hstep⟩
  · rw [heq, hc] at hc'
    rw [Option.some.inj hc']
  · rcases h.pred_quiet ha hs hr hb hstep with heq | ⟨hd, _⟩
    · rw [heq, hc] at hc'
      rw [Option.some.inj hc']
    · exact deadline_of_step hstep hd hg hc hex hc'

theorem step (h : ReflectInv w) (ha : Settled w a) (hs : step w a = some w') : ReflectInv w' where
  hand := h.hand.step hs
  cells := pred_keeps (I := fun s => ∀ c ∈ s.cells, CellOk c) (fun _ _ _ hb hi => cellOk_step hb hi) hs h.cells
  gone := fun he => exited_down_of_step hs h.gone he
  listed := fun hr r => h.listed_step ha hs hr r
  deadline := fun hr' i r c p fd hi hp hc =>
    h.hand.deadline_step hs h.deadline (fun hr r hg c c' hc hc' => h.deadline_kept ha hs hr hg hc hc') hr' hi hp hc
  installed := by
    intro hacc x
    rcases adopted_of_step hs hacc with ⟨hold, _, hinst⟩ | ⟨ptys, setup, rfl, hrec, hlen, hadopt, _, hinst⟩
    · obtain ⟨_, _, hptys⟩ := sent_of_step hs (h.hand.adopted hold).1
      rw [hinst, hptys]
      exact h.installed hold x
    · obtain ⟨hsent, rfl⟩ := h.hand.received ptys hrec
      obtain ⟨_, _, hptys⟩ := sent_of_step hs hsent
      rw [hinst, hptys]
      exact installed_adoptMany hlen hadopt x

omit [Ghostty T] in
theorem start {s : State T} (h : TableInv s) (hc : ∀ c ∈ s.cells, CellOk c) : ReflectInv (World.start s) := by
  have hidle : ¬ ((World.start s).out.running = true ∨ (World.start s).out.phase = .exited) := by
    simp [World.start, Out.running]
  refine ⟨HandInv.start h, hc, fun h => absurd (Or.inr h) hidle, fun h => absurd h hidle,
    fun h => absurd h hidle, fun h => ?_⟩
  cases h

omit [Ghostty T] in
theorem reflects (h : ReflectInv w) (he : w.out.phase = .exited) (x : String × Pid × Option Nat) :
    x ∈ w.installed ↔ Live w.pred x := by
  have hacc : w.acc.adopted = true := by rw [h.hand.acked (h.hand.exited he)]; rfl
  obtain ⟨hsent, _⟩ := h.hand.adopted hacc
  rw [h.installed hacc x]
  constructor
  · rintro ⟨i, p, fd, hp, rfl⟩
    obtain ⟨r, c, hi, hc, hd⟩ := h.hand.gathered i p fd hp
    obtain ⟨c₁, hc₁, hrem, hex⟩ := (h.listed (Or.inr he) r).mp (List.mem_of_getElem? hi)
    rw [hc] at hc₁
    cases hc₁
    refine ⟨_, r, c, h.hand.pred.live r c hc hrem, hc, hex, ?_⟩
    rw [tuple, hd.name, hd.child, h.deadline (Or.inr he) i r c p fd hi hp hc]
  · rintro ⟨k, r, c, hk, hc, hex, rfl⟩
    obtain ⟨c₁, hc₁, _, hrem⟩ := h.hand.pred.key k r hk
    rw [hc] at hc₁
    cases hc₁
    obtain ⟨i, hi⟩ := List.getElem?_of_mem ((h.listed (Or.inr he) r).mpr ⟨c, hc, hrem, hex⟩)
    have hlt : i < w.out.ptys.length := hsent.1 ▸ (List.getElem?_eq_some_iff.mp hi).1
    have hp : w.out.ptys[i]? = some (w.out.ptys[i].1, w.out.ptys[i].2) := List.getElem?_eq_getElem hlt
    obtain ⟨r₁, c₁, hi₁, hc₁, hd⟩ := h.hand.gathered i _ _ hp
    rw [hi] at hi₁
    cases hi₁
    rw [hc] at hc₁
    cases hc₁
    refine ⟨i, _, _, hp, ?_⟩
    rw [tuple, hd.name, hd.child, h.deadline (Or.inr he) i r c _ _ hi hp hc]

end ReflectInv

/-- In every upgrade that nothing disturbs, the sessions and deadlines the successor has
installed are, when the predecessor exits, those a client could still reach there. -/
theorem handoff_reflects {s : State T} (h₀ : Reached s) (tr : List Label) (hm : Meets step Settled (World.start s) tr)
    (h : exec step (World.start s) tr = some w) (he : w.out.phase = .exited) :
    ∀ x, x ∈ w.installed ↔ Live w.pred x := by
  have hi : ReflectInv w :=
    exec_inv_of_meets (fun _ _ _ ha hs hi => hi.step ha hs) hm h (ReflectInv.start h₀.table h₀.cells)
  exact hi.reflects he

end

/-- A closed terminal is handed over; its close is asked for once more on the way. -/
def closedRun : List Label :=
  [.onPred (.openTerm "p1" [] 80 24 (.ok (7, 100)) 1), .onPred (.startLoop 0), .snapshot,
    .onPred (.closeFor "p1" 60000), .connect, .lock, .gather 80 24, .tick 5, .onPred (.closeFor "p1" 60000), .send,
    .accept, .receive, .adopt [⟨true, true, 3⟩], .onSucc (.startLoop 0), .onSucc (.armClose 0), .adoptedAll, .writeAck,
    .readAck]

theorem handoff_reflects_closed : ∃ w : World Echo, Meets step Settled (World.start (State.new 0) : World Echo) closedRun ∧
    exec step (World.start (State.new 0)) closedRun = some w ∧ w.installed = [("p1", 100, some 60000)] ∧
    ∀ x, x ∈ w.installed ↔ Live w.pred x := by
  have hm : Meets step Settled (World.start (State.new 0) : World Echo) closedRun := by decide +kernel
  exact ⟨_, hm, rfl, by decide +kernel, handoff_reflects ⟨0, [], rfl⟩ closedRun hm rfl rfl⟩

/-- `open` creates a terminal after the snapshot. -/
def lateOpenRun : List Label :=
  [.onPred (.openTerm "p1" [] 80 24 (.ok (7, 100)) 1), .onPred (.startLoop 0), .snapshot,
    .onPred (.openTerm "p2" [] 80 24 (.ok (8, 101)) 2), .connect, .lock, .gather 80 24, .send, .accept, .receive,
    .adopt [⟨true, true, 3⟩], .onSucc (.startLoop 0), .onSucc (.armClose 0), .adoptedAll, .writeAck, .readAck]

theorem late_open_lost : ∃ w : World Echo, exec step (World.start (State.new 0)) lateOpenRun = some w ∧ w.out.phase = .exited ∧
    Live w.pred ("p2", 101, none) ∧ ("p2", 101, none) ∉ w.installed := by
  refine ⟨_, rfl, rfl, ⟨"p2", 1, _, ?_, rfl, rfl, rfl⟩, ?_⟩
  · decide +kernel
  · decide +kernel

end Mux.Handoff
