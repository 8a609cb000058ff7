import Mux.CloseLease
import Mux.ConsumerSound

/-!
# The lease of a closed terminal over an upgrade

A terminal is the predecessor's session until the predecessor is gone, and then the session
the successor adopted for it. Its deadline is the same on both sides of that moment if no
request changed it after `hand_off` had read it, and if there are never two daemons that
both have the session.
-/

namespace Mux.Handoff

open Lib Manager

section
variable {T : Type}

def heir (w : World T) (r : Ref) : Option Ref := (w.adopted.find? fun e => decide (e.1 = r)).map (·.2)

/-- The session that is the predecessor's `r` now. -/
def current (w : World T) (r : Ref) : Option (PtySession T) :=
  if w.predUp = true ∨ w.out.phase = .failed then w.pred.session? r
  else match heir w r with
    | some q => w.succ.session? q
    | none => w.pred.session? r

def lease (w : World T) (r : Ref) : Option Nat := (current w r).bind (·.closeDeadline)

/-- A reopen that is answered for `r`. -/
def reopens (w : World T) (r : Ref) : Label → Bool
  | .onPred (.reopen name) => decide (w.pred.ptys.get name = some r)
  | .onSucc (.reopen name) => (w.succ.ptys.get name).any fun q => decide ((r, q) ∈ w.adopted)
  | _ => false

/-- The request changes a deadline that `hand_off` has already read. -/
def moves (w : World T) : Manager.Label → Bool
  | .closeFor name _ => (w.pred.ptys.get name).any fun r =>
    decide (r ∈ w.out.gathered) && decide ((w.pred.session? r).bind (·.closeDeadline) = none)
  | .reopen name => (w.pred.ptys.get name).any fun r =>
    decide (r ∈ w.out.gathered) &&
      ((w.pred.session? r).bind (·.closeDeadline)).any fun d => decide (w.pred.unixMillis < d)
  | _ => false

/-- A timer fires and finds `r` due, in either daemon. -/
def Fires (w : World T) (r : Ref) (t : Timer) (a : Label) : Prop :=
  (∃ i : Nat, a = .onPred (.timerFire i) ∧ w.pred.timers[i]? = some t ∧ w.pred.due t = some r) ∨
    ∃ i : Nat, ∃ q, a = .onSucc (.timerFire i) ∧ w.succ.timers[i]? = some t ∧ w.succ.due t = some q ∧ (r, q) ∈ w.adopted

variable [Ghostty T]

/-- No deadline changes after it was read, and no two daemons have a session. -/
def LeaseHeld (w : World T) : Label → Prop
  | .onPred b => w.out.running = true → moves w b = false
  | a => Sole w a

instance (w : World T) (a : Label) : Decidable (LeaseHeld w a) := by
  unfold LeaseHeld
  split <;> infer_instance

theorem LeaseHeld.sole {w : World T} {a : Label} (h : LeaseHeld w a) : Sole w a := by
  cases a with
  | onPred b => trivial
  | _ => exact h

/-! ## The invariant -/

def Accept.early : Accept → Bool
  | .listening | .connected | .received _ => true
  | _ => false

/-- The successor's `q` was adopted for `r`, with the deadline that was read. -/
structure Paired (w : World T) (r q : Ref) (i : Nat) (p : MigratePty) (fd : PtyId) (c : Cell T) : Prop where
  session : w.out.sessions[i]? = some r
  pty : w.out.ptys[i]? = some (p, fd)
  cell : w.succ.cells[q]? = some c
  adopted : c.session.adopted = true
  deadline : w.predUp = true → c.session.closeDeadline = p.closeDeadline

structure TermInv (w : World T) : Prop where
  sole : SoleInv w
  down : w.out.phase = .exited → w.predUp = false
  clocks : w.succ.clock = w.pred.clock
  pred : LeaseInv w.pred
  succ : LeaseInv w.succ
  before : w.acc.early = true → w.adopted = []
  sent : w.adopted ≠ [] → w.out.sent
  read : (w.out.running = true ∨ w.out.phase = .exited) → ∀ (i : Nat) r c p fd, w.out.sessions[i]? = some r →
    w.out.ptys[i]? = some (p, fd) → w.pred.cells[r]? = some c → c.session.closeDeadline = p.closeDeadline
  paired : ∀ r q, (r, q) ∈ w.adopted → ∃ i p fd c, Paired w r q i p fd c
  unique : ∀ r q q', (r, q) ∈ w.adopted → (r, q') ∈ w.adopted → q = q'
  started : w.acc = .acking ∨ w.acc = .acked → ∀ r q, (r, q) ∈ w.adopted →
    ∃ c, w.succ.cells[q]? = some c ∧ c.arming = false

variable {w w' : World T} {a : Label}

theorem adopted_list_of_step (hs : step w a = some w') :
    w'.adopted = w.adopted ∨ ∃ ptys setup, a = .adopt setup ∧ w.acc = .received ptys ∧ setup.length = ptys.length ∧
      w.succ.adoptMany (incoming ptys setup) = (.ok (), w'.succ) ∧ w'.adopted = pairs w.out.sessions ptys w'.succ := by
  cases a <;> simp only [step] at hs
  all_goals grind

theorem early_of_step (hs : step w a = some w') (h : w'.acc.early = true) :
    w.acc.early = true ∧ w'.adopted = w.adopted := by
  cases a <;> simp only [step] at hs
  all_goals grind [Accept.early]

theorem started_of_step (hs : step w a = some w') (h : w'.acc = .acking ∨ w'.acc = .acked) :
    w'.adopted = w.adopted ∧ ((w.acc = .acking ∨ w.acc = .acked) ∨ w'.succ = w.succ ∧
      w.adopted.all (fun e => w.succ.cells[e.2]?.any fun c => decide (c.loop ≠ .unspawned ∧ ¬ c.arming)) = true) := by
  cases a <;> simp only [step] at hs
  all_goals grind

theorem clocks_of_step (hs : step w a = some w') (h : w.succ.clock = w.pred.clock) : w'.succ.clock = w'.pred.clock := by
  cases a with
  | tick ms =>
    cases hs
    simp only [h]
  | _ =>
    have hpred : w'.pred.clock = w.pred.clock := by
      rcases pred_of_step hs with ⟨_, heq⟩ | ⟨b, hb, hstep⟩
      · rw [heq]
      · refine clock_of_step hstep fun ms hms => ?_
        simp only [step] at hs
        grind [predLabel, World.isOwn]
    have hsucc : w'.succ.clock = w.succ.clock := by
      rcases succ_of_step hs with ⟨_, heq⟩ | ⟨b, hb, hstep⟩
      · rw [heq]
      · refine clock_of_step hstep fun ms hms => ?_
        simp only [step] at hs
        grind [succLabel, World.isOwn]
    rw [hpred, hsucc, h]

omit [Ghostty T] in
theorem of_mem_pairs {sessions : List Ref} {ptys : List (MigratePty × PtyId)} {succ : State T} {r q : Ref}
    (h : (r, q) ∈ pairs sessions ptys succ) :
    ∃ i : Nat, ∃ p fd, sessions[i]? = some r ∧ ptys[i]? = some (p, fd) ∧ succ.ptys.get p.name = some q := by
  obtain ⟨⟨r₀, p, fd⟩, hmem, hq⟩ := List.mem_filterMap.mp h
  obtain ⟨q₀, hget, heq⟩ := Option.map_eq_some_iff.mp hq
  cases heq
  obtain ⟨i, hi⟩ := List.getElem?_of_mem hmem
  obtain ⟨hr, hp⟩ := List.getElem?_zip_eq_some.mp hi
  exact ⟨i, p, fd, hr, hp, hget⟩

theorem paired_adopt (h : HandInv w) (hs : step w a = some w') {ptys : List (MigratePty × PtyId)} {setup : List Setup}
    (hrec : w.acc = .received ptys) (hlen : setup.length = ptys.length)
    (hadopt : w.succ.adoptMany (incoming ptys setup) = (.ok (), w'.succ)) {r q : Ref}
    (hmem : (r, q) ∈ pairs w.out.sessions ptys w'.succ) :
    ∃ i p fd c, Paired w' r q i p fd c ∧ c.session.closeDeadline = p.closeDeadline ∧ w.succ.cells.length ≤ q := by
  obtain ⟨hsent, rfl⟩ := h.received ptys hrec
  obtain ⟨_, hsess, hptys⟩ := sent_of_step hs hsent
  obtain ⟨i, p, fd, hr, hp, hget⟩ := of_mem_pairs hmem
  obtain ⟨inc, hinc, rfl, rfl⟩ := mem_incoming hlen hp
  obtain ⟨q', terminal, hget', hle, hcell⟩ := adoptMany_installs h.succ hadopt hinc
  rw [hget] at hget'
  cases hget'
  exact ⟨i, inc.pty, inc.master, _, ⟨hsess ▸ hr, hptys ▸ hp, hcell, rfl, fun _ => rfl⟩, rfl, hle⟩

omit [Ghostty T] in
theorem heir_mem {r q : Ref} (h : heir w r = some q) : (r, q) ∈ w.adopted := by
  obtain ⟨e, he, rfl⟩ := Option.map_eq_some_iff.mp h
  have hr := of_decide_eq_true (List.find?_some (p := fun e : Ref × Ref => decide (e.1 = r)) he)
  subst hr
  exact List.mem_of_find?_eq_some he

omit [Ghostty T] in
theorem heir_of_mem {r q : Ref} (h : (r, q) ∈ w.adopted) : ∃ q', heir w r = some q' := by
  unfold heir
  cases he : w.adopted.find? fun e => decide (e.1 = r) with
  | some e => exact ⟨e.2, rfl⟩
  | none =>
    have := List.find?_eq_none.mp he (r, q) h
    simp at this

namespace TermInv

theorem pred_cleared (h : TermInv w) (hs : step w a = some w') {r : Nat} {c : Cell T} {d : Nat}
    (hc : w.pred.cells[r]? = some c) (hd : c.session.closeDeadline = some d) :
    ∃ c', w'.pred.cells[r]? = some c' ∧ (c'.session.closeDeadline = some d ∨
      c'.session.closeDeadline = none ∧ reopens w r a = true ∧ w.predUp = true ∧ w.pred.unixMillis < d) := by
  rcases pred_of_step hs with ⟨_, heq⟩ | ⟨b, hb, hstep⟩
  · exact ⟨c, heq ▸ hc, Or.inl hd⟩
  · obtain ⟨c', hc', _⟩ := evolves_of_step hstep hc
    refine ⟨c', hc', ?_⟩
    rcases (h.pred.leaseStep hstep hc hc').cleared d hd with hkept | ⟨hnone, ⟨name, rfl, hget⟩, hlt⟩
    · exact Or.inl hkept
    · rcases predLabel_of_step hs hb with ⟨rfl, hup, _⟩ | ⟨ms, hms⟩ | ⟨r', chunk, hread⟩
      · exact Or.inr ⟨hnone, decide_eq_true hget, hup, hlt⟩
      · cases hms
      · cases hread

theorem succ_cleared (h : TermInv w) (hs : step w a = some w') {r q : Nat} {c : Cell T} {d : Nat} (hq : (r, q) ∈ w.adopted)
    (hc : w.succ.cells[q]? = some c) (hd : c.session.closeDeadline = some d) :
    ∃ c', w'.succ.cells[q]? = some c' ∧ (c'.session.closeDeadline = some d ∨
      c'.session.closeDeadline = none ∧ reopens w r a = true ∧ w.pred.unixMillis < d) := by
  rcases succ_of_step hs with ⟨_, heq⟩ | ⟨b, hb, hstep⟩
  · exact ⟨c, heq ▸ hc, Or.inl hd⟩
  · obtain ⟨c', hc', _⟩ := evolves_of_step hstep hc
    refine ⟨c', hc', ?_⟩
    rcases (h.succ.leaseStep hstep hc hc').cleared d hd with hkept | ⟨hnone, ⟨name, rfl, hget⟩, hlt⟩
    · exact Or.inl hkept
    · have ha : a = .onSucc (.reopen name) := by
        simp only [succLabel] at hb
        grind
      subst ha
      have hmillis : w.succ.unixMillis = w.pred.unixMillis := by rw [State.unixMillis, State.unixMillis, h.clocks]
      rw [hmillis] at hlt
      refine Or.inr ⟨hnone, ?_, hlt⟩
      simp [reopens, hget, hq]

theorem read_kept (h : TermInv w) (ha : LeaseHeld w a) (hs : step w a = some w')
    (hr : w.out.running = true ∨ w.out.phase = .exited) {r : Nat} {c c' : Cell T} (hg : r ∈ w.out.gathered)
    (hc : w.pred.cells[r]? = some c) (hc' : w'.pred.cells[r]? = some c') :
    c'.session.closeDeadline = c.session.closeDeadline := by
  rcases pred_of_step hs with ⟨_, heq⟩ | ⟨b, hb, hstep⟩
  · rw [heq, hc] at hc'
    rw [Option.some.inj hc']
  · obtain ⟨c₁, hc₁, he⟩ := evolves_of_step hstep hc
    rw [hc'] at hc₁
    cases hc₁
    -- a request of the predecessor while it hands over
    have hquiet : World.isRequest b = true → moves w b = false := by
      intro hreq
      rcases predLabel_of_step hs hb with ⟨rfl, hup, _⟩ | ⟨ms, rfl⟩ | ⟨r', chunk, rfl⟩
      · refine ha (hr.resolve_right fun hex => ?_)
        rw [h.down hex] at hup
        cases hup
      · cases hreq
      · cases hreq
    apply he.deadline_kept
    · rintro name retention rfl hget hcd
      have hmoves := hquiet rfl
      simp [moves, hget, hg, session_cell hc, hcd] at hmoves
    · rintro name d rfl hget hcd hlt
      have hmoves := hquiet rfl
      simp [moves, hget, hg, session_cell hc, hcd, hlt] at hmoves

theorem paired_step (h : TermInv w) (hs : step w a = some w') {r q : Ref} (hq : (r, q) ∈ w'.adopted) :
    ∃ i p fd c, Paired w' r q i p fd c := by
  rcases adopted_list_of_step hs with heq | ⟨ptys, setup, rfl, hrec, hlen, hadopt, heq⟩
  · rw [heq] at hq
    obtain ⟨i, p, fd, c, hpair⟩ := h.paired r q hq
    obtain ⟨_, hsess, hptys⟩ := sent_of_step hs (h.sent (List.ne_nil_of_mem hq))
    obtain ⟨c', hc', hident⟩ := succ_cell_of_step hs hpair.cell
    refine ⟨i, p, fd, c', hsess ▸ hpair.session, hptys ▸ hpair.pty, hc', (adopted_of_ident hident).trans hpair.adopted,
      fun hup => ?_⟩
    exact (HandInv.succ_deadline_of_step hs hup hpair.cell hc').trans (hpair.deadline (predUp_of_step hs hup))
  · obtain ⟨i, p, fd, c, hpair, _⟩ := paired_adopt h.sole.hand hs hrec hlen hadopt (heq ▸ hq)
    exact ⟨i, p, fd, c, hpair⟩

theorem unique_step (h : TermInv w) (hs : step w a = some w') {r q q' : Ref} (hq : (r, q) ∈ w'.adopted)
    (hq' : (r, q') ∈ w'.adopted) : q = q' := by
  rcases adopted_list_of_step hs with heq | ⟨ptys, setup, rfl, hrec, hlen, hadopt, heq⟩
  · exact h.unique r q q' (heq ▸ hq) (heq ▸ hq')
  · rw [heq] at hq hq'
    obtain ⟨_, rfl⟩ := h.sole.hand.received ptys hrec
    obtain ⟨i, p, fd, hr, hp, hget⟩ := of_mem_pairs hq
    obtain ⟨i', p', fd', hr', hp', hget'⟩ := of_mem_pairs hq'
    -- both ptys describe the same session, so they have its name
    obtain ⟨r₁, c₁, hr₁, hc₁, hd₁⟩ := h.sole.hand.gathered i p fd hp
    obtain ⟨r₂, c₂, hr₂, hc₂, hd₂⟩ := h.sole.hand.gathered i' p' fd' hp'
    rw [hr] at hr₁
    cases hr₁
    rw [hr'] at hr₂
    cases hr₂
    rw [hc₁] at hc₂
    cases hc₂
    rw [← hd₁.name] at hget
    rw [← hd₂.name, hget] at hget'
    exact Option.some.inj hget'

theorem started_step (h : TermInv w) (hs : step w a = some w') (hacc : w'.acc = .acking ∨ w'.acc = .acked) {r q : Ref}
    (hq : (r, q) ∈ w'.adopted) : ∃ c, w'.succ.cells[q]? = some c ∧ c.arming = false := by
  obtain ⟨heq, hold | ⟨hsucc, hall⟩⟩ := started_of_step hs hacc
  · rw [heq] at hq
    obtain ⟨c, hc, harm⟩ := h.started hold r q hq
    rcases succ_of_step hs with ⟨_, hsame⟩ | ⟨b, _, hstep⟩
    · exact ⟨c, hsame ▸ hc, harm⟩
    · obtain ⟨c', hc', _⟩ := evolves_of_step hstep hc
      exact ⟨c', hc', arming_of_step hstep hc harm hc'⟩
  · rw [heq] at hq
    have hany := List.all_eq_true.mp hall (r, q) hq
    obtain ⟨c, hc, hdone⟩ := (Option.any_eq_true ..).mp hany
    rw [hsucc]
    exact ⟨c, hc, Bool.eq_false_iff.mpr (of_decide_eq_true hdone).2⟩

theorem step (h : TermInv w) (ha : LeaseHeld w a) (hs : step w a = some w') : TermInv w' where
  sole := h.sole.step ha.sole hs
  down := fun he => exited_down_of_step hs h.down he
  clocks := clocks_of_step hs h.clocks
  pred := pred_keeps (fun _ _ _ hb hi => LeaseInv.step hi hb) hs h.pred
  succ := succ_keeps (fun _ _ _ hb hi => LeaseInv.step hi hb) hs h.succ
  before := by
    intro he
    obtain ⟨he, heq⟩ := early_of_step hs he
    rw [heq]
    exact h.before he
  sent := by
    intro hne
    rcases adopted_list_of_step hs with heq | ⟨ptys, setup, _, hrec, _⟩
    · exact (sent_of_step hs (h.sent (heq ▸ hne))).1
    · exact (sent_of_step hs (h.sole.hand.received ptys hrec).1).1
  read := fun hr' i r c p fd hi hp hc => h.sole.hand.deadline_step hs h.read
    (fun hr r hg c c' hc hc' => h.read_kept ha hs hr hg hc hc') hr' hi hp hc
  paired := fun r q hq => h.paired_step hs hq
  unique := fun r q q' hq hq' => h.unique_step hs hq hq'
  started := fun hacc r q hq => h.started_step hs hacc hq

omit [Ghostty T] in
theorem start {s : State T} (h : LeaseInv s) : TermInv (World.start s) where
  sole := SoleInv.start h.table
  down := nofun
  clocks := rfl
  pred := h
  succ := LeaseInv.new s.clock
  before := fun _ => rfl
  sent := fun hne => absurd rfl hne
  read := by
    intro hr
    simp [World.start, Out.running] at hr
  paired := nofun
  unique := nofun
  started := nofun

end TermInv

/-! ## The lease -/

section
variable {r q : Nat} {c : Cell T}

omit [Ghostty T] in
theorem lease_of_pred (h : w.predUp = true ∨ w.out.phase = .failed) (hc : w.pred.cells[r]? = some c) :
    lease w r = c.session.closeDeadline := by
  rw [lease, current, if_pos h, session_cell hc]
  rfl

omit [Ghostty T] in
theorem lease_of_none (hq : heir w r = none) (hc : w.pred.cells[r]? = some c) : lease w r = c.session.closeDeadline := by
  rw [lease, current, hq, session_cell hc]
  split <;> rfl

omit [Ghostty T] in
theorem lease_of_heir (h : ¬ (w.predUp = true ∨ w.out.phase = .failed)) (hq : heir w r = some q)
    (hc : w.succ.cells[q]? = some c) : lease w r = c.session.closeDeadline := by
  rw [lease, current, if_neg h, hq]
  simp only [session_cell hc]
  rfl

end

theorem holds_of_step (hs : step w a = some w') (h : w'.predUp = true ∨ w'.out.phase = .failed) :
    w.predUp = true ∨ w.out.phase = .failed := by
  cases a <;> simp only [step] at hs
  all_goals grind

theorem leaves_of_step (hs : step w a = some w') (h : w.predUp = true ∨ w.out.phase = .failed)
    (h' : ¬ (w'.predUp = true ∨ w'.out.phase = .failed)) :
    w.predUp = true ∧ w.out.phase ≠ .failed ∧ w'.pred = w.pred ∧ w'.succ = w.succ ∧ w'.adopted = w.adopted := by
  cases a <;> simp only [step] at hs
  all_goals grind

namespace TermInv

omit [Ghostty T] in
theorem paired_deadline (h : TermInv w) (hf : w.out.phase ≠ .failed) {r q : Ref} {i : Nat} {p : MigratePty} {fd : PtyId}
    {c c' : Cell T} (hq : (r, q) ∈ w.adopted) (hpair : Paired w r q i p fd c') (hc : w.pred.cells[r]? = some c) :
    c.session.closeDeadline = p.closeDeadline := by
  refine h.read ?_ i r c p fd hpair.session hpair.pty hc
  obtain ⟨_, haw | hfail | hex⟩ := h.sent (List.ne_nil_of_mem hq)
  · left
    rw [Out.running, haw]
  · exact absurd hfail hf
  · exact Or.inr hex

/-- A deadline stays, whichever daemon has the terminal, unless a reopen is answered in
time. -/
theorem lease_step (h : TermInv w) (ha : LeaseHeld w a) (hs : Handoff.step w a = some w') {r : Nat} {c : Cell T} {d : Nat}
    (hc : w.pred.cells[r]? = some c) (hd : lease w r = some d) :
    lease w' r = some d ∨ lease w' r = none ∧ reopens w r a = true ∧ w.pred.unixMillis < d := by
  have h' := h.step ha hs
  by_cases hup' : w'.predUp = true ∨ w'.out.phase = .failed
  · have hup := holds_of_step hs hup'
    rw [lease_of_pred hup hc] at hd
    obtain ⟨c', hc', hkept | ⟨hnone, hre, _, hlt⟩⟩ := h.pred_cleared hs hc hd
    · exact Or.inl ((lease_of_pred hup' hc').trans hkept)
    · exact Or.inr ⟨(lease_of_pred hup' hc').trans hnone, hre, hlt⟩
  · by_cases hup : w.predUp = true ∨ w.out.phase = .failed
    · -- the predecessor has just gone
      rw [lease_of_pred hup hc] at hd
      obtain ⟨hpup, hf, hpred, hsucc, hadopted⟩ := leaves_of_step hs hup hup'
      left
      cases hq : heir w' r with
      | none => exact (lease_of_none hq (hpred ▸ hc)).trans hd
      | some q =>
        have hmem : (r, q) ∈ w.adopted := hadopted ▸ heir_mem hq
        obtain ⟨i, p, fd, c', hpair⟩ := h.paired r q hmem
        rw [lease_of_heir hup' hq (hsucc ▸ hpair.cell), hpair.deadline hpup, ← h.paired_deadline hf hmem hpair hc]
        exact hd
    · have hf : w.out.phase ≠ .failed := fun hf => hup (Or.inr hf)
      have hf' : w'.out.phase ≠ .failed := fun hf => hup' (Or.inr hf)
      have hold : c.session.closeDeadline = some d → ∃ c', w'.pred.cells[r]? = some c' ∧ c'.session.closeDeadline = some d := by
        intro hd
        obtain ⟨c', hc', hkept | ⟨_, _, hpup, _⟩⟩ := h.pred_cleared hs hc hd
        · exact ⟨c', hc', hkept⟩
        · exact absurd (Or.inl hpup) hup
      rcases adopted_list_of_step hs with heq | ⟨ptys, setup, rfl, hrec, hlen, hadopt, heq⟩
      · have hheir : heir w' r = heir w r := by rw [heir, heir, heq]
        cases hq : heir w r with
        | none =>
          rw [lease_of_none hq hc] at hd
          obtain ⟨c', hc', hkept⟩ := hold hd
          exact Or.inl ((lease_of_none (hheir.trans hq) hc').trans hkept)
        | some q =>
          obtain ⟨_, _, _, cq, hpair⟩ := h.paired r q (heir_mem hq)
          rw [lease_of_heir hup hq hpair.cell] at hd
          obtain ⟨c', hc', hkept | ⟨hnone, hre, hlt⟩⟩ := h.succ_cleared hs (heir_mem hq) hpair.cell hd
          · exact Or.inl ((lease_of_heir hup' (hheir.trans hq) hc').trans hkept)
          · exact Or.inr ⟨(lease_of_heir hup' (hheir.trans hq) hc').trans hnone, hre, hlt⟩
      · -- adopted from a predecessor that is gone
        have hnone : heir w r = none := by
          rw [heir, h.before (by rw [hrec]; rfl)]
          rfl
        rw [lease_of_none hnone hc] at hd
        obtain ⟨c', hc', hkept⟩ := hold hd
        left
        cases hq : heir w' r with
        | none => exact (lease_of_none hq hc').trans hkept
        | some q =>
          have hmem := heir_mem hq
          obtain ⟨i, p, fd, cq, hpair, hdl, _⟩ := paired_adopt h.sole.hand hs hrec hlen hadopt (heq ▸ hmem)
          rw [lease_of_heir hup' hq hpair.cell, hdl, ← h'.paired_deadline hf' hmem hpair hc']
          exact hkept

theorem fires (h : TermInv w) (hs : Handoff.step w a = some w') {r : Nat} {t : Timer} (hf : Fires w r t a) :
    lease w r = some t.deadline ∧ t.deadline ≤ w.pred.clock := by
  rcases hf with ⟨i, rfl, ht, hdue⟩ | ⟨i, q, rfl, ht, hdue, hq⟩
  · simp only [Handoff.step, World.onPred, Option.ite_none_right_eq_some, Option.map_eq_some_iff] at hs
    obtain ⟨⟨hup, _⟩, s', hs, _⟩ := hs
    obtain ⟨_, c, hc, _, hd⟩ := due_some hdue
    exact ⟨(lease_of_pred (Or.inl hup) hc).trans hd, h.pred.deadline_le_clock hs ht⟩
  · simp only [Handoff.step, World.onSucc, Option.ite_none_right_eq_some, Option.map_eq_some_iff] at hs
    obtain ⟨⟨hsup, _⟩, s', hs, _⟩ := hs
    obtain ⟨_, c, hc, _, hd⟩ := due_some hdue
    refine ⟨?_, h.clocks ▸ h.succ.deadline_le_clock hs ht⟩
    obtain ⟨j, p, fd, c', hpair⟩ := h.paired r q hq
    rw [hpair.cell] at hc
    cases hc
    have hf : w.out.phase ≠ .failed := by
      intro hf
      have hown := h.sole.own hf hsup c (List.mem_of_getElem? hpair.cell)
      rw [hpair.adopted] at hown
      cases hown
    by_cases hup : w.predUp = true
    · obtain ⟨c₀, hc₀⟩ := h.sole.hand.listed r (List.mem_of_getElem? hpair.session)
      rw [lease_of_pred (Or.inl hup) hc₀, h.paired_deadline hf hq hpair hc₀, ← hpair.deadline hup, hd]
    · obtain ⟨q', hq'⟩ := heir_of_mem hq
      have := h.unique r q q' hq (heir_mem hq')
      subst this
      exact (lease_of_heir (fun hh => hh.elim hup hf) hq' hpair.cell).trans hd

theorem adopt_deadline (h : TermInv w) {setup : List Setup} (ha : LeaseHeld w (.adopt setup))
    (hs : Handoff.step w (.adopt setup) = some w') {r q : Nat} (hq : (r, q) ∈ w'.adopted) :
    ∃ c c', w'.pred.cells[r]? = some c ∧ w'.succ.cells[q]? = some c' ∧
      c'.session.closeDeadline = c.session.closeDeadline := by
  have h' := h.step ha hs
  rcases adopted_list_of_step hs with heq | ⟨ptys, setup', hset, hrec, hlen, hadopt, heq⟩
  · have hnil : w.adopted = [] := h.before (by
      simp only [Handoff.step] at hs
      grind [Accept.early])
    rw [heq, hnil] at hq
    cases hq
  · cases hset
    obtain ⟨i, p, fd, c', hpair, hdl, hle⟩ := paired_adopt h.sole.hand hs hrec hlen hadopt (heq ▸ hq)
    have hf' : w'.out.phase ≠ .failed := by
      intro hf'
      have hf : w.out.phase = .failed := by
        simp only [Handoff.step] at hs
        grind
      have hsame := ha.sole.adopt_length hs hf rfl
      have hlt := (List.getElem?_eq_some_iff.mp hpair.cell).1
      exact absurd (hsame ▸ hlt) (Nat.not_lt.mpr hle)
    obtain ⟨c, hc⟩ := h'.sole.hand.listed r (List.mem_of_getElem? hpair.session)
    exact ⟨c, c', hc, hpair.cell, hdl.trans (h'.paired_deadline hf' hq hpair hc).symm⟩

end TermInv

theorem Reached.lease {s : State T} (h : Reached s) : LeaseInv s := by
  obtain ⟨_, _, h⟩ := h
  exact lease_inv h

/-- The law of a close lease, in a run `tr` from `s` to `w`: in each daemon, and for a
terminal `r` that is handed over. -/
structure LeaseLaw (s : State T) (tr : List Label) (w : World T) : Prop where
  leased : ∀ u, u = w.pred ∨ u = w.succ → ∀ (r : Nat) c d, u.cells[r]? = some c → c.removal = none →
    c.session.closeDeadline = some d → Leased u r c d
  daemon : ∀ u, u = w.pred ∨ u = w.succ → ∀ b u' (r : Nat) c c', Manager.step u b = some u' → u.cells[r]? = some c →
    u'.cells[r]? = some c' → LeaseStep u b r c c'
  kept : ∀ before after w₁ (r : Nat) c d, tr = before ++ after → exec step (World.start s) before = some w₁ →
    w₁.pred.cells[r]? = some c → lease w₁ r = some d → Meets step (fun w a => reopens w r a = false) w₁ after →
    lease w r = some d
  cleared : ∀ before a after w₁ w₂ (r : Nat) c d, tr = before ++ a :: after → exec step (World.start s) before = some w₁ →
    step w₁ a = some w₂ → w₁.pred.cells[r]? = some c → lease w₁ r = some d → lease w₂ r ≠ some d →
    lease w₂ r = none ∧ reopens w₁ r a = true ∧ w₁.pred.unixMillis < d
  fired : ∀ before a after w₁ w₂ (r : Nat) t, tr = before ++ a :: after → exec step (World.start s) before = some w₁ →
    step w₁ a = some w₂ → Fires w₁ r t a → lease w₁ r = some t.deadline ∧ t.deadline ≤ w₁.pred.clock
  adopted : ∀ before setup after w₁ w₂ (r q : Nat), tr = before ++ .adopt setup :: after →
    exec step (World.start s) before = some w₁ → step w₁ (.adopt setup) = some w₂ → (r, q) ∈ w₂.adopted →
    ∃ c c', w₂.pred.cells[r]? = some c ∧ w₂.succ.cells[q]? = some c' ∧ c'.session.closeDeadline = c.session.closeDeadline
  armed : w.acc = .acking ∨ w.acc = .acked → ∀ r q, (r, q) ∈ w.adopted → ∃ c, w.succ.cells[q]? = some c ∧
    ∀ d, c.removal = none → c.session.closeDeadline = some d →
      ∃ t ∈ w.succ.timers, t.name = c.session.name ∧ t.generation = c.session.generation ∧ t.deadline = d

/-- In every upgrade in which no deadline changes after it was read and no two daemons have
a session, and so in every chain of them. -/
theorem close_lease {s : State T} (h₀ : Reached s) (tr : List Label) (hm : Meets step LeaseHeld (World.start s) tr)
    (h : exec step (World.start s) tr = some w) : LeaseLaw s tr w := by
  have hrun : ∀ {before after w₁}, tr = before ++ after → exec step (World.start s) before = some w₁ →
      TermInv w₁ ∧ Meets step LeaseHeld w₁ after := by
    rintro before after w₁ rfl h₁
    obtain ⟨hm₁, hm₂⟩ := meets_append.mp hm
    exact ⟨exec_inv_of_meets (fun _ _ _ ha hs hi => hi.step ha hs) hm₁ h₁ (TermInv.start h₀.lease), hm₂ w₁ h₁⟩
  have hi : TermInv w := (hrun (List.append_nil tr).symm h).1
  have hboth : ∀ u, u = w.pred ∨ u = w.succ → LeaseInv u := by
    rintro u (rfl | rfl)
    · exact hi.pred
    · exact hi.succ
  constructor
  · intro u hu r c d hc hn hd
    exact (hboth u hu).leased hc hn hd
  · intro u hu b u' r c c' hb hc hc'
    exact (hboth u hu).leaseStep hb hc hc'
  · rintro before after w₁ r c d heq h₁ hc hd hno
    obtain ⟨hi₁, hm₁⟩ := hrun heq h₁
    rw [heq] at h
    obtain ⟨w₀, h₀₁, h₂⟩ := exec_append_some.mp h
    rw [h₁] at h₀₁
    cases h₀₁
    have hend : TermInv w ∧ (∃ c, w.pred.cells[r]? = some c) ∧ lease w r = some d :=
      exec_inv_of_meets (I := fun w => TermInv w ∧ (∃ c, w.pred.cells[r]? = some c) ∧ lease w r = some d)
        (fun w a w' ha hs ⟨hi, ⟨c, hc⟩, hd⟩ => by
          obtain ⟨c', hc', _⟩ := pred_cell_of_step hs hc
          refine ⟨hi.step ha.1 hs, ⟨c', hc'⟩, (hi.lease_step ha.1 hs hc hd).resolve_right ?_⟩
          rintro ⟨_, hre, _⟩
          rw [ha.2] at hre
          cases hre)
        (hm₁.and hno) h₂ ⟨hi₁, ⟨c, hc⟩, hd⟩
    exact hend.2.2
  · intro before a after w₁ w₂ r c d heq h₁ hs hc hd hne
    obtain ⟨hi₁, hm₁⟩ := hrun heq h₁
    exact (hi₁.lease_step hm₁.1 hs hc hd).resolve_left hne
  · intro before a after w₁ w₂ r t heq h₁ hs hf
    exact (hrun heq h₁).1.fires hs hf
  · intro before setup after w₁ w₂ r q heq h₁ hs hq
    obtain ⟨hi₁, hm₁⟩ := hrun heq h₁
    exact hi₁.adopt_deadline hm₁.1 hs hq
  · intro hacc r q hq
    obtain ⟨c, hc, harm⟩ := hi.started hacc r q hq
    exact ⟨c, hc, fun d hn hd => hi.succ.armed q c d hc hn harm hd⟩

end

/-- A closed terminal is handed over, with a retry of its close on each side. -/
def leaseRun : List Label :=
  [.onPred (.openTerm "p1" [] 80 24 (.ok (7, 100)) 1), .onPred (.startLoop 0), .onPred (.closeFor "p1" 60000), .snapshot,
    .connect, .lock, .gather 80 24]

def leaseRest : List Label :=
  [.tick 5, .onPred (.closeFor "p1" 60000), .send, .accept, .receive, .adopt [⟨true, true, 3⟩], .onSucc (.startLoop 0),
    .onSucc (.armClose 0), .adoptedAll, .writeAck, .readAck, .tick 7, .onSucc (.closeFor "p1" 60000)]

theorem close_lease_handover : ∃ w₁ w : World Echo, exec step (World.start (State.new 0)) leaseRun = some w₁ ∧
    exec step w₁ leaseRest = some w ∧ lease w₁ 0 = some 60000 ∧ lease w 0 = some 60000 ∧ w.out.phase = .exited ∧
    (w.succ.closeFor "p1" 60000).1 = .ok 60000 := by
  have hm : Meets step LeaseHeld (World.start (State.new 0) : World Echo) (leaseRun ++ leaseRest) := by decide +kernel
  have hlaw := close_lease ⟨0, [], rfl⟩ (leaseRun ++ leaseRest) hm rfl
  have hno : Meets step (fun w a => reopens w 0 a = false) (World.start (State.new 0) : World Echo)
      (leaseRun ++ leaseRest) := by decide +kernel
  refine ⟨_, _, rfl, rfl, by decide +kernel, ?_, rfl, by decide +kernel⟩
  exact hlaw.kept leaseRun leaseRest _ 0 _ 60000 rfl rfl rfl (by decide +kernel) ((meets_append.mp hno).2 _ rfl)

/-- A close is answered after `hand_off` has read the deadline. -/
def lateCloseRun : List Label :=
  [.onPred (.openTerm "p1" [] 80 24 (.ok (7, 100)) 1), .onPred (.startLoop 0), .snapshot, .connect, .lock, .gather 80 24,
    .onPred (.closeFor "p1" 60000)]

def lateCloseRest : List Label :=
  [.send, .accept, .receive, .adopt [⟨true, true, 3⟩], .onSucc (.startLoop 0), .onSucc (.armClose 0), .adoptedAll,
    .writeAck, .readAck, .tick 5]

theorem late_close_forgotten : ∃ w₁ w : World Echo, exec step (World.start (State.new 0)) lateCloseRun = some w₁ ∧
    exec step w₁ lateCloseRest = some w ∧ (w₁.pred.closeFor "p1" 60000).1 = .ok 60000 ∧ lease w₁ 0 = some 60000 ∧
    w.adopted = [(0, 0)] ∧ lease w 0 = none ∧ w.succ.timers = [] ∧
    (w.succ.closeFor "p1" 60000).1 = .ok 60005 :=
  ⟨_, _, rfl, rfl, by decide +kernel, by decide +kernel, by decide +kernel, by decide +kernel, by decide +kernel,
    by decide +kernel⟩

end Mux.Handoff
