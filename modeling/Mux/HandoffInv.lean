import Mux.HandoffLemmas

/-!
# The invariant of an upgrade

What the predecessor has read of a session names that session and its master; what the
successor received is exactly that; and from the adoption on the successor has a session for
every pty of the payload, which until the predecessor is gone has the deadline that was
read. The ack is there only after the adoption, and `hand_off` ends well only after the ack.
-/

namespace Mux.Handoff

open Lib Manager

/-- `p` describes the session `c`, whose master is `fd`. -/
structure Describes {T : Type} (p : MigratePty) (fd : PtyId) (c : Cell T) : Prop where
  name : c.session.name = p.name
  child : c.session.child = p.childPid
  master : c.session.master = fd

structure HandInv {T : Type} (w : World T) : Prop where
  pred : TableInv w.pred
  succ : TableInv w.succ
  listed : ∀ r ∈ w.out.sessions, ∃ c, w.pred.cells[r]? = some c
  gathered : ∀ (i : Nat) p fd, w.out.ptys[i]? = some (p, fd) →
    ∃ r c, w.out.sessions[i]? = some r ∧ w.pred.cells[r]? = some c ∧ Describes p fd c
  message : ∀ ptys, w.message = some ptys → w.out.sent ∧ ptys = w.out.ptys
  received : ∀ ptys, w.acc = .received ptys → w.out.sent ∧ ptys = w.out.ptys
  adopted : w.acc.adopted = true → w.out.sent ∧ ∀ (i : Nat) p fd, w.out.ptys[i]? = some (p, fd) →
    ∃ r q c, w.out.sessions[i]? = some r ∧ (r, q) ∈ w.adopted ∧ w.succ.cells[q]? = some c ∧ Describes p fd c ∧
      (w.predUp = true → c.session.closeDeadline = p.closeDeadline)
  acked : w.ack = true → w.acc = .acked
  exited : w.out.phase = .exited → w.ack = true

section
variable {T : Type}

theorem Describes.of_ident {p : MigratePty} {fd : PtyId} {c c' : Cell T} (h : Describes p fd c)
    (hi : ident c'.session = ident c.session) : Describes p fd c' := by
  have hmaster : c'.session.master = c.session.master := congrArg (·.2.2.2.1) hi
  have hchild : c'.session.child = c.session.child := congrArg (·.2.2.2.2.1) hi
  exact ⟨(name_of_ident hi).trans h.name, hchild.trans h.child, hmaster.trans h.master⟩

theorem mem_liveSessions {s : State T} {r : Ref} (h : r ∈ liveSessions s) :
    isLive s r = true ∧ ∃ k, s.ptys.get k = some r := by
  simp only [liveSessions, List.mem_insertionSort, List.mem_filter, List.mem_map] at h
  obtain ⟨⟨e, he, rfl⟩, hl⟩ := h
  exact ⟨hl, e.1, Table.mem_entries.mp he⟩

theorem mem_incoming {ptys : List (MigratePty × PtyId)} {setup : List Setup} (hlen : setup.length = ptys.length)
    {i : Nat} {p : MigratePty} {fd : PtyId} (h : ptys[i]? = some (p, fd)) :
    ∃ inc ∈ incoming ptys setup, inc.pty = p ∧ inc.master = fd := by
  have hi : i < setup.length := hlen ▸ (List.getElem?_eq_some_iff.mp h).1
  have hu : setup[i]? = some setup[i] := List.getElem?_eq_getElem hi
  refine ⟨⟨p, fd, setup[i].nonblocking, setup[i].asyncFd, setup[i].generation⟩, ?_, rfl, rfl⟩
  refine List.mem_of_getElem? (i := i) ?_
  simp only [incoming, List.getElem?_zipWith, h, hu]

theorem of_mem_incoming {ptys : List (MigratePty × PtyId)} {setup : List Setup} {inc : Incoming}
    (h : inc ∈ incoming ptys setup) : ∃ i : Nat, ptys[i]? = some (inc.pty, inc.master) := by
  obtain ⟨i, hi⟩ := List.getElem?_of_mem h
  rw [incoming, List.getElem?_zipWith] at hi
  split at hi
  · rename_i p u hp _
    cases hi
    exact ⟨i, hp⟩
  · cases hi

theorem mem_pairs {sessions : List Ref} {ptys : List (MigratePty × PtyId)} {succ : State T} {r q : Ref} {i : Nat}
    {p : MigratePty} {fd : PtyId} (hr : sessions[i]? = some r) (hp : ptys[i]? = some (p, fd))
    (hq : succ.ptys.get p.name = some q) : (r, q) ∈ pairs sessions ptys succ := by
  refine List.mem_filterMap.mpr ⟨(r, (p, fd)), List.mem_of_getElem? (i := i) ?_, ?_⟩
  · simp only [List.getElem?_zip_eq_some]
    exact ⟨hr, hp⟩
  · simp only [hq, Option.map_some]

variable [Ghostty T]

theorem adoptMany_installs {s s' : State T} {inc : List Incoming} (hi : TableInv s)
    (h : s.adoptMany inc = (.ok (), s')) {i : Incoming} (hmem : i ∈ inc) :
    ∃ q terminal, s'.ptys.get i.pty.name = some q ∧ s.cells.length ≤ q ∧
      s'.cells[q]? = some (State.freshCell (adoptedSession i terminal)) := by
  have hs' : TableInv s' := by
    have := hi.adoptMany inc
    rwa [h] at this
  rcases adoptMany_cases s inc with ⟨e, heq⟩ | ⟨staged, hstage, _, _, heq⟩
  · rw [h] at heq; cases heq
  · rw [h] at heq
    obtain ⟨terminal, hget⟩ := (stage_complete hstage).2 i hmem
    obtain ⟨j, hj⟩ := List.getElem?_of_mem
      ((Table.mem_entries (e := ⟨i.pty.name, adoptedSession i terminal⟩)).mpr hget)
    have hcell : s'.cells[s.cells.length + j]? = some (State.freshCell (adoptedSession i terminal)) := by
      rw [(Prod.mk.inj heq).2, extend_cells, List.getElem?_append_right (Nat.le_add_right _ _), Nat.add_sub_cancel_left,
        List.getElem?_map, hj]
      rfl
    exact ⟨_, terminal, hs'.live _ _ hcell rfl, Nat.le_add_right _ _, hcell⟩

theorem installed_adoptMany {s s' : State T} {ptys : List (MigratePty × PtyId)} {setup : List Setup}
    (hlen : setup.length = ptys.length) (h : s.adoptMany (incoming ptys setup) = (.ok (), s'))
    (x : String × Pid × Option Nat) :
    x ∈ (s'.cells.drop s.cells.length).map (fun c => tuple c.session) ↔
      ∃ i : Nat, ∃ p fd, ptys[i]? = some (p, fd) ∧ x = (p.name, p.childPid, p.closeDeadline) := by
  rcases adoptMany_cases s (incoming ptys setup) with ⟨e, heq⟩ | ⟨staged, hstage, _, _, heq⟩
  · rw [h] at heq; cases heq
  · rw [h] at heq
    rw [(Prod.mk.inj heq).2, extend_cells, List.drop_left, List.map_map, List.mem_map]
    constructor
    · rintro ⟨e, he, rfl⟩
      rcases stage_get hstage (Table.mem_entries.mp he) with hk | ⟨inc, hinc, terminal, _, hp⟩
      · cases hk
      · obtain ⟨i, hi⟩ := of_mem_incoming hinc
        refine ⟨i, inc.pty, inc.master, hi, ?_⟩
        simp only [Function.comp_apply, hp]
        rfl
    · rintro ⟨i, p, fd, hp, rfl⟩
      obtain ⟨inc, hinc, rfl, rfl⟩ := mem_incoming hlen hp
      obtain ⟨terminal, hget⟩ := (stage_complete hstage).2 inc hinc
      exact ⟨⟨inc.pty.name, adoptedSession inc terminal⟩, Table.mem_entries.mpr hget, rfl⟩

namespace HandInv

variable {w w' : World T} {a : Label}

theorem gathered_step (h : HandInv w) (hs : step w a = some w') {i : Nat} {p : MigratePty} {fd : PtyId}
    (hp : w'.out.ptys[i]? = some (p, fd)) :
    ∃ r c, w'.out.sessions[i]? = some r ∧ w'.pred.cells[r]? = some c ∧ Describes p fd c := by
  have hold : w.out.ptys[i]? = some (p, fd) →
      ∃ r c, w.out.sessions[i]? = some r ∧ w'.pred.cells[r]? = some c ∧ Describes p fd c := by
    intro hp
    obtain ⟨r, c, hr, hc, hd⟩ := h.gathered i p fd hp
    obtain ⟨c', hc', hident⟩ := pred_cell_of_step hs hc
    exact ⟨r, c', hr, hc', hd.of_ident hident⟩
  rcases out_of_step hs with ⟨hsess, hptys⟩ | ⟨_, _, hout⟩ | ⟨cols, rows, r, q, rfl, _, hr, hq, hout⟩
  · rw [hptys] at hp
    rw [hsess]
    exact hold hp
  · rw [hout] at hp
    cases hp
  · rw [hout] at hp ⊢
    rw [List.getElem?_append] at hp
    split at hp
    · exact hold hp
    · rename_i hlt
      have hi := (List.getElem?_eq_some_iff.mp hp).1
      rw [List.length_singleton] at hi
      have hi : i = w.out.ptys.length := by omega
      subst hi
      rw [Nat.sub_self] at hp
      cases hp
      obtain ⟨c, hc, rfl⟩ := session_some hq
      obtain ⟨c', hc', hident⟩ := pred_cell_of_step hs hc
      exact ⟨r, c', hr, hc', Describes.of_ident ⟨rfl, rfl, rfl⟩ hident⟩

theorem succ_deadline_of_step (hs : step w a = some w') (hup : w'.predUp = true) {q : Nat} {c c' : Cell T}
    (hc : w.succ.cells[q]? = some c) (hc' : w'.succ.cells[q]? = some c') :
    c'.session.closeDeadline = c.session.closeDeadline := by
  have hquiet : ∀ b, succLabel w a = some b → World.isRequest b = false := by
    intro b hb
    cases a <;> simp only [step] at hs
    all_goals grind [succLabel, World.isRequest, World.isOwn]
  rcases succ_of_step hs with ⟨_, heq⟩ | ⟨b, hb, hstep⟩
  · rw [heq, hc] at hc'
    rw [Option.some.inj hc']
  · obtain ⟨c₁, hc₁, he⟩ := evolves_of_step hstep hc
    rw [hc'] at hc₁
    cases hc₁
    rcases he.deadline with heq | ⟨name, retention, rfl, _⟩ | ⟨name, rfl, _⟩
    · exact heq
    · cases hquiet _ hb
    · cases hquiet _ hb

theorem adopted_step (h : HandInv w) (hs : step w a = some w') (ha : w'.acc.adopted = true) :
    w'.out.sent ∧ ∀ (i : Nat) p fd, w'.out.ptys[i]? = some (p, fd) →
      ∃ r q c, w'.out.sessions[i]? = some r ∧ (r, q) ∈ w'.adopted ∧ w'.succ.cells[q]? = some c ∧ Describes p fd c ∧
        (w'.predUp = true → c.session.closeDeadline = p.closeDeadline) := by
  rcases adopted_of_step hs ha with ⟨hold, hpairs, _⟩ | ⟨ptys, setup, rfl, hacc, hlen, hadopt, hpairs, _⟩
  · obtain ⟨hsent, hall⟩ := h.adopted hold
    obtain ⟨hsent', hsess, hptys⟩ := sent_of_step hs hsent
    refine ⟨hsent', fun i p fd hp => ?_⟩
    obtain ⟨r, q, c, hr, hq, hc, hd, hdl⟩ := hall i p fd (hptys ▸ hp)
    obtain ⟨c', hc', hident⟩ := succ_cell_of_step hs hc
    refine ⟨r, q, c', hsess ▸ hr, hpairs ▸ hq, hc', hd.of_ident hident, fun hup => ?_⟩
    exact (succ_deadline_of_step hs hup hc hc').trans (hdl (predUp_of_step hs hup))
  · obtain ⟨hsent, rfl⟩ := h.received ptys hacc
    obtain ⟨hsent', hsess, hptys⟩ := sent_of_step hs hsent
    refine ⟨hsent', fun i p fd hp => ?_⟩
    rw [hptys] at hp
    obtain ⟨r, _, hr, _, _⟩ := h.gathered i p fd hp
    obtain ⟨inc, hmem, rfl, rfl⟩ := mem_incoming hlen hp
    obtain ⟨q, terminal, hq, _, hcell⟩ := adoptMany_installs h.succ hadopt hmem
    exact ⟨r, q, _, hsess ▸ hr, hpairs ▸ mem_pairs hr hp hq, hcell, ⟨rfl, rfl, rfl⟩, fun _ => rfl⟩

theorem step (h : HandInv w) (hs : step w a = some w') : HandInv w' where
  pred := pred_keeps (fun _ _ _ hb hi => TableInv.step hi hb) hs h.pred
  succ := succ_keeps (fun _ _ _ hb hi => TableInv.step hi hb) hs h.succ
  listed := by
    intro r hr
    have hold : ∃ c, w.pred.cells[r]? = some c := by
      rcases out_of_step hs with ⟨hsess, _⟩ | ⟨_, _, hout⟩ | ⟨_, _, _, _, _, _, _, _, hout⟩
      · exact h.listed r (hsess ▸ hr)
      · rw [hout] at hr
        obtain ⟨_, k, hk⟩ := mem_liveSessions hr
        obtain ⟨c, hc, _⟩ := h.pred.key k r hk
        exact ⟨c, hc⟩
      · rw [hout] at hr
        exact h.listed r hr
    obtain ⟨c, hc⟩ := hold
    obtain ⟨c', hc', _⟩ := pred_cell_of_step hs hc
    exact ⟨c', hc'⟩
  gathered := fun i p fd hp => h.gathered_step hs hp
  message := by
    intro ptys hm
    rcases message_of_step hs hm with hm | hm
    · obtain ⟨hsent, rfl⟩ := h.message ptys hm
      obtain ⟨hsent', _, hptys⟩ := sent_of_step hs hsent
      exact ⟨hsent', hptys.symm⟩
    · exact hm
  received := by
    intro ptys hacc
    have hold : w.out.sent ∧ ptys = w.out.ptys := by
      rcases received_of_step hs hacc with hacc | hm
      · exact h.received ptys hacc
      · exact h.message ptys hm
    obtain ⟨hsent', _, hptys⟩ := sent_of_step hs hold.1
    exact ⟨hsent', hold.2.trans hptys.symm⟩
  adopted := fun ha => h.adopted_step hs ha
  acked := fun ha => ack_of_step hs h.acked ha
  exited := fun he => exited_of_step hs h.exited he

/-- Deadlines that were read stay as read if the step keeps those of the gathered sessions. -/
theorem deadline_step (h : HandInv w) (hs : Handoff.step w a = some w')
    (hread : (w.out.running = true ∨ w.out.phase = .exited) → ∀ (i : Nat) r c p fd, w.out.sessions[i]? = some r →
      w.out.ptys[i]? = some (p, fd) → w.pred.cells[r]? = some c → c.session.closeDeadline = p.closeDeadline)
    (hkeep : (w.out.running = true ∨ w.out.phase = .exited) → ∀ r ∈ w.out.gathered, ∀ c c', w.pred.cells[r]? = some c →
      w'.pred.cells[r]? = some c' → c'.session.closeDeadline = c.session.closeDeadline)
    (hr' : w'.out.running = true ∨ w'.out.phase = .exited) {i : Nat} {r : Ref} {c' : Cell T} {p : MigratePty} {fd : PtyId}
    (hi : w'.out.sessions[i]? = some r) (hp : w'.out.ptys[i]? = some (p, fd)) (hc' : w'.pred.cells[r]? = some c') :
    c'.session.closeDeadline = p.closeDeadline := by
  rcases running_of_step hs hr' with hr | ⟨hout, _⟩
  · rcases out_of_step hs with ⟨hsess, hptys⟩ | ⟨_, hidle, _⟩ | ⟨cols, rows, r₀, p₀, rfl, _, hr₀, hp₀, hout⟩
    · rw [hsess] at hi
      rw [hptys] at hp
      obtain ⟨c, hc⟩ := h.listed r (List.mem_of_getElem? hi)
      rw [← hread hr i r c p fd hi hp hc]
      have hlt := (List.getElem?_eq_some_iff.mp hp).1
      refine hkeep hr r (List.mem_of_getElem? (i := i) ?_) c c' hc hc'
      rw [Out.gathered, List.getElem?_take_of_lt hlt, hi]
    · simp [Out.running, hidle] at hr
    · have hpred : w'.pred = w.pred := by
        rcases pred_of_step hs with ⟨_, heq⟩ | ⟨b, hb, _⟩
        · exact heq
        · cases hb
      rw [hpred] at hc'
      rw [hout] at hi hp
      rw [List.getElem?_append] at hp
      split at hp
      · exact hread hr i r c' p fd hi hp hc'
      · have hlen := (List.getElem?_eq_some_iff.mp hp).1
        rw [List.length_singleton] at hlen
        have hiq : i = w.out.ptys.length := by omega
        subst hiq
        rw [Nat.sub_self] at hp
        cases hp
        rw [show w.out.sessions[w.out.ptys.length]? = some r from hi] at hr₀
        cases hr₀
        rw [session_cell hc'] at hp₀
        cases hp₀
        rfl
  · rw [hout] at hp
    cases hp

omit [Ghostty T] in
theorem start {s : State T} (h : TableInv s) : HandInv (World.start s) where
  pred := h
  succ := TableInv.new s.clock
  listed := nofun
  gathered := nofun
  message := nofun
  received := nofun
  adopted := nofun
  acked := nofun
  exited := nofun

end HandInv

theorem Reached.table {s : State T} (h : Reached s) : TableInv s := by
  obtain ⟨_, _, h⟩ := h
  exact table_inv h

theorem hand_inv {w : World T} {s : State T} {tr : List Label} (h₀ : Reached s)
    (h : exec step (World.start s) tr = some w) : HandInv w :=
  exec_inv (fun _ _ _ hs hi => HandInv.step hi hs) h (HandInv.start h₀.table)

end

end Mux.Handoff
