import Mux.HandoffInv

/-!
# No terminal is lost by an upgrade

The predecessor leaves only after the ack, and the ack is written only after the adoption,
which installs all ptys of the payload or none. So a session of the snapshot is in the
predecessor's table as long as the predecessor is there, and in the successor's when it has
left.
-/

namespace Mux.Handoff

open Lib Manager

/-- `s` has a session for the pty `p` with master `fd`, under its name unless something has
removed it since. -/
def HeldBy {T : Type} (s : State T) (p : MigratePty) (fd : PtyId) : Prop :=
  ∃ q c, s.cells[q]? = some c ∧ Describes p fd c ∧ (c.removal = none → s.ptys.get p.name = some q)

section
variable {T : Type}

/-- The session `r` of the predecessor goes on as a session of the successor. -/
def GoesOn (w : World T) (r : Ref) (c : Cell T) : Prop :=
  ∃ q c', (r, q) ∈ w.adopted ∧ w.succ.cells[q]? = some c' ∧ c'.session.name = c.session.name ∧
    c'.session.child = c.session.child ∧ c'.session.master = c.session.master ∧
    (c'.removal = none → w.succ.ptys.get c.session.name = some q)

variable {w : World T}

theorem held_of_ack (h : HandInv w) (ha : w.ack = true) {i : Nat} {p : MigratePty} {fd : PtyId}
    (hp : w.out.ptys[i]? = some (p, fd)) : HeldBy w.succ p fd := by
  obtain ⟨_, hall⟩ := h.adopted (by rw [h.acked ha]; rfl)
  obtain ⟨r, q, c, _, _, hc, hd, _⟩ := hall i p fd hp
  refine ⟨q, c, hc, hd, fun hn => ?_⟩
  have hlive := h.succ.live q c hc hn
  rwa [hd.name] at hlive

theorem goesOn_of_exited (h : HandInv w) (he : w.out.phase = .exited) {r : Ref} {c : Cell T} (hr : r ∈ w.out.sessions)
    (hc : w.pred.cells[r]? = some c) : GoesOn w r c := by
  obtain ⟨hsent, hall⟩ := h.adopted (by rw [h.acked (h.exited he)]; rfl)
  obtain ⟨i, hi⟩ := List.getElem?_of_mem hr
  have hlt : i < w.out.ptys.length := hsent.1 ▸ (List.getElem?_eq_some_iff.mp hi).1
  have hp : w.out.ptys[i]? = some (w.out.ptys[i].1, w.out.ptys[i].2) := List.getElem?_eq_getElem hlt
  obtain ⟨r₁, c₁, hr₁, hc₁, hd₁⟩ := h.gathered i _ _ hp
  rw [hi] at hr₁
  cases hr₁
  rw [hc] at hc₁
  cases hc₁
  obtain ⟨r₂, q, c', hr₂, hq, hc', hd, _⟩ := hall i _ _ hp
  rw [hi] at hr₂
  cases hr₂
  refine ⟨q, c', hq, hc', hd.name.trans hd₁.name.symm, hd.child.trans hd₁.child.symm,
    hd.master.trans hd₁.master.symm, fun hn => ?_⟩
  have hlive := h.succ.live q c' hc' hn
  rwa [hd.name, ← hd₁.name] at hlive

variable [Ghostty T]

theorem adoptMany_error {s : State T} {inc : List Incoming} {e : String} (h : (s.adoptMany inc).1 = .error e) :
    (s.adoptMany inc).2 = s := by
  rcases adoptMany_cases s inc with ⟨e', heq⟩ | ⟨staged, _, _, _, heq⟩
  · rw [heq]
  · rw [heq] at h; cases h

/-- At every moment of an upgrade. -/
theorem no_terminal_lost {s : State T} (h₀ : Reached s) (tr : List Label) (h : exec step (World.start s) tr = some w) :
    (w.out.phase = .exited → w.ack = true) ∧
      (w.ack = true → ∀ (i : Nat) p fd, w.out.ptys[i]? = some (p, fd) → HeldBy w.succ p fd) ∧
      (∀ pre setup post w₁ w₂, tr = pre ++ .adopt setup :: post →
        exec step (World.start s) pre = some w₁ → step w₁ (.adopt setup) = some w₂ → w₂.acc = .failed →
        w₂.succ = w₁.succ) ∧
      (∀ (s : State T) inc e, (s.adoptMany inc).1 = .error e → (s.adoptMany inc).2 = s) ∧
      ∀ r ∈ w.out.sessions, ∃ c, w.pred.cells[r]? = some c ∧
        (w.predUp = true → c.removal = none → w.pred.ptys.get c.session.name = some r) ∧
        (w.out.phase = .exited → GoesOn w r c) := by
  have hi := hand_inv h₀ h
  refine ⟨hi.exited, fun ha i p fd hp => held_of_ack hi ha hp, ?_, fun s inc e he => adoptMany_error he, ?_⟩
  · intro pre setup post w₁ w₂ _ _ hs hf
    simp only [step, World.adopt] at hs
    split at hs
    · split at hs
      · split at hs
        · rename_i e succ heq
          cases hs
          have := adoptMany_error (congrArg Prod.fst heq)
          rwa [heq] at this
        · cases hs
          cases hf
      · cases hs
    · cases hs
  · intro r hr
    obtain ⟨c, hc⟩ := hi.listed r hr
    exact ⟨c, hc, fun _ hn => hi.pred.live r c hc hn, fun he => goesOn_of_exited hi he hr hc⟩

end

/-- Two shells are handed over. -/
def upgradeRun : List Label :=
  [.onPred (.openTerm "p2" [] 80 24 (.ok (7, 100)) 1), .onPred (.startLoop 0),
    .onPred (.openTerm "p1" [] 80 24 (.ok (8, 101)) 2), .snapshot, .connect, .lock, .lock, .gather 80 24, .gather 80 24,
    .send, .accept, .receive, .adopt [⟨true, true, 3⟩, ⟨true, true, 4⟩], .onSucc (.startLoop 0), .onSucc (.armClose 0),
    .onSucc (.startLoop 1), .onSucc (.armClose 1), .adoptedAll, .writeAck, .readAck]

theorem no_terminal_lost_upgrade : ∃ w : World Echo, exec step (World.start (State.new 0)) upgradeRun = some w ∧
    w.out.phase = .exited ∧ w.out.sessions = [1, 0] ∧ ∃ c, w.pred.cells[0]? = some c ∧ GoesOn w 0 c := by
  obtain ⟨_, _, _, _, hall⟩ := no_terminal_lost (T := Echo) ⟨0, [], rfl⟩ upgradeRun rfl
  obtain ⟨c, hc, _, hon⟩ := hall 0 (by decide +kernel)
  exact ⟨_, rfl, rfl, by decide +kernel, c, hc, hon rfl⟩

end Mux.Handoff
