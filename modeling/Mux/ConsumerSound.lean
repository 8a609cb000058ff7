import Mux.HandoffInv
import Mux.StreamInv

/-!
# Who reads a pty after a failed handoff

The successor reads as soon as it has adopted, before its ack is written; the predecessor
gives up on a timer of its own and reads again. They do not both read as long as `hand_off`
does not fail once the successor has adopted and the successor does not adopt once
`hand_off` has failed.
-/

namespace Mux.Handoff

open Lib Manager

/-! ## The bytes of a run -/

def bytesOf (p : PtyId) (rs : List Read) : Bytes := (rs.filter fun rd => decide (rd.pty = p)).flatMap (·.bytes)

def chunksFor (r : Ref) (rs : List Read) : List Bytes :=
  (rs.filter fun rd => decide (rd.side = .pred) && decide (rd.ref = r)).map (·.bytes)

def Label.output (p : PtyId) : Label → Bytes
  | .produce q bytes => if p = q then bytes else []
  | _ => []

theorem bytesOf_append (p : PtyId) (xs ys : List Read) : bytesOf p (xs ++ ys) = bytesOf p xs ++ bytesOf p ys := by
  simp [bytesOf]

theorem chunksFor_append (r : Ref) (xs ys : List Read) : chunksFor r (xs ++ ys) = chunksFor r xs ++ chunksFor r ys := by
  simp [chunksFor]

section
variable {T : Type} [Ghostty T]

/-- Between two moments: every byte a pty wrote was read once or is still waiting, and every
terminal of the predecessor was fed what its read loop read. -/
structure Conserved (w w' : World T) (tr : List Label) (new : List Read) : Prop where
  reads : w'.reads = w.reads ++ new
  bytes : ∀ p, bytesOf p new ++ w'.tty p = w.tty p ++ tr.flatMap (·.output p)
  terminal : ∀ (r : Nat) c, w.pred.cells[r]? = some c → ∃ c', w'.pred.cells[r]? = some c' ∧
    c'.session.terminal = (chunksFor r new).foldl Terminal.feed c.session.terminal

variable {w w' : World T} {a : Label}

def readOf (w : World T) : Label → List Read
  | .predRead r n => (w.pred.session? r).toList.map fun p => ⟨.pred, r, p.master, (w.tty p.master).take n⟩
  | .succRead r n => (w.succ.session? r).toList.map fun p => ⟨.succ, r, p.master, (w.tty p.master).take n⟩
  | _ => []

theorem reads_of_step (hs : step w a = some w') : w'.reads = w.reads ++ readOf w a := by
  cases a <;> simp only [step] at hs
  all_goals grind [readOf]

omit [Ghostty T] in
theorem consume_tty (w : World T) (side : Side) (r : Ref) (p q : PtyId) (n : Nat) :
    bytesOf q [⟨side, r, p, (w.tty p).take n⟩] ++ (w.consume side r p n).tty q = w.tty q := by
  by_cases h : q = p
  · subst h
    simp [bytesOf, World.consume]
  · simp [bytesOf, World.consume, h, Ne.symm h]

theorem bytes_of_step (hs : step w a = some w') (p : PtyId) :
    bytesOf p (readOf w a) ++ w'.tty p = w.tty p ++ a.output p := by
  cases a with
  | produce q bytes =>
    cases hs
    by_cases h : p = q
    · subst h; simp [readOf, bytesOf, Label.output]
    · simp [readOf, bytesOf, Label.output, h]
  | predRead r n =>
    simp only [step, World.predRead, Option.ite_none_right_eq_some, Option.bind_eq_some_iff, Option.map_eq_some_iff] at hs
    obtain ⟨_, q, hq, s, _, rfl⟩ := hs
    simp only [readOf, hq, Option.toList_some, List.map_cons, List.map_nil, Label.output, List.append_nil]
    exact consume_tty w .pred r q.master p n
  | succRead r n =>
    simp only [step, World.succRead, Option.ite_none_right_eq_some, Option.bind_eq_some_iff, Option.map_eq_some_iff] at hs
    obtain ⟨_, q, hq, s, _, rfl⟩ := hs
    simp only [readOf, hq, Option.toList_some, List.map_cons, List.map_nil, Label.output, List.append_nil]
    exact consume_tty w .succ r q.master p n
  | _ =>
    have htty : w'.tty = w.tty := by
      simp only [step] at hs
      grind
    simp [readOf, bytesOf, Label.output, htty]

theorem chunksFor_readOf (hs : step w a = some w') (r : Ref) :
    chunksFor r (readOf w a) = ((predLabel w a).map (·.fed r)).getD [] := by
  cases a with
  | predRead q n =>
    simp only [step, World.predRead, Option.ite_none_right_eq_some, Option.bind_eq_some_iff] at hs
    obtain ⟨_, p, hp, _⟩ := hs
    by_cases h : q = r
    · subst h
      simp [readOf, chunksFor, predLabel, hp, Manager.Label.fed]
    · simp [readOf, chunksFor, predLabel, hp, h, Manager.Label.fed]
  | succRead q n =>
    simp only [step, World.succRead, Option.ite_none_right_eq_some, Option.bind_eq_some_iff] at hs
    obtain ⟨_, p, hp, _⟩ := hs
    simp [readOf, chunksFor, predLabel, hp]
  | onPred b =>
    simp only [step, World.onPred, Option.ite_none_right_eq_some] at hs
    cases b with
    | read q chunk => simp [World.isOwn] at hs
    | _ => rfl
  | _ => rfl

theorem conserved_step (hs : step w a = some w') : Conserved w w' [a] (readOf w a) where
  reads := reads_of_step hs
  bytes := fun p => by
    rw [bytes_of_step hs p, List.flatMap_singleton]
  terminal := by
    intro r c hc
    rw [chunksFor_readOf hs]
    rcases pred_of_step hs with ⟨hb, heq⟩ | ⟨b, hb, hstep⟩
    · rw [hb]
      exact ⟨c, heq ▸ hc, rfl⟩
    · rw [hb]
      obtain ⟨c', hc', he⟩ := evolves_of_step hstep hc
      exact ⟨c', hc', he.terminal⟩

/-- By induction on the run, from one step. -/
theorem conserved_run : ∀ {tr : List Label} {w w' : World T}, exec step w tr = some w' → ∃ new, Conserved w w' tr new
  | [], w, w', h => by
    cases h
    refine ⟨[], (List.append_nil _).symm, fun p => ?_, fun r c hc => ⟨c, hc, rfl⟩⟩
    simp [bytesOf]
  | a :: tr, w, w', h => by
    obtain ⟨w₁, hs, h⟩ := exec_cons_some.mp h
    have hone := conserved_step hs
    obtain ⟨new, hrest⟩ := conserved_run h
    refine ⟨readOf w a ++ new, ?_, fun p => ?_, fun r c hc => ?_⟩
    · rw [hrest.reads, hone.reads, List.append_assoc]
    · have h1 := hone.bytes p
      rw [List.flatMap_singleton] at h1
      rw [bytesOf_append, List.append_assoc, hrest.bytes p, ← List.append_assoc, h1, List.append_assoc,
        List.flatMap_cons]
    · obtain ⟨c₁, hc₁, h1⟩ := hone.terminal r c hc
      obtain ⟨c₂, hc₂, h2⟩ := hrest.terminal r c₁ hc₁
      exact ⟨c₂, hc₂, by rw [chunksFor_append, List.foldl_append, ← h1, h2]⟩

/-! ## One daemon has the sessions -/

/-- `hand_off` fails only while the successor has no session or is dead, and nothing is
adopted after it has failed. -/
def Sole (w : World T) : Label → Prop
  | .handOffErr => w.succ.cells.isEmpty = true ∨ w.succUp = false
  | .adopt setup => w.out.phase = .failed →
    ((w.adopt setup).all fun w' => decide (w'.succ.cells.length = w.succ.cells.length)) = true
  | _ => True

instance (w : World T) (a : Label) : Decidable (Sole w a) := by
  unfold Sole
  split <;> infer_instance

structure SoleInv (w : World T) : Prop where
  hand : HandInv w
  early : w.predUp = true → ¬ w.out.sent → w.succ.cells = []
  own : w.out.phase = .failed → w.succUp = true → ∀ c ∈ w.succ.cells, c.session.adopted = false
  alone : w.out.phase = .failed → w.predUp = true → w.succUp = false ∨ w.succ.cells = []

theorem failed_of_step (hs : step w a = some w') (h : w'.out.phase = .failed) :
    w.out.phase = .failed ∨
      (a = .handOffErr ∨ w.predUp = true ∧ w.out.phase = .idle) ∧
        w'.succ = w.succ ∧ w'.succUp = w.succUp ∧ w'.reads = w.reads := by
  cases a <;> simp only [step] at hs
  all_goals grind

theorem failed_step (hs : step w a = some w') (h : w.out.phase = .failed) : w'.out.phase = .failed := by
  cases a <;> simp only [step] at hs
  all_goals grind [Out.running]

theorem succ_nil_of_step (hs : step w a = some w') (h : w'.succ.cells = []) : w.succ.cells = [] := by
  rcases hcells : w.succ.cells with _ | ⟨c, cs⟩
  · rfl
  · obtain ⟨c', hc', _⟩ := succ_cell_of_step hs (show w.succ.cells[0]? = some c by rw [hcells]; rfl)
    rw [h] at hc'
    cases hc'

theorem succ_nil_step (hs : step w a = some w') (hup : w.predUp = true) (h : w.succ.cells = [])
    (ha : ∀ setup, a = .adopt setup → w'.succ.cells.length = w.succ.cells.length) : w'.succ.cells = [] := by
  rcases hcells : w'.succ.cells with _ | ⟨c', cs⟩
  · rfl
  · rcases succ_cell_cases hs (show w'.succ.cells[0]? = some c' by rw [hcells]; rfl) with ⟨c, hc, _⟩ | ⟨hdown, _⟩ | ⟨setup, rfl, hlt⟩
    · rw [h] at hc
      cases hc
    · rw [hup] at hdown
      cases hdown
    · rw [ha setup rfl] at hlt
      exact absurd hlt (Nat.lt_irrefl _)

theorem Sole.adopt_length {setup : List Setup} (ha : Sole w a) (hs : step w a = some w') (hf : w.out.phase = .failed)
    (hadopt : a = .adopt setup) : w'.succ.cells.length = w.succ.cells.length := by
  subst hadopt
  have h := ha hf
  rw [show w.adopt setup = some w' from hs] at h
  exact of_decide_eq_true h

namespace SoleInv

theorem early_step (h : SoleInv w) (hs : step w a = some w') (hup : w'.predUp = true) (hn : ¬ w'.out.sent) :
    w'.succ.cells = [] := by
  have hup := predUp_of_step hs hup
  have hn : ¬ w.out.sent := fun hsent => hn (sent_of_step hs hsent).1
  refine succ_nil_step hs hup (h.early hup hn) fun setup hadopt => ?_
  -- what is adopted was received, so the payload was complete
  subst hadopt
  have hrec : ∃ ptys, w.acc = .received ptys := by
    simp only [Handoff.step] at hs
    grind
  obtain ⟨ptys, hrec⟩ := hrec
  exact absurd (h.hand.received ptys hrec).1 hn

theorem at_failure (h : SoleInv w) (ha : Sole w a) (hf : a = .handOffErr ∨ w.predUp = true ∧ w.out.phase = .idle) :
    w.succUp = false ∨ w.succ.cells = [] := by
  rcases hf with rfl | ⟨hup, hidle⟩
  · rcases ha with hnil | hdown
    · exact Or.inr (List.isEmpty_iff.mp hnil)
    · exact Or.inl hdown
  · refine Or.inr (h.early hup fun hsent => ?_)
    rw [Out.sent, hidle] at hsent
    simp at hsent

theorem own_step (h : SoleInv w) (ha : Sole w a) (hs : step w a = some w') (hf : w'.out.phase = .failed)
    (hup : w'.succUp = true) : ∀ c ∈ w'.succ.cells, c.session.adopted = false := by
  intro c' hmem
  rcases failed_of_step hs hf with hold | ⟨hfail, hsucc, hsame, _⟩
  · have hup := succUp_of_step hs hup
    obtain ⟨r, hc'⟩ := List.getElem?_of_mem hmem
    rcases succ_cell_cases hs hc' with ⟨c, hc, hident⟩ | ⟨_, hown⟩ | ⟨setup, hadopt, hlt⟩
    · exact (adopted_of_ident hident).trans (h.own hold hup c (List.mem_of_getElem? hc))
    · exact hown
    · rw [ha.adopt_length hs hold hadopt] at hlt
      exact absurd hlt (Nat.lt_irrefl _)
  · rw [hsame] at hup
    rw [hsucc] at hmem
    rcases h.at_failure ha hfail with hdown | hnil
    · rw [hup] at hdown
      cases hdown
    · rw [hnil] at hmem
      cases hmem

theorem alone_step (h : SoleInv w) (ha : Sole w a) (hs : step w a = some w') (hf : w'.out.phase = .failed)
    (hup : w'.predUp = true) : w'.succUp = false ∨ w'.succ.cells = [] := by
  have hup := predUp_of_step hs hup
  rcases failed_of_step hs hf with hold | ⟨hfail, hsucc, hsame, _⟩
  · rcases h.alone hold hup with hdown | hnil
    · left
      refine Bool.eq_false_iff.mpr fun hup' => ?_
      rw [succUp_of_step hs hup'] at hdown
      cases hdown
    · exact Or.inr (succ_nil_step hs hup hnil fun setup hadopt => ha.adopt_length hs hold hadopt)
  · rw [hsucc, hsame]
    exact h.at_failure ha hfail

theorem step (h : SoleInv w) (ha : Sole w a) (hs : step w a = some w') : SoleInv w' where
  hand := h.hand.step hs
  early := fun hup hn => h.early_step hs hup hn
  own := fun hf hup => h.own_step ha hs hf hup
  alone := fun hf hup => h.alone_step ha hs hf hup

omit [Ghostty T] in
theorem start {s : State T} (h : TableInv s) : SoleInv (World.start s) where
  hand := HandInv.start h
  early := fun _ _ => rfl
  own := nofun
  alone := nofun

end SoleInv

/-! ## One daemon reads -/

/-- As `Sole`, and a successor that is dead when `hand_off` fails has read nothing. -/
def Apart (w : World T) : Label → Prop
  | .handOffErr =>
    w.succ.cells.isEmpty = true ∨ (w.succUp = false ∧ (w.reads.all fun rd => decide (rd.side = .pred)) = true)
  | a => Sole w a

instance (w : World T) (a : Label) : Decidable (Apart w a) := by
  unfold Apart
  split <;> infer_instance

theorem Apart.sole (h : Apart w a) : Sole w a := by
  cases a with
  | handOffErr => exact h.imp_right And.left
  | _ => exact h

/-- The read is of a pty the successor spawned itself. -/
def OwnRead (w : World T) (rd : Read) : Prop :=
  rd.side = .succ → ∃ c, w.succ.cells[rd.ref]? = some c ∧ c.session.adopted = false

structure ConsumerInv (w : World T) : Prop where
  sole : SoleInv w
  unread : w.succ.cells = [] → ∀ rd ∈ w.reads, rd.side = .pred
  own : w.out.phase = .failed → ∀ rd ∈ w.reads, OwnRead w rd
  alone : w.out.phase = .failed → w.predUp = true → ∀ rd ∈ w.reads, rd.side = .pred

theorem mem_readOf (hs : step w a = some w') {rd : Read} (h : rd ∈ readOf w a) (hside : rd.side = .succ) :
    w.succUp = true ∧ ∃ c, w.succ.cells[rd.ref]? = some c := by
  cases a with
  | predRead r n =>
    obtain ⟨p, _, rfl⟩ := List.mem_map.mp h
    cases hside
  | succRead r n =>
    simp only [step, World.succRead, Option.ite_none_right_eq_some] at hs
    obtain ⟨p, hp, rfl⟩ := List.mem_map.mp h
    obtain ⟨c, hc, _⟩ := session_some (Option.mem_toList.mp hp)
    exact ⟨hs.1, c, hc⟩
  | _ => cases h

namespace ConsumerInv

theorem pred_reads_step (hs : step w a = some w') (h : ∀ rd ∈ w.reads, rd.side = .pred)
    (hgone : w.succUp = false ∨ w.succ.cells = []) : ∀ rd ∈ w'.reads, rd.side = .pred := by
  intro rd hrd
  rw [reads_of_step hs] at hrd
  rcases List.mem_append.mp hrd with hrd | hrd
  · exact h rd hrd
  · cases hside : rd.side with
    | pred => rfl
    | succ =>
      obtain ⟨hup, c, hc⟩ := mem_readOf hs hrd hside
      rcases hgone with hdown | hnil
      · rw [hup] at hdown
        cases hdown
      · rw [hnil] at hc
        cases hc

theorem at_failure (h : ConsumerInv w) (ha : Apart w a) (hf : a = .handOffErr ∨ w.predUp = true ∧ w.out.phase = .idle) :
    ∀ rd ∈ w.reads, rd.side = .pred := by
  rcases hf with rfl | ⟨hup, hidle⟩
  · rcases ha with hnil | ⟨_, hreads⟩
    · exact h.unread (List.isEmpty_iff.mp hnil)
    · exact fun rd hrd => of_decide_eq_true (List.all_eq_true.mp hreads rd hrd)
  · refine h.unread (h.sole.early hup fun hsent => ?_)
    rw [Out.sent, hidle] at hsent
    simp at hsent

theorem ownRead_step (hs : step w a = some w') {rd : Read} (h : OwnRead w rd) : OwnRead w' rd := by
  intro hside
  obtain ⟨c, hc, hown⟩ := h hside
  obtain ⟨c', hc', hident⟩ := succ_cell_of_step hs hc
  exact ⟨c', hc', (adopted_of_ident hident).trans hown⟩

theorem own_step (h : ConsumerInv w) (ha : Apart w a) (hs : step w a = some w') (hf : w'.out.phase = .failed) :
    ∀ rd ∈ w'.reads, OwnRead w' rd := by
  intro rd hrd
  rcases failed_of_step hs hf with hold | ⟨hfail, _, _, hreads⟩
  · rw [reads_of_step hs] at hrd
    rcases List.mem_append.mp hrd with hrd | hrd
    · exact ownRead_step hs (h.own hold rd hrd)
    · refine ownRead_step hs fun hside => ?_
      obtain ⟨hup, c, hc⟩ := mem_readOf hs hrd hside
      exact ⟨c, hc, h.sole.own hold hup c (List.mem_of_getElem? hc)⟩
  · rw [hreads] at hrd
    intro hside
    rw [h.at_failure ha hfail rd hrd] at hside
    cases hside

theorem alone_step (h : ConsumerInv w) (ha : Apart w a) (hs : step w a = some w') (hf : w'.out.phase = .failed)
    (hup : w'.predUp = true) : ∀ rd ∈ w'.reads, rd.side = .pred := by
  have hup := predUp_of_step hs hup
  rcases failed_of_step hs hf with hold | ⟨hfail, _, _, hreads⟩
  · exact pred_reads_step hs (h.alone hold hup) (h.sole.alone hold hup)
  · rw [hreads]
    exact h.at_failure ha hfail

theorem step (h : ConsumerInv w) (ha : Apart w a) (hs : step w a = some w') : ConsumerInv w' where
  sole := h.sole.step ha.sole hs
  unread := fun hnil => pred_reads_step hs (h.unread (succ_nil_of_step hs hnil)) (Or.inr (succ_nil_of_step hs hnil))
  own := fun hf => h.own_step ha hs hf
  alone := fun hf hup => h.alone_step ha hs hf hup

omit [Ghostty T] in
theorem start {s : State T} (h : TableInv s) : ConsumerInv (World.start s) where
  sole := SoleInv.start h
  unread := nofun
  own := nofun
  alone := nofun

end ConsumerInv

/-! ## From the read loop to the client -/

/-- The client in the slot of a session whose read loop has read `bytes` has been sent each
chunk after its dump once, in order; the last one may still be with the read loop. -/
def Delivered (s : Session.State T) (bytes : List Bytes) : Prop :=
  ∀ id c, s.clients id = some c → s.slot = some id → ∃ last,
    Session.lives c.chan.log = ((bytes.zipIdx 1).take last).drop c.renderedAt ∧
      (last = bytes.length ∨ last + 1 = bytes.length ∧ s.readLoop.owes id)

theorem delivered {p : PtySession T} {winsize : UInt16 × UInt16} {next holding : Nat} {tr : List Session.Label}
    {s : Session.State T} (h : exec Session.step (Session.State.start p winsize next holding) tr = some s) :
    Delivered s s.fed := by
  intro id c hc hslot
  have hok := (Session.stream_inv h).clients id c hc
  refine ⟨c.upTo, ?_, ?_⟩
  · rw [hok.lives_eq, List.drop_take, Session.Client.upTo, Nat.add_sub_cancel_left]
    rfl
  · by_cases ho : s.readLoop.owes id
    · exact Or.inr ⟨(hok.owed ho).1, ho⟩
    · exact Or.inl (hok.complete hslot ho)

/-- After a failed handoff no other daemon ever reads a pty that was sent, and what a pty
writes is read once, fed to its terminal and sent to the client in the slot. -/
theorem failed_handoff_alone {s : State T} (h₀ : Reached s) (before after : List Label) {w₁ w₂ : World T}
    (hm : Meets step Apart (World.start s) (before ++ after))
    (h₁ : exec step (World.start s) before = some w₁) (hf : w₁.out.phase = .failed)
    (h₂ : exec step w₁ after = some w₂) :
    (∀ rd ∈ w₂.reads, OwnRead w₂ rd) ∧ (w₂.predUp = true → ∀ rd ∈ w₂.reads, rd.side = .pred) ∧
      (∃ new, Conserved w₁ w₂ after new) ∧
      ∀ (r : Ref) p winsize next holding tr (s : Session.State T),
        exec Session.step (Session.State.start p winsize next holding) tr = some s →
        s.fed = chunksFor r w₂.reads → Delivered s (chunksFor r w₂.reads) := by
  have hi : ConsumerInv w₂ :=
    exec_inv_of_meets (fun _ _ _ ha hs hi => hi.step ha hs) hm (exec_append_some.mpr ⟨w₁, h₁, h₂⟩)
      (ConsumerInv.start h₀.table)
  have hf₂ : w₂.out.phase = .failed :=
    exec_inv (I := fun w : World T => w.out.phase = .failed) (fun _ _ _ hs hf => failed_step hs hf) h₂ hf
  refine ⟨hi.own hf₂, fun hup => hi.alone hf₂ hup, conserved_run h₂, ?_⟩
  intro r p winsize next holding tr s hrun hfed
  rw [← hfed]
  exact delivered hrun

end

/-- The ack timer runs out before the successor has received anything. -/
def timeoutRun : List Label :=
  [.onPred (.openTerm "p1" [] 80 24 (.ok (7, 100)) 1), .onPred (.startLoop 0), .produce 7 [97], .snapshot, .connect,
    .lock, .gather 80 24, .send, .accept, .handOffErr]

def readAgainRun : List Label :=
  [.predRead 0 1, .dropStream, .acceptErr, .produce 7 [98, 99], .predRead 0 2]

theorem failed_handoff_alone_timeout : ∃ w₁ w₂ : World Echo,
    exec step (World.start (State.new 0)) timeoutRun = some w₁ ∧ w₁.out.phase = .failed ∧ exec step w₁ readAgainRun = some w₂ ∧
    w₂.reads.map (·.bytes) = [[97], [98, 99]] ∧ (∀ rd ∈ w₂.reads, rd.side = .pred) ∧
    ∃ new, Conserved w₁ w₂ readAgainRun new := by
  have hm : Meets step Apart (World.start (State.new 0) : World Echo) (timeoutRun ++ readAgainRun) := by decide +kernel
  obtain ⟨_, hpred, hcons, _⟩ := failed_handoff_alone ⟨0, [], rfl⟩ timeoutRun readAgainRun hm rfl rfl rfl
  exact ⟨_, _, rfl, rfl, rfl, by decide +kernel, hpred rfl, hcons⟩

/-- The ack timer runs out after the successor has adopted and before its ack is written. -/
def bothReadRun : List Label :=
  [.onPred (.openTerm "p1" [] 80 24 (.ok (7, 100)) 1), .onPred (.startLoop 0), .snapshot, .connect, .lock, .gather 80 24,
    .send, .accept, .receive, .adopt [⟨true, true, 3⟩], .onSucc (.startLoop 0), .handOffErr, .produce 7 [97, 98],
    .succRead 0 1, .predRead 0 1]

theorem both_daemons_read : ∃ w : World Echo, exec step (World.start (State.new 0)) bothReadRun = some w ∧
    w.out.phase = .failed ∧ w.predUp = true ∧ w.out.ptys.map (·.2) = [7] ∧
    w.reads.map (fun rd => (rd.side, rd.pty, rd.bytes)) = [(.succ, 7, [97]), (.pred, 7, [98])] :=
  ⟨_, rfl, rfl, rfl, by decide +kernel, by decide +kernel⟩

end Mux.Handoff
