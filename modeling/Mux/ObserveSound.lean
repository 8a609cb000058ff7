import Mux.Observe

/-!
# An observer that waits knows the terminal

Whoever changes what an observer is to know raises the version afterwards, itself or by an event that differs from
the last one; an observer notes the version before it reads. So what it has read is what the session has, unless the
version is another or somebody has still to raise it.
-/

namespace Mux.Observe

open Lib

section
variable {V A : Type}

/-! ## Who has still to raise the version -/

/-- Of an event that is still to be read the exit will be part. -/
def Reports : List (Op V A) → Prop
  | [] => False
  | .eventExited :: ops => ∃ cwd, .publish cwd ∈ ops
  | .publish _ :: _ => False
  | _ :: ops => Reports ops

/-- The writer will raise the version, or report the exit. -/
def Writer.Announces (w : Writer V A) (f : Field) : Prop :=
  .notify ∈ w.ops ∨ f = .exited ∧ (Reports w.ops ∨ w.exited = true ∧ ∃ cwd, .publish cwd ∈ w.ops)

/-- Every change is announced behind it. -/
def Safe : List (Op V A) → Prop
  | [] => True
  | .view _ :: ops | .revise :: ops | .input :: ops => .notify ∈ ops ∧ Safe ops
  | .exit :: ops => (.notify ∈ ops ∨ Reports ops) ∧ Safe ops
  | _ :: ops => Safe ops

theorem safe_ops (t : Task V A) : Safe t.ops := by
  cases t <;> simp [Task.ops, emit, Safe, Reports]

theorem Safe.tail {op : Op V A} {ops : List (Op V A)} (h : Safe (op :: ops)) : Safe ops := by
  cases op with
  | view v => exact h.2
  | revise => exact h.2
  | input => exact h.2
  | exit => exact h.2
  | _ => exact h

/-- An access that is none of the event's keeps what the writer will announce. -/
theorem announces_tail {w : Writer V A} {op : Op V A} {ops : List (Op V A)} {f : Field} (hw : w.ops = op :: ops)
    (h : w.Announces f) (hn : op ≠ .notify) (hr : op ≠ .eventExited) (hp : ∀ cwd, op ≠ .publish cwd) :
    Writer.Announces { w with ops := ops } f := by
  unfold Writer.Announces at h ⊢
  rw [hw] at h
  rcases h with h | ⟨hf, h | ⟨he, cwd, h⟩⟩
  · rcases List.mem_cons.mp h with heq | h
    · exact absurd heq.symm hn
    · exact .inl h
  · refine .inr ⟨hf, .inl ?_⟩
    cases op with
    | eventExited => exact absurd rfl hr
    | publish cwd => exact absurd rfl (hp cwd)
    | _ => exact h
  · rcases List.mem_cons.mp h with heq | h
    · exact absurd heq.symm (hp cwd)
    · exact .inr ⟨hf, .inr ⟨he, cwd, h⟩⟩

/-! ## What is kept -/

def Session.Same (s : Session V A) (a : Snapshot V A) : Field → Prop
  | .view => a.view = s.view
  | .revision => a.revision = s.revision
  | .input => a.inputRevision = s.inputRevision
  | .exited => a.exited = s.exited

/-- Which fields of the snapshot have been read since the version was noted. -/
def Phase.hasRead : Phase → Field → Bool
  | .marking, _ | .locking, _ | .view, _ | .sleeping, _ | .ended, _ => false
  | .revision, f => f == .view
  | .input, f => f == .view || f == .revision
  | .agent, f | .exited, f => f != .exited
  | .unlocking, _ | .sending, _ | .waiting, _ => true

structure Observer.Ok (s : Session V A) (o : Observer V A) : Prop where
  seen : o.seen ≤ s.version
  fresh : ∀ f, o.phase.hasRead f = true → s.version = o.seen → s.owed f = false → s.Same o.part f
  part : o.part.revision ≤ s.revision ∧ o.part.inputRevision ≤ s.inputRevision
  sent : ∀ a ∈ o.sent, a.revision ≤ o.part.revision ∧ a.inputRevision ≤ o.part.inputRevision
  order : o.sent.Pairwise fun a b => a.revision ≤ b.revision ∧ a.inputRevision ≤ b.inputRevision
  last : o.phase = .waiting → o.sent.getLast? = some o.part
  exited : ∀ a ∈ o.sent.dropLast, a.exited = false
  going : o.phase ≠ .ended → ∀ a ∈ o.sent, a.exited = false

/-- A step that an observer may sleep through: a field that nobody owes has not changed, as long as the version is
the same. -/
structure Keeps (s s' : Session V A) : Prop where
  version : s.version ≤ s'.version
  revision : s.revision ≤ s'.revision
  input : s.inputRevision ≤ s'.inputRevision
  same : ∀ f, s'.version = s.version → s'.owed f = false → s.owed f = false ∧ ∀ a, s.Same a f → s'.Same a f

theorem Observer.Ok.keep {s s' : Session V A} {o : Observer V A} (h : o.Ok s) (hk : Keeps s s') : o.Ok s' where
  seen := Nat.le_trans h.seen hk.version
  fresh := by
    intro f hr hv ho
    have hversion : s'.version = s.version := by
      have := h.seen
      have := hk.version
      omega
    obtain ⟨ho', hsame⟩ := hk.same f hversion ho
    exact hsame _ (h.fresh f hr (hversion.symm.trans hv) ho')
  part := ⟨Nat.le_trans h.part.1 hk.revision, Nat.le_trans h.part.2 hk.input⟩
  sent := h.sent
  order := h.order
  last := h.last
  exited := h.exited
  going := h.going

theorem Keeps.of_eq {s s' : Session V A} (hv : s'.version = s.version) (ho : s'.owed = s.owed) (hview : s'.view = s.view)
    (hr : s'.revision = s.revision) (hi : s'.inputRevision = s.inputRevision) (he : s'.exited = s.exited) : Keeps s s' where
  version := Nat.le_of_eq hv.symm
  revision := Nat.le_of_eq hr.symm
  input := Nat.le_of_eq hi.symm
  same := by
    intro f _ hf
    rw [ho] at hf
    refine ⟨hf, ?_⟩
    intro a ha
    cases f with
    | view => exact ha.trans hview.symm
    | revision => exact ha.trans hr.symm
    | input => exact ha.trans hi.symm
    | exited => exact ha.trans he.symm

/-- The version is raised. -/
theorem Keeps.raise {s s' : Session V A} (hv : s'.version = s.version + 1) (hr : s'.revision = s.revision)
    (hi : s'.inputRevision = s.inputRevision) : Keeps s s' where
  version := by omega
  revision := Nat.le_of_eq hr.symm
  input := Nat.le_of_eq hi.symm
  same := by
    intro f hsame
    omega

/-- One field changes, and is owed. -/
theorem Keeps.change {s s' : Session V A} {f : Field} (hv : s'.version = s.version)
    (ho : s'.owed = fun g => decide (g = f) || s.owed g) (hr : s.revision ≤ s'.revision)
    (hi : s.inputRevision ≤ s'.inputRevision) (hothers : ∀ g, g ≠ f → ∀ a, s.Same a g → s'.Same a g) : Keeps s s' where
  version := Nat.le_of_eq hv.symm
  revision := hr
  input := hi
  same := by
    intro g _ hg
    rw [ho, Bool.or_eq_false_iff] at hg
    exact ⟨hg.2, hothers g (of_decide_eq_false hg.1)⟩

structure Inv (s : Session V A) : Prop where
  safe : ∀ w ∈ s.writers, Safe w.ops
  owed : ∀ f, s.owed f = true → ∃ w ∈ s.writers, w.Announces f
  exited : s.owed .exited = true → s.exited = true
  lastEvent : ∀ e, s.lastEvent = some e → e.exited = true → s.exited = true ∧ s.owed .exited = false
  read : ∀ w ∈ s.writers, w.exited = true → s.exited = true
  observers : ∀ o ∈ s.observers, o.Ok s

theorem inv_start (v : V) : Inv (start v : Session V A) where
  safe w hw := by simp [start] at hw
  owed f hf := by simp [start] at hf
  exited h := by simp [start] at h
  lastEvent e he := by simp [start] at he
  read w hw := by simp [start] at hw
  observers o ho := by simp [start] at ho

/-! ## A writer goes on -/

/-- The writer at `k` goes on as `w'`: whatever is owed then, it announces, or it was owed before and the writer has
not stopped announcing it. -/
theorem Inv.access {s s' : Session V A} {k : Nat} {w w' : Writer V A} (h : Inv s) (hw : s.writers[k]? = some w)
    (hwriters : s'.writers = s.writers.set k w') (hobservers : s'.observers = s.observers) (hk : Keeps s s')
    (hsafe : Safe w'.ops) (hexit : s.exited = true → s'.exited = true) (hread : w'.exited = true → s'.exited = true)
    (howed : ∀ f, s'.owed f = true → w'.Announces f ∨ s.owed f = true ∧ (w.Announces f → w'.Announces f))
    (howedExit : s'.owed .exited = true → s'.exited = true)
    (hlast : ∀ e, s'.lastEvent = some e → e.exited = true → s'.exited = true ∧ s'.owed .exited = false) : Inv s' where
  safe := by
    intro x hx
    rw [hwriters] at hx
    rcases List.mem_or_eq_of_mem_set hx with hx | rfl
    · exact h.safe x hx
    · exact hsafe
  owed := by
    intro f hf
    have hlen : k < s.writers.length := (List.getElem?_eq_some_iff.mp hw).1
    have hin : w' ∈ s'.writers := by
      rw [hwriters]
      exact List.mem_set hlen w'
    rcases howed f hf with hw' | ⟨hf, hstill⟩
    · exact ⟨w', hin, hw'⟩
    · obtain ⟨x, hx, hxf⟩ := h.owed f hf
      obtain ⟨i, hi⟩ := List.getElem?_of_mem hx
      by_cases hik : i = k
      · subst hik
        rw [hw, Option.some.injEq] at hi
        subst hi
        exact ⟨w', hin, hstill hxf⟩
      · refine ⟨x, ?_, hxf⟩
        rw [hwriters]
        apply List.mem_of_getElem? (i := i)
        rw [List.getElem?_set_ne (Ne.symm hik)]
        exact hi
  exited := howedExit
  lastEvent := hlast
  read := by
    intro x hx hxe
    rw [hwriters] at hx
    rcases List.mem_or_eq_of_mem_set hx with hx | rfl
    · exact hexit (h.read x hx hxe)
    · exact hread hxe
  observers := by
    intro o ho
    rw [hobservers] at ho
    exact (h.observers o ho).keep hk

theorem Writer.Announces.of_eq {w w' : Writer V A} {f : Field} (h : w.Announces f) (hops : w'.ops = w.ops)
    (hexited : w'.exited = w.exited) : w'.Announces f := by
  unfold Writer.Announces at h ⊢
  rw [hops, hexited]
  exact h

section
variable {s : Session V A} {k : Nat} {w : Writer V A} {op : Op V A} {ops : List (Op V A)}

/-- The access changes nothing that an observer is to know. -/
theorem Inv.quiet (h : Inv s) (hw : s.writers[k]? = some w) (hops : w.ops = op :: ops) (w' : Writer V A)
    (hops' : w'.ops = ops) (hexited : w'.exited = w.exited) (hn : op ≠ .notify) (hr : op ≠ .eventExited)
    (hp : ∀ cwd, op ≠ .publish cwd)
    (a : Option A) (b c : Bool) :
    Inv { s with writers := s.writers.set k w', agent := a, lock := b, eventLock := c } := by
  have hmem := List.mem_of_getElem? hw
  refine Inv.access (k := k) (w := w) h hw (Eq.refl (s.writers.set k w')) rfl ?hk ?hsafe ?hexit ?hread ?howed
    ?howedExit ?hlast
  case hk => exact .of_eq rfl rfl rfl rfl rfl rfl
  case hsafe =>
    rw [hops']
    have hsafe := h.safe w hmem
    rw [hops] at hsafe
    exact hsafe.tail
  case hexit => exact id
  case hread =>
    intro he
    exact h.read w hmem (hexited.symm.trans he)
  case howed =>
    intro f hf
    refine .inr ⟨hf, ?_⟩
    intro ha
    exact (announces_tail hops ha hn hr hp).of_eq hops' hexited
  case howedExit => exact h.exited
  case hlast => exact h.lastEvent

/-- The access changes one field, and the notification stands behind it. -/
theorem Inv.change {s' : Session V A} (h : Inv s) (hw : s.writers[k]? = some w) (f : Field) (hf : f ≠ .exited)
    (hsafe : .notify ∈ ops ∧ Safe ops) (hwriters : s'.writers = s.writers.set k { w with ops := ops })
    (hobservers : s'.observers = s.observers) (hversion : s'.version = s.version)
    (howed : s'.owed = fun g => decide (g = f) || s.owed g) (hrevision : s.revision ≤ s'.revision)
    (hinput : s.inputRevision ≤ s'.inputRevision) (hexited : s'.exited = s.exited) (hlast : s'.lastEvent = s.lastEvent)
    (hothers : ∀ g, g ≠ f → ∀ a, s.Same a g → s'.Same a g) : Inv s' := by
  have howedExit : s'.owed .exited = s.owed .exited := by simp [howed, hf.symm]
  apply h.access hw hwriters hobservers
  case hk => exact .change hversion howed hrevision hinput hothers
  case hsafe => exact hsafe.2
  case hexit =>
    rw [hexited]
    exact id
  case hread =>
    rw [hexited]
    exact h.read w (List.mem_of_getElem? hw)
  case howed =>
    intro g _
    exact .inl (.inl hsafe.1)
  case howedExit =>
    rw [howedExit, hexited]
    exact h.exited
  case hlast =>
    rw [hlast, howedExit, hexited]
    exact h.lastEvent

/-- The version is raised: nothing is owed any more. -/
theorem Inv.raise {s' : Session V A} (h : Inv s) (hw : s.writers[k]? = some w) (hops : w.ops = op :: ops)
    (hwriters : s'.writers = s.writers.set k { w with ops := ops }) (hobservers : s'.observers = s.observers)
    (hversion : s'.version = s.version + 1) (howed : s'.owed = fun _ => false) (hrevision : s'.revision = s.revision)
    (hinput : s'.inputRevision = s.inputRevision) (hexited : s'.exited = s.exited)
    (hlast : ∀ e, s'.lastEvent = some e → e.exited = true → s.exited = true) : Inv s' := by
  have hmem := List.mem_of_getElem? hw
  apply h.access hw hwriters hobservers
  case hk => exact .raise hversion hrevision hinput
  case hsafe =>
    have hsafe := h.safe w hmem
    rw [hops] at hsafe
    exact hsafe.tail
  case hexit =>
    rw [hexited]
    exact id
  case hread =>
    rw [hexited]
    exact h.read w hmem
  case howed =>
    intro f hf
    simp [howed] at hf
  case howedExit =>
    intro hf
    simp [howed] at hf
  case hlast =>
    intro e he hee
    rw [hexited, howed]
    exact ⟨hlast e he hee, rfl⟩

end

theorem inv_exit {s : Session V A} {k : Nat} {w : Writer V A} {ops : List (Op V A)} (h : Inv s)
    (hw : s.writers[k]? = some w) (hops : w.ops = .exit :: ops) (hnew : s.exited = false) :
    Inv { (s.put k w ops).owe .exited with exited := true } := by
  have hmem := List.mem_of_getElem? hw
  have hsafe := h.safe w hmem
  rw [hops] at hsafe
  refine h.access hw rfl rfl ?hk ?hsafe ?hexit ?hread ?howed ?howedExit ?hlast
  case hk =>
    refine Keeps.change (f := .exited) rfl rfl (Nat.le_refl _) (Nat.le_refl _) ?_
    intro g hg a ha
    cases g with
    | exited => exact absurd rfl hg
    | _ => exact ha
  case hsafe => exact hsafe.2
  case hexit => exact fun _ => rfl
  case hread => exact fun _ => rfl
  case howed =>
    intro f hf
    by_cases hfe : f = .exited
    · subst hfe
      refine .inl ?_
      rcases hsafe.1 with hn | hr
      · exact .inl hn
      · exact .inr ⟨rfl, .inl hr⟩
    · refine .inr ⟨?_, ?_⟩
      · simpa [Session.owe, Session.put, hfe] using hf
      · intro ha
        exact announces_tail hops ha (by simp) (by simp) (by simp)
  case howedExit => exact fun _ => rfl
  case hlast =>
    intro e he hee
    have := (h.lastEvent e he hee).1
    rw [hnew] at this
    exact absurd this (by simp)

/-- The event takes the exit with it. -/
theorem inv_eventExited {s : Session V A} {k : Nat} {w : Writer V A} {ops : List (Op V A)} (h : Inv s)
    (hw : s.writers[k]? = some w) (hops : w.ops = .eventExited :: ops) :
    Inv (s.put k { w with exited := s.exited } ops) := by
  have hmem := List.mem_of_getElem? hw
  refine h.access hw rfl rfl ?hk ?hsafe ?hexit ?hread ?howed ?howedExit ?hlast
  case hk => exact .of_eq rfl rfl rfl rfl rfl rfl
  case hsafe =>
    have hsafe := h.safe w hmem
    rw [hops] at hsafe
    exact hsafe
  case hexit => exact id
  case hread => exact id
  case howed =>
    intro f hf
    refine .inr ⟨hf, ?_⟩
    intro ha
    unfold Writer.Announces at ha ⊢
    rw [hops] at ha
    rcases ha with hn | ⟨hfe, hr | ⟨_, cwd, hp⟩⟩
    · exact .inl (by simpa using hn)
    · subst hfe
      exact .inr ⟨rfl, .inr ⟨h.exited hf, hr⟩⟩
    · subst hfe
      exact .inr ⟨rfl, .inr ⟨h.exited hf, cwd, by simpa using hp⟩⟩
  case howedExit => exact h.exited
  case hlast => exact h.lastEvent

/-- An event that equals the last one says of the exit what that said. -/
theorem inv_publish_same {s : Session V A} {k : Nat} {w : Writer V A} {ops : List (Op V A)} {cwd : Option String}
    (h : Inv s) (hw : s.writers[k]? = some w) (hops : w.ops = .publish cwd :: ops)
    (hsame : s.lastEvent = some { agent := w.agent, cwd := cwd, exited := w.exited }) : Inv (s.put k w ops) := by
  have hmem := List.mem_of_getElem? hw
  refine h.access hw rfl rfl ?hk ?hsafe ?hexit ?hread ?howed ?howedExit ?hlast
  case hk => exact .of_eq rfl rfl rfl rfl rfl rfl
  case hsafe =>
    have hsafe := h.safe w hmem
    rw [hops] at hsafe
    exact hsafe
  case hexit => exact id
  case hread => exact h.read w hmem
  case howed =>
    intro f hf
    refine .inr ⟨hf, ?_⟩
    intro ha
    unfold Writer.Announces at ha
    rw [hops] at ha
    rcases ha with hn | ⟨hfe, hr | ⟨he, _⟩⟩
    · exact .inl (by simpa using hn)
    · exact absurd hr (by simp [Reports])
    · subst hfe
      have hpaid := (h.lastEvent _ hsame he).2
      exact absurd (hf.symm.trans hpaid) (by simp)
  case howedExit => exact h.exited
  case hlast => exact h.lastEvent

theorem inv_access [DecidableEq A] {s s' : Session V A} {k : Nat} {w : Writer V A} {op : Op V A} {ops : List (Op V A)}
    (h : Inv s) (hw : s.writers[k]? = some w) (hops : w.ops = op :: ops) (hs : s.access k w ops op = some s') :
    Inv s' := by
  have hmem := List.mem_of_getElem? hw
  have hsafe := h.safe w hmem
  rw [hops] at hsafe
  cases op with
  | lock =>
    obtain ⟨_, rfl⟩ : s.lock = false ∧ { s.put k w ops with lock := true } = s' := by simpa [Session.access] using hs
    exact h.quiet hw hops { w with ops := ops } rfl rfl (by simp) (by simp) (by simp) s.agent true s.eventLock
  | unlock =>
    cases hs
    exact h.quiet hw hops { w with ops := ops } rfl rfl (by simp) (by simp) (by simp) s.agent false s.eventLock
  | view v =>
    cases hs
    refine h.change hw .view (by simp) hsafe rfl rfl rfl rfl (Nat.le_refl _) (Nat.le_refl _) rfl rfl ?_
    intro g hg a ha
    cases g with
    | view => exact absurd rfl hg
    | _ => exact ha
  | revise =>
    cases hs
    refine h.change hw .revision (by simp) hsafe rfl rfl rfl rfl (Nat.le_succ _) (Nat.le_refl _) rfl rfl ?_
    intro g hg a ha
    cases g with
    | revision => exact absurd rfl hg
    | _ => exact ha
  | notify =>
    cases hs
    refine h.raise hw hops rfl rfl rfl rfl rfl rfl rfl ?_
    intro e he hee
    exact (h.lastEvent e he hee).1
  | input =>
    cases hs
    refine h.change hw .input (by simp) hsafe rfl rfl rfl rfl (Nat.le_refl _) (Nat.le_succ _) rfl rfl ?_
    intro g hg a ha
    cases g with
    | input => exact absurd rfl hg
    | _ => exact ha
  | exit =>
    by_cases he : s.exited = true
    · have heq : s.put k w ops = s' := by simpa [Session.access, he] using hs
      subst heq
      refine h.access hw rfl rfl ?hk ?hsafe ?hexit ?hread ?howed ?howedExit ?hlast
      case hk => exact .of_eq rfl rfl rfl rfl rfl rfl
      case hsafe => exact hsafe.2
      case hexit => exact id
      case hread => exact h.read w hmem
      case howed =>
        intro f hf
        exact .inr ⟨hf, fun ha => announces_tail hops ha (by simp) (by simp) (by simp)⟩
      case howedExit => exact h.exited
      case hlast => exact h.lastEvent
    · have hnew : s.exited = false := by simpa using he
      have heq : { (s.put k w ops).owe .exited with exited := true } = s' := by
        simpa [Session.access, hnew] using hs
      subst heq
      exact inv_exit h hw hops hnew
  | agent a =>
    cases hs
    exact h.quiet hw hops { w with ops := ops } rfl rfl (by simp) (by simp) (by simp) a s.lock s.eventLock
  | eventLock =>
    obtain ⟨_, rfl⟩ : s.eventLock = false ∧ { s.put k w ops with eventLock := true } = s' := by
      simpa [Session.access] using hs
    exact h.quiet hw hops { w with ops := ops } rfl rfl (by simp) (by simp) (by simp) s.agent s.lock true
  | eventAgent =>
    cases hs
    exact h.quiet hw hops { w with agent := s.agent, ops := ops } rfl rfl (by simp) (by simp) (by simp) s.agent s.lock
      s.eventLock
  | eventExited =>
    cases hs
    exact inv_eventExited h hw hops
  | publish cwd =>
    by_cases hsame : s.lastEvent = some { agent := w.agent, cwd := cwd, exited := w.exited }
    · have heq : s.put k w ops = s' := by simpa [Session.access, hsame] using hs
      subst heq
      exact inv_publish_same h hw hops hsame
    · have heq : { (s.put k w ops).notify with
          lastEvent := some { agent := w.agent, cwd := cwd, exited := w.exited } } = s' := by
        simpa [Session.access, hsame] using hs
      subst heq
      refine h.raise hw hops rfl rfl rfl rfl rfl rfl rfl ?_
      intro e he hee
      cases he
      exact h.read w hmem hee
  | eventUnlock =>
    cases hs
    exact h.quiet hw hops { w with ops := ops } rfl rfl (by simp) (by simp) (by simp) s.agent s.lock false

/-! ## An observer goes on -/

theorem Observer.Ok.goTo {s : Session V A} {o : Observer V A} (h : o.Ok s) (hphase : o.phase ≠ .ended) (p : Phase)
    (hp : p ≠ .waiting) (hread : ∀ f, p.hasRead f = true → o.phase.hasRead f = true) :
    Observer.Ok s { o with phase := p } where
  seen := h.seen
  fresh f hf := h.fresh f (hread f hf)
  part := h.part
  sent := h.sent
  order := h.order
  last hw := absurd hw hp
  exited := h.exited
  going _ := h.going hphase

/-- The next part of the snapshot is read. -/
theorem Observer.Ok.read {s : Session V A} {o : Observer V A} (h : o.Ok s) (hphase : o.phase ≠ .ended) (p : Phase)
    (hp : p ≠ .waiting) (part : Snapshot V A)
    (hrevision : o.part.revision ≤ part.revision ∧ part.revision ≤ s.revision)
    (hinput : o.part.inputRevision ≤ part.inputRevision ∧ part.inputRevision ≤ s.inputRevision)
    (hread : ∀ f, p.hasRead f = true → s.Same part f ∨ o.phase.hasRead f = true ∧ (s.Same o.part f → s.Same part f)) :
    Observer.Ok s { o with phase := p, part := part } where
  seen := h.seen
  fresh := by
    intro f hf hv ho
    rcases hread f hf with hsame | ⟨hf, hsame⟩
    · exact hsame
    · exact hsame (h.fresh f hf hv ho)
  part := ⟨hrevision.2, hinput.2⟩
  sent := by
    intro a ha
    exact ⟨Nat.le_trans (h.sent a ha).1 hrevision.1, Nat.le_trans (h.sent a ha).2 hinput.1⟩
  order := h.order
  last hw := absurd hw hp
  exited := h.exited
  going _ := h.going hphase

/-- The snapshot is sent. -/
theorem Observer.Ok.send {s : Session V A} {o : Observer V A} (h : o.Ok s) (hphase : o.phase = .sending) :
    Observer.Ok s
      { o with phase := if o.part.exited then .ended else .waiting, sent := o.sent ++ [o.part] } where
  seen := h.seen
  fresh f _ := h.fresh f (by rw [hphase]; rfl)
  part := h.part
  sent := by
    intro a ha
    rcases List.mem_append.mp ha with ha | ha
    · exact h.sent a ha
    · obtain rfl := List.mem_singleton.mp ha
      exact ⟨Nat.le_refl _, Nat.le_refl _⟩
  order := by
    rw [List.pairwise_append]
    refine ⟨h.order, List.pairwise_singleton _ _, ?_⟩
    intro a ha b hb
    obtain rfl := List.mem_singleton.mp hb
    exact h.sent a ha
  last _ := by simp
  exited := by
    rw [List.dropLast_concat]
    exact h.going (by simp [hphase])
  going := by
    intro hp a ha
    rcases List.mem_append.mp ha with ha | ha
    · exact h.going (by simp [hphase]) a ha
    · obtain rfl := List.mem_singleton.mp ha
      cases he : o.part.exited with
      | false => rfl
      | true => exact absurd (by simp [he]) hp

theorem Inv.observers_set {s : Session V A} {o : Observer V A} (h : Inv s) (k : Nat) (b : Bool) (ho : o.Ok s) :
    Inv { s with observers := s.observers.set k o, lock := b } where
  safe := h.safe
  owed := h.owed
  exited := h.exited
  lastEvent := h.lastEvent
  read := h.read
  observers := by
    intro x hx
    have hx' : x.Ok s := by
      rcases List.mem_or_eq_of_mem_set hx with hx | rfl
      · exact h.observers x hx
      · exact ho
    exact hx'.keep (.of_eq rfl rfl rfl rfl rfl rfl)

theorem inv_observe {s s' : Session V A} {k : Nat} {o : Observer V A} {ok : Bool} (h : Inv s) (ho : o ∈ s.observers)
    (hs : s.observe k o ok = some s') : Inv s' := by
  have hok := h.observers o ho
  unfold Session.observe at hs
  cases hphase : o.phase with
  | marking =>
    simp only [hphase, Option.some.injEq] at hs
    subst hs
    apply h.observers_set k s.lock
    exact
      { seen := Nat.le_refl _
        fresh := fun f hf => absurd hf (by simp [Phase.hasRead])
        part := hok.part
        sent := hok.sent
        order := hok.order
        last := fun hw => absurd hw (by simp)
        exited := hok.exited
        going := fun _ => hok.going (by simp [hphase]) }
  | locking =>
    by_cases hlock : s.lock = true
    · simp [hphase, hlock] at hs
    · simp only [hphase, hlock] at hs
      cases hs
      exact h.observers_set k true (hok.goTo (by simp [hphase]) .view (by simp) (by simp [Phase.hasRead]))
  | view =>
    simp only [hphase, Option.some.injEq] at hs
    subst hs
    apply h.observers_set k s.lock
    refine hok.read (by simp [hphase]) .revision (by simp) _ ⟨Nat.le_refl _, hok.part.1⟩ ⟨Nat.le_refl _, hok.part.2⟩ ?_
    intro f hf
    cases f <;> simp [Phase.hasRead, Session.Same] at hf ⊢
  | revision =>
    simp only [hphase, Option.some.injEq] at hs
    subst hs
    apply h.observers_set k s.lock
    refine hok.read (by simp [hphase]) .input (by simp) _ ⟨hok.part.1, Nat.le_refl _⟩ ⟨Nat.le_refl _, hok.part.2⟩ ?_
    intro f hf
    cases f <;> simp [Phase.hasRead, Session.Same, hphase] at hf ⊢
  | input =>
    simp only [hphase, Option.some.injEq] at hs
    subst hs
    apply h.observers_set k s.lock
    refine hok.read (by simp [hphase]) .agent (by simp) _ ⟨Nat.le_refl _, hok.part.1⟩ ⟨hok.part.2, Nat.le_refl _⟩ ?_
    intro f hf
    cases f <;> simp [Phase.hasRead, Session.Same, hphase] at hf ⊢
  | agent =>
    simp only [hphase, Option.some.injEq] at hs
    subst hs
    apply h.observers_set k s.lock
    refine hok.read (by simp [hphase]) .exited (by simp) _ ⟨Nat.le_refl _, hok.part.1⟩ ⟨Nat.le_refl _, hok.part.2⟩ ?_
    intro f hf
    cases f <;> simp [Phase.hasRead, Session.Same, hphase] at hf ⊢
  | exited =>
    simp only [hphase, Option.some.injEq] at hs
    subst hs
    apply h.observers_set k s.lock
    refine hok.read (by simp [hphase]) .unlocking (by simp) _ ⟨Nat.le_refl _, hok.part.1⟩ ⟨Nat.le_refl _, hok.part.2⟩ ?_
    intro f hf
    cases f <;> simp [Phase.hasRead, Session.Same, hphase] at hf ⊢
  | unlocking =>
    simp only [hphase, Option.some.injEq] at hs
    subst hs
    exact h.observers_set k false (hok.goTo (by simp [hphase]) .sending (by simp) (by simp [Phase.hasRead, hphase]))
  | sending =>
    cases ok with
    | true =>
      simp only [hphase, if_true, Option.some.injEq] at hs
      subst hs
      exact h.observers_set k s.lock (hok.send hphase)
    | false =>
      simp only [hphase] at hs
      cases hs
      exact h.observers_set k s.lock (hok.goTo (by simp [hphase]) .ended (by simp) (by simp [Phase.hasRead]))
  | waiting =>
    by_cases hv : s.version = o.seen
    · simp [hphase, hv] at hs
    · simp only [hphase, ne_eq, hv, not_false_eq_true, if_true, Option.some.injEq] at hs
      subst hs
      exact h.observers_set k s.lock (hok.goTo (by simp [hphase]) .sleeping (by simp) (by simp [Phase.hasRead]))
  | sleeping =>
    simp only [hphase, Option.some.injEq] at hs
    subst hs
    exact h.observers_set k s.lock (hok.goTo (by simp [hphase]) .marking (by simp) (by simp [Phase.hasRead]))
  | ended => simp [hphase] at hs

theorem inv_hangup {s s' : Session V A} {k : Nat} {o : Observer V A} (h : Inv s) (ho : o ∈ s.observers)
    (hs : s.hangup k o = some s') : Inv s' := by
  have hok := h.observers o ho
  unfold Session.hangup at hs
  by_cases hphase : o.phase = .sending ∨ o.phase = .waiting
  · have hgoing : o.phase ≠ .ended := by rcases hphase with hp | hp <;> simp [hp]
    rw [if_pos hphase, Option.some.injEq] at hs
    subst hs
    exact h.observers_set k s.lock (hok.goTo hgoing .ended (by simp) (by simp [Phase.hasRead]))
  · simp [hphase] at hs

theorem Observer.Ok.new (s : Session V A) : (Observer.new s).Ok s where
  seen := Nat.le_refl _
  fresh f hf := absurd hf (by simp [Observer.new, Phase.hasRead])
  part := ⟨Nat.le_refl _, Nat.le_refl _⟩
  sent a ha := by simp [Observer.new] at ha
  order := .nil
  last hw := absurd hw (by simp [Observer.new])
  exited a ha := by simp [Observer.new] at ha
  going _ a ha := by simp [Observer.new] at ha

theorem inv_spawn {s : Session V A} (h : Inv s) (t : Task V A) :
    Inv { s with writers := s.writers ++ [{ ops := t.ops, agent := none, exited := false }] } where
  safe := by
    intro w hw
    rcases List.mem_append.mp hw with hw | hw
    · exact h.safe w hw
    · obtain rfl := List.mem_singleton.mp hw
      exact safe_ops t
  owed := by
    intro f hf
    obtain ⟨w, hw, hwf⟩ := h.owed f hf
    exact ⟨w, List.mem_append_left _ hw, hwf⟩
  exited := h.exited
  lastEvent := h.lastEvent
  read := by
    intro w hw hwe
    rcases List.mem_append.mp hw with hw | hw
    · exact h.read w hw hwe
    · obtain rfl := List.mem_singleton.mp hw
      exact absurd hwe (by simp)
  observers o ho := (h.observers o ho).keep (.of_eq rfl rfl rfl rfl rfl rfl)

theorem inv_new {s : Session V A} (h : Inv s) : Inv { s with observers := s.observers ++ [.new s] } where
  safe := h.safe
  owed := h.owed
  exited := h.exited
  lastEvent := h.lastEvent
  read := h.read
  observers := by
    intro o ho
    have ho' : o.Ok s := by
      rcases List.mem_append.mp ho with ho | ho
      · exact h.observers o ho
      · obtain rfl := List.mem_singleton.mp ho
        exact .new s
    exact ho'.keep (.of_eq rfl rfl rfl rfl rfl rfl)

/-- The last snapshot of an observer that waits is the terminal as it is, unless the version is another than the one it
has noted, or somebody has still to raise it. -/
theorem current {s : Session V A} {o : Observer V A} (h : Inv s) (ho : o ∈ s.observers) (hwait : o.phase = .waiting)
    (f : Field) :
    s.version ≠ o.seen ∨ (∃ w ∈ s.writers, w.Announces f) ∨ ∃ a, o.sent.getLast? = some a ∧ s.Same a f := by
  have hok := h.observers o ho
  by_cases hv : s.version = o.seen
  · refine .inr ?_
    cases howed : s.owed f with
    | true => exact .inl (h.owed f howed)
    | false => exact .inr ⟨o.part, hok.last hwait, hok.fresh f (by rw [hwait]; rfl) hv howed⟩
  · exact .inl hv

theorem not_announces {w : Writer V A} (h : w.ops = []) (f : Field) : ¬w.Announces f := by
  simp [Writer.Announces, h, Reports]

variable [DecidableEq A]

theorem inv_step {s s' : Session V A} {l : Label V A} (h : Inv s) (hs : step s l = some s') : Inv s' := by
  cases l with
  | spawn t =>
    cases hs
    exact inv_spawn h t
  | access k =>
    unfold step at hs
    cases hw : s.writers[k]? with
    | none => simp [hw] at hs
    | some w =>
      cases hops : w.ops with
      | nil => simp [hw, hops] at hs
      | cons op ops =>
        simp only [hw, hops] at hs
        exact inv_access h hw hops hs
  | observe =>
    cases hs
    exact inv_new h
  | go k ok =>
    obtain ⟨o, ho, hs⟩ := Option.bind_eq_some_iff.mp hs
    exact inv_observe h (List.mem_of_getElem? ho) hs
  | hangup k =>
    obtain ⟨o, ho, hs⟩ := Option.bind_eq_some_iff.mp hs
    exact inv_hangup h (List.mem_of_getElem? ho) hs

theorem inv_run {v : V} {ls : List (Label V A)} {s : Session V A} (h : exec step (start v) ls = some s) : Inv s :=
  exec_inv (fun _ _ _ hs hi => inv_step hi hs) h (inv_start v)

/-- An observer that waits goes on once more, or somebody has still to announce the field, or its last snapshot has the
field as the session has it. The snapshots are in the order of their revisions, and only the last is of a terminal
that has exited; when that has happened and no writer has anything left, no observer is left waiting. -/
theorem observers_stay_current {v : V} {ls : List (Label V A)} {s : Session V A} (hrun : exec step (start v) ls = some s)
    {k : Nat} {o : Observer V A} (ho : s.observers[k]? = some o) :
    (o.phase = .waiting → ∀ f : Field, (step s (.go k true)).isSome = true ∨ (∃ w ∈ s.writers, w.Announces f) ∨
      ∃ a, o.sent.getLast? = some a ∧ s.Same a f) ∧
    (o.sent.Pairwise fun a b => a.revision ≤ b.revision ∧ a.inputRevision ≤ b.inputRevision) ∧
    (∀ a ∈ o.sent, a.revision ≤ s.revision ∧ a.inputRevision ≤ s.inputRevision) ∧
    (∀ a ∈ o.sent.dropLast, a.exited = false) ∧
    ((∃ a ∈ o.sent, a.exited = true) → o.phase = .ended) ∧
    (s.exited = true → (∀ w ∈ s.writers, w.ops = []) → o.phase = .waiting → (step s (.go k true)).isSome = true) := by
  have hinv := inv_run hrun
  have hmem := List.mem_of_getElem? ho
  have hok := hinv.observers o hmem
  have hgo : o.phase = .waiting → s.version ≠ o.seen → (step s (.go k true)).isSome = true := by
    intro hwait hv
    simp [step, ho, Session.observe, hwait, hv]
  refine ⟨?_, hok.order, ?_, hok.exited, ?_, ?_⟩
  · intro hwait f
    rcases current hinv hmem hwait f with hv | h
    · exact .inl (hgo hwait hv)
    · exact .inr h
  · intro a ha
    have := hok.sent a ha
    have := hok.part
    omega
  · rintro ⟨a, ha, hae⟩
    by_cases hp : o.phase = .ended
    · exact hp
    · have := hok.going hp a ha
      rw [hae] at this
      exact absurd this (by simp)
  · intro hexited hdone hwait
    rcases current hinv hmem hwait .exited with hv | ⟨w, hw, hwf⟩ | ⟨a, ha, hsame⟩
    · exact hgo hwait hv
    · exact absurd hwf (not_announces (hdone w hw) _)
    · have hnot := hok.going (by simp [hwait]) a (List.mem_of_getLast? ha)
      have hae : a.exited = s.exited := hsame
      rw [hae, hexited] at hnot
      exact absurd hnot (by simp)

end

/-- The run of one chunk of output, with an observer that reads before it and after it. -/
def oneChunk : List (Label Nat String) :=
  .observe :: List.replicate 9 (.go 0 true) ++ .spawn (.feed 7) :: List.replicate 5 (.access 0) ++
    List.replicate 11 (.go 0 true)

theorem observers_stay_current_one_chunk :
    ∃ s, exec step (start 0) oneChunk = some s ∧ s.observers.map (·.sent.map (·.view)) = [[0, 7]] ∧
      ∀ o, s.observers[0]? = some o → o.phase = .waiting → ∃ a, o.sent.getLast? = some a ∧ s.Same a .view := by
  have hsent : (exec step (start 0) oneChunk).map (·.observers.map (·.sent.map (·.view))) = some [[0, 7]] := by
    decide +kernel
  have hquiet : (exec step (start 0) oneChunk).map (fun s => (s.writers.map (·.ops.length), (step s (.go 0 true)).isSome)) =
      some ([0], false) := by
    decide +kernel
  obtain ⟨s, hs, hview⟩ := Option.map_eq_some_iff.mp hsent
  rw [hs, Option.map_some, Option.some.injEq, Prod.mk.injEq] at hquiet
  refine ⟨s, hs, hview, ?_⟩
  intro o ho hwait
  rcases (observers_stay_current hs ho).1 hwait .view with h | ⟨w, hw, ha⟩ | h
  · rw [hquiet.2] at h
    exact absurd h (by simp)
  · have hlen : w.ops.length ∈ s.writers.map (·.ops.length) := List.mem_map_of_mem hw
    rw [hquiet.1, List.mem_singleton] at hlen
    exact absurd ha (not_announces (List.eq_nil_of_length_eq_zero hlen) _)
  · exact h

end Mux.Observe
