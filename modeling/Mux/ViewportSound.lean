import Mathlib.Algebra.Group.Nat.Defs
import Mux.Viewport

/-!
# The revision identifies the viewport

A snapshot has the revision and the screen of one moment under the lock, up to advances that
the reaper makes meanwhile; a task that changes the terminal advances the revision before it
gives the lock up, so a snapshot with an older screen has an older revision.
-/

namespace Mux.View

open Lib State

section
variable {T : Type} [Viewport T]

def PtySnapshot.view (a : PtySnapshot) : (UInt16 × UInt16) × (UInt16 × UInt16) × List String :=
  (a.size, a.cursor, a.text)

def viewOf (t : Terminal T) : (UInt16 × UInt16) × (UInt16 × UInt16) × List String :=
  (t.size, t.cursorPosition, t.rowTexts)

/-- What the snapshots so far say, as long as the revision has not wrapped around. -/
structure Record (s : State T) : Prop where
  few : s.changes < 2 ^ 64
  count : s.revision = UInt64.ofNat s.changes
  le : ∀ a ∈ s.taken, a.revision.toNat ≤ s.changes
  agree : ∀ a ∈ s.taken, ∀ b ∈ s.taken, a.revision = b.revision → a.view = b.view
  sorted : s.taken.Pairwise fun a b => a.revision.toNat ≤ b.revision.toNat

def Current (s : State T) : Prop :=
  ∀ a ∈ s.taken, a.revision.toNat = s.changes → a.view = viewOf s.terminal

/-- What a snapshot under way has read. -/
def PhaseOk (s : State T) : Phase → Prop
  | .cursor size => size = s.terminal.size
  | .revision size cursor => size = s.terminal.size ∧ cursor = s.terminal.cursorPosition
  | .text size cursor r => (size = s.terminal.size ∧ cursor = s.terminal.cursorPosition) ∧ r.toNat ≤ s.changes ∧
      ∀ a ∈ s.taken, a.revision.toNat ≤ r.toNat ∧ (a.revision = r → a.view = viewOf s.terminal)
  | _ => True

structure Inv (s : State T) : Prop where
  record : Record s
  lock : ∀ (k : Nat) (t : Task) (p : Phase), s.tasks[k]? = some (t, p) → p.holdsLock = true → s.lock = some k
  phase : ∀ (k : Nat) (t : Task) (p : Phase), s.tasks[k]? = some (t, p) → PhaseOk s p
  current : (∀ (k : Nat) (t : Task), s.tasks[k]? ≠ some (t, .changed)) → Current s

theorem inv_start (generation : String) (terminal : Terminal T) : Inv (start generation terminal) where
  record := ⟨by simp [start], rfl, by simp [start], by simp [start], by simp [start]⟩
  lock := by simp [start]
  phase := by simp [start]
  current := by simp [start, Current]

omit [Viewport T] in
theorem Record.toNat_revision {s : State T} (h : Record s) : s.revision.toNat = s.changes := by
  rw [h.count, UInt64.toNat_ofNat_of_lt' h.few]

namespace Record
variable {s : State T}

omit [Viewport T] in
theorem changed (h : Record s) (hfew : s.changes + 1 < 2 ^ 64) : Record s.changed where
  few := hfew
  count := by
    simp only [State.changed, h.count, UInt64.ofNat_add]
    rfl
  le := fun a ha => Nat.le_succ_of_le (h.le a ha)
  agree := h.agree
  sorted := h.sorted

theorem current_changed (h : Record s) : Current s.changed := by
  intro a ha heq
  have hle := h.le a ha
  simp only [State.changed] at heq
  omega

/-- A snapshot of the screen as it is, whose revision is not below those before it. -/
theorem snoc (h : Record s) {a : PtySnapshot} (hle : a.revision.toNat ≤ s.changes) (hview : a.view = viewOf s.terminal)
    (ha : ∀ b ∈ s.taken, b.revision.toNat ≤ a.revision.toNat ∧ (b.revision = a.revision → b.view = viewOf s.terminal)) :
    Record { s with taken := s.taken ++ [a] } where
  few := h.few
  count := h.count
  le := by
    intro b hb
    rcases List.mem_append.mp hb with hb | hb
    · exact h.le b hb
    · rw [List.mem_singleton.mp hb]
      exact hle
  agree := by
    intro b hb c hc hr
    rcases List.mem_append.mp hb with hb | hb <;> rcases List.mem_append.mp hc with hc | hc
    · exact h.agree b hb c hc hr
    · rw [List.mem_singleton.mp hc] at hr ⊢
      rw [(ha b hb).2 hr, hview]
    · rw [List.mem_singleton.mp hb] at hr ⊢
      rw [(ha c hc).2 hr.symm, hview]
    · rw [List.mem_singleton.mp hb, List.mem_singleton.mp hc]
  sorted := by
    rw [List.pairwise_append]
    refine ⟨h.sorted, List.pairwise_singleton _ _, ?_⟩
    intro b hb c hc
    rw [List.mem_singleton.mp hc]
    exact (ha b hb).1

end Record

namespace Inv
variable {s s' : State T} {k : Nat} {t : Task} {p p' : Phase}

theorem others (h : Inv s) (hk : s.tasks[k]? = some (t, p)) (hp : p.holdsLock = true) :
    ∀ (j : Nat) (u : Task) (q : Phase), j ≠ k → s.tasks[j]? = some (u, q) → q.holdsLock = false := by
  intro j u q hj hq
  cases hh : q.holdsLock with
  | false => rfl
  | true =>
    have h1 := h.lock j u q hq hh
    rw [h.lock k t p hk hp] at h1
    exact absurd (Option.some.inj h1).symm hj

theorem phaseOk_of_not_holds (hp : p.holdsLock = false) : PhaseOk s p := by
  cases p with
  | locking | done => trivial
  | mutating | changed | size | cursor | revision | text | unlocking => cases hp

theorem put (hk : s.tasks[k]? = some (t, p))
    (ho : ∀ (j : Nat) (u : Task) (q : Phase), j ≠ k → s.tasks[j]? = some (u, q) → q.holdsLock = false)
    (htasks : s'.tasks = s.tasks.set k (t, p')) (hlock : p'.holdsLock = true → s'.lock = some k) (hrecord : Record s')
    (hphase : PhaseOk s' p') (hcurrent : p' ≠ .changed → Current s') : Inv s' where
  record := hrecord
  lock := by
    intro j u q hj hq
    rw [htasks, getElem?_set_some_iff (lt_of_getElem?_some hk)] at hj
    rcases hj with ⟨rfl, heq⟩ | ⟨hne, hj⟩
    · cases heq
      exact hlock hq
    · rw [ho j u q hne hj] at hq
      cases hq
  phase := by
    intro j u q hj
    rw [htasks, getElem?_set_some_iff (lt_of_getElem?_some hk)] at hj
    rcases hj with ⟨-, heq⟩ | ⟨hne, hj⟩
    · cases heq
      exact hphase
    · exact phaseOk_of_not_holds (ho j u q hne hj)
  current := by
    intro hno
    refine hcurrent fun hp => hno k t ?_
    rw [htasks, getElem?_set_some_iff (lt_of_getElem?_some hk), hp]
    exact .inl ⟨rfl, rfl⟩

/-- The task at the lock goes on and keeps it. -/
theorem held (h : Inv s) (hk : s.tasks[k]? = some (t, p)) (hp : p.holdsLock = true)
    (htasks : s'.tasks = s.tasks.set k (t, p')) (hlock : s'.lock = s.lock) (hrecord : Record s')
    (hphase : PhaseOk s' p') (hcurrent : p' ≠ .changed → Current s') : Inv s' := by
  refine put hk (h.others hk hp) htasks (fun _ => ?_) hrecord hphase hcurrent
  rw [hlock]
  exact h.lock k t p hk hp

theorem current_of_holds (h : Inv s) (hk : s.tasks[k]? = some (t, p)) (hp : p.holdsLock = true) (hne : p ≠ .changed) :
    Current s := by
  refine h.current fun j u hj => ?_
  by_cases hjk : j = k
  · subst hjk
    rw [hk] at hj
    cases hj
    exact hne rfl
  · have := h.others hk hp j u _ hjk hj
    cases this

theorem spawn (h : Inv s) (t : Task) : Inv { s with tasks := s.tasks ++ [(t, .locking)] } where
  record := ⟨h.record.few, h.record.count, h.record.le, h.record.agree, h.record.sorted⟩
  lock := by
    intro j u q hj hq
    rcases getElem?_snoc_some_iff.mp hj with hj | ⟨-, heq⟩
    · exact h.lock j u q hj hq
    · cases heq
      cases hq
  phase := by
    intro j u q hj
    rcases getElem?_snoc_some_iff.mp hj with hj | ⟨-, heq⟩
    · have := h.phase j u q hj
      cases q <;> exact this
    · cases heq
      trivial
  current := fun hno => h.current fun j u hj => hno j u (getElem?_snoc_some_iff.mpr (.inl hj))

theorem reap (h : Inv s) (hfew : s.changes + 1 < 2 ^ 64) : Inv s.changed where
  record := h.record.changed hfew
  lock := h.lock
  phase := by
    intro j u q hj
    have hq := h.phase j u q hj
    cases q with
    | text size cursor r => exact ⟨hq.1, Nat.le_succ_of_le hq.2.1, hq.2.2⟩
    | locking | mutating | changed | size | cursor | revision | unlocking | done => exact hq
  current := fun _ => h.record.current_changed

theorem go (h : Inv s) (hk : s.tasks[k]? = some (t, p)) (hs : s.go k t p = some s') (hfew : s'.changes < 2 ^ 64) :
    Inv s' := by
  obtain ⟨hfew', hcount, hle, hagree, hsorted⟩ := h.record
  cases p with
  | locking =>
    simp only [State.go, acquire, Option.ite_none_right_eq_some] at hs
    obtain ⟨hl, hs⟩ := hs
    cases hs
    have hfree : ∀ (j : Nat) (u : Task) (q : Phase), s.tasks[j]? = some (u, q) → q.holdsLock = false := by
      intro j u q hj
      cases hh : q.holdsLock with
      | false => rfl
      | true => have := h.lock j u q hj hh; rw [hl] at this; cases this
    have hcur : Current s := h.current fun j u hj => by cases hfree j u _ hj
    refine put hk (fun j u q _ => hfree j u q) rfl (fun _ => rfl) ⟨hfew', hcount, hle, hagree, hsorted⟩ ?_ (fun _ => hcur)
    cases t <;> trivial
  | mutating op =>
    cases hs
    refine h.held hk rfl rfl rfl ⟨hfew', hcount, hle, hagree, hsorted⟩ trivial ?_
    exact fun hne => absurd rfl hne
  | changed =>
    cases hs
    have hrec := h.record.changed hfew
    exact h.held hk rfl rfl rfl ⟨hrec.1, hrec.2, hrec.3, hrec.4, hrec.5⟩ trivial
      (fun _ => h.record.current_changed)
  | size =>
    cases hs
    exact h.held hk rfl rfl rfl ⟨hfew', hcount, hle, hagree, hsorted⟩ rfl
      (fun _ => h.current_of_holds hk rfl (by simp))
  | cursor size =>
    cases hs
    exact h.held hk rfl rfl rfl ⟨hfew', hcount, hle, hagree, hsorted⟩
      ⟨h.phase k t _ hk, rfl⟩ (fun _ => h.current_of_holds hk rfl (by simp))
  | revision size cursor =>
    cases hs
    have hcur := h.current_of_holds hk rfl (by simp)
    have hrev := h.record.toNat_revision
    refine h.held hk rfl rfl rfl ⟨hfew', hcount, hle, hagree, hsorted⟩ ?_
      (fun _ => hcur)
    refine ⟨h.phase k t _ hk, Nat.le_of_eq hrev, fun a ha => ⟨?_, fun heq => ?_⟩⟩
    · rw [hrev]
      exact hle a ha
    · exact hcur a ha (by rw [heq, hrev])
  | text size cursor r =>
    cases hs
    obtain ⟨⟨rfl, rfl⟩, hr, htaken⟩ := h.phase k t _ hk
    have hrec := h.record.snoc (a := ⟨s.generation, r, s.terminal.size, s.terminal.cursorPosition, s.terminal.rowTexts⟩)
      hr rfl htaken
    refine h.held hk rfl rfl rfl ⟨hrec.1, hrec.2, hrec.3, hrec.4, hrec.5⟩ trivial ?_
    intro _ a ha heq
    rcases List.mem_append.mp ha with ha | ha
    · exact h.current_of_holds hk rfl (by simp) a ha heq
    · rw [List.mem_singleton.mp ha]
      rfl
  | unlocking =>
    cases hs
    exact put hk (h.others hk rfl) rfl (fun hh => by cases hh) ⟨hfew', hcount, hle, hagree, hsorted⟩ trivial
      (fun _ => h.current_of_holds hk rfl (by simp))
  | done => cases hs

theorem step {a : Label} (h : Inv s) (hs : step s a = some s') (hfew : s'.changes < 2 ^ 64) : Inv s' := by
  cases a with
  | spawn t => cases hs; exact h.spawn t
  | reap => cases hs; exact h.reap hfew
  | go k =>
    obtain ⟨⟨t, p⟩, hk, hs⟩ := Option.bind_eq_some_iff.mp hs
    exact h.go hk hs hfew

end Inv

/-! ## Along a run -/

theorem changes_le {s s' : State T} {a : Label} (hs : step s a = some s') : s.changes ≤ s'.changes := by
  cases a with
  | spawn t => cases hs; exact Nat.le_refl _
  | reap => cases hs; exact Nat.le_succ _
  | go k =>
    obtain ⟨⟨t, p⟩, hp, hs⟩ := Option.bind_eq_some_iff.mp hs
    cases p with
    | locking =>
      simp only [State.go, acquire, Option.ite_none_right_eq_some] at hs
      obtain ⟨-, hs⟩ := hs
      cases hs; exact Nat.le_refl _
    | changed => cases hs; exact Nat.le_succ _
    | done => cases hs
    | mutating | size | cursor | revision | text | unlocking => cases hs; exact Nat.le_refl _

theorem changes_le_run {s t : State T} {as : List Label} (h : exec step s as = some t) : s.changes ≤ t.changes :=
  exec_inv (I := fun t => s.changes ≤ t.changes) (fun _ _ _ hs hle => Nat.le_trans hle (changes_le hs)) h (Nat.le_refl _)

theorem inv_run {generation : String} {terminal : Terminal T} {as : List Label} {t : State T}
    (h : exec step (start generation terminal) as = some t) (hfew : t.changes < 2 ^ 64) : Inv t := by
  refine exec_inv (I := fun t => t.changes < 2 ^ 64 → Inv t) ?_ h (fun _ => inv_start _ _) hfew
  intro s a s' hs hi hfew
  exact (hi (Nat.lt_of_le_of_lt (changes_le hs) hfew)).step hs hfew

/-- Only a task at its `mutating` point changes the terminal, and it is at `changed` next. -/
theorem terminal_of_step {s s' : State T} {a : Label} (hs : step s a = some s') (hne : s'.terminal ≠ s.terminal) :
    ∃ (k : Nat) (t : Task) (op : VtOp), s.tasks[k]? = some (t, .mutating op) ∧ s'.tasks[k]? = some (t, .changed) ∧
      s'.changes = s.changes := by
  cases a with
  | spawn t => cases hs; exact absurd rfl hne
  | reap => cases hs; exact absurd rfl hne
  | go k =>
    obtain ⟨⟨t, p⟩, hk, hs⟩ := Option.bind_eq_some_iff.mp hs
    cases p with
    | mutating op =>
      cases hs
      exact ⟨k, t, op, hk, getElem?_set_self_some hk, rfl⟩
    | locking =>
      simp only [State.go, acquire, Option.ite_none_right_eq_some] at hs
      obtain ⟨-, hs⟩ := hs
      cases hs; exact absurd rfl hne
    | done => cases hs
    | changed | size | cursor | revision | text | unlocking => cases hs; exact absurd rfl hne

/-- A task stays at `changed` until it advances the revision. -/
theorem pending_step {s s' : State T} {a : Label} {k : Nat} {t : Task} (hs : step s a = some s')
    (hk : s.tasks[k]? = some (t, .changed)) : s'.tasks[k]? = some (t, .changed) ∨ s'.changes = s.changes + 1 := by
  cases a with
  | spawn u => cases hs; exact .inl (getElem?_snoc_some_iff.mpr (.inl hk))
  | reap => cases hs; exact .inr rfl
  | go j =>
    obtain ⟨⟨u, p⟩, hj, hs⟩ := Option.bind_eq_some_iff.mp hs
    by_cases hjk : k = j
    · subst hjk
      rw [hk] at hj
      cases hj
      cases hs
      exact .inr rfl
    · have hkeep : ∀ q, (s.tasks.set j q)[k]? = some (t, .changed) := fun q =>
        getElem?_set_other hjk hk
      cases p with
      | locking =>
        simp only [State.go, acquire, Option.ite_none_right_eq_some] at hs
        obtain ⟨-, hs⟩ := hs
        cases hs; exact .inl (hkeep _)
      | done => cases hs
      | mutating | changed | size | cursor | revision | text | unlocking => cases hs; exact .inl (hkeep _)

/-- What the snapshots of a run `as` that ends in `t` show. -/
structure Identifies (s : State T) (as : List Label) (t : State T) : Prop where
  same : ∀ a ∈ t.taken, ∀ b ∈ t.taken, a.generation = b.generation → a.revision = b.revision →
    a.size = b.size ∧ a.cursor = b.cursor ∧ a.text = b.text
  ordered : t.taken.Pairwise fun a b => a.revision ≤ b.revision
  /-- A step that changes the terminal is taken with the lock held, and the revision is higher
  by the time that lock is not held any more. -/
  advances : ∀ as₁ a as₂ m m', as = as₁ ++ a :: as₂ → exec step s as₁ = some m → step m a = some m' →
    m'.terminal ≠ m.terminal → ∃ k, m.lock = some k ∧ (t.lock ≠ some k → m.revision < t.revision)

/-- Two snapshots with the same revision show the same screen. -/
theorem revision_identifies_viewport {generation : String} {terminal : Terminal T} {as : List Label} {t : State T}
    (h : exec step (start generation terminal) as = some t) (hfew : t.changes < 2 ^ 64) :
    Identifies (start generation terminal) as t where
  same := by
    intro a ha b hb _ hr
    have hview := (inv_run h hfew).record.agree a ha b hb hr
    simpa [PtySnapshot.view] using hview
  ordered := (inv_run h hfew).record.sorted.imp fun hle => UInt64.le_iff_toNat_le.mpr hle
  advances := by
    rintro as₁ a as₂ m m' rfl hm hs hne
    obtain ⟨m₁, hm₁, ht⟩ := exec_append_some.mp h
    rw [hm] at hm₁
    cases hm₁
    have hinv := inv_run hm (Nat.lt_of_le_of_lt (changes_le_run ht) hfew)
    obtain ⟨k, u, op, hk, hk', hsame⟩ := terminal_of_step hs hne
    refine ⟨k, hinv.lock k u _ hk rfl, fun hfree => ?_⟩
    obtain ⟨m₂, hs₂, ht⟩ := exec_cons_some.mp ht
    rw [hs] at hs₂
    cases hs₂
    -- The change is pending until the revision has advanced past the one before it.
    have hlater : m.changes ≤ t.changes ∧ (t.tasks[k]? = some (u, .changed) ∨ m.changes < t.changes) := by
      refine exec_inv (I := fun t => m.changes ≤ t.changes ∧ (t.tasks[k]? = some (u, .changed) ∨ m.changes < t.changes))
        ?_ ht ⟨Nat.le_of_eq hsame.symm, .inl hk'⟩
      rintro n b n' hs ⟨hle, hpend | hlt⟩
      · refine ⟨Nat.le_trans hle (changes_le hs), ?_⟩
        rcases pending_step hs hpend with hpend | hsucc
        · exact .inl hpend
        · exact .inr (by omega)
      · have := changes_le hs
        exact ⟨by omega, .inr (by omega)⟩
    have hinv' := inv_run h hfew
    rcases hlater with ⟨-, hpend | hlt⟩
    · exact absurd (hinv'.lock k u _ hpend rfl) hfree
    · rw [UInt64.lt_iff_toNat_lt, hinv.record.toNat_revision, hinv'.record.toNat_revision]
      exact hlt

end

/-- The reaper advances the revision while a snapshot is under way and while output is fed. -/
def reapedMidway : List Label :=
  [.spawn .snapshot, .spawn (.feed [104, 105]), .spawn .snapshot, .spawn .snapshot, .go 0, .go 0, .go 0, .go 0, .reap, .go 0,
    .go 0, .go 1, .go 1, .reap, .go 1, .go 1, .go 2, .go 2, .go 2, .go 2, .go 2, .go 2, .go 3, .go 3, .go 3, .go 3, .go 3]

theorem revision_identifies_viewport_reaped :
    ∃ t, exec step (start "g" (⟨⟨[]⟩, 24, 80⟩ : Terminal Echo)) reapedMidway = some t ∧
      t.taken.map (·.revision) = [0, 3, 3] ∧ Identifies (start "g" (⟨⟨[]⟩, 24, 80⟩ : Terminal Echo)) reapedMidway t :=
  ⟨_, rfl, rfl, revision_identifies_viewport rfl (by decide)⟩

end Mux.View
