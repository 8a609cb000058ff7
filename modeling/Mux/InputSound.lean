import Mathlib.Algebra.Group.Nat.Defs
import Mathlib.Data.List.Basic
import Mux.Input

/-!
# Input is serialized

The calls that advanced the input form a sequence, and the n-th of them has revision n. The
one that writes holds the lock and is the last of the sequence, so its bytes go after those
of all others; a checked call compares its revision while it holds the lock.
-/

namespace Mux.Input

open Lib State

def sentBy (calls : List Call) (k : Nat) : Bytes := (calls[k]?.map Call.sent).getD []

theorem sentBy_set {calls : List Call} {k : Nat} {c c' : Call} (hc : calls[k]? = some c) (j : Nat) :
    sentBy (calls.set k c') j = if j = k then c'.sent else sentBy calls j := by
  have hk := lt_of_getElem?_some hc
  unfold sentBy
  rw [List.getElem?_set]
  split
  · subst_vars; simp
  · rw [if_neg (Ne.symm ‹_›)]

theorem sentBy_append {calls : List Call} {k : Nat} (c : Call) (hk : k < calls.length) :
    sentBy (calls ++ [c]) k = sentBy calls k := by
  rw [sentBy, List.getElem?_append_left hk, sentBy]

structure Inv (s : State) : Prop where
  count : s.inputRevision = UInt64.ofNat s.accepted.length
  nodup : s.accepted.Nodup
  mem : ∀ k, k ∈ s.accepted ↔ ∃ c, s.calls[k]? = some c ∧ c.advanced?.isSome
  nth : ∀ i k c, s.accepted[i]? = some k → s.calls[k]? = some c → c.advanced? = some (UInt64.ofNat (i + 1))
  lock : ∀ k, s.lock = some k ↔ ∃ c, s.calls[k]? = some c ∧ c.phase.holdsLock = true
  last : ∀ k c r w, s.calls[k]? = some c → c.phase = .writing r w →
    s.accepted.getLast? = some k ∧ w ≤ c.request.data.length
  stream : s.pty = s.accepted.flatMap (sentBy s.calls)
  compared : ∀ (k : Nat) (c : Call) (input : PtyInput), s.calls[k]? = some c → c.request = .checkedInput input →
    c.phase = .advancing → s.inputRevision = input.inputRevision
  carried : ∀ (i k : Nat) (c : Call) (input : PtyInput), s.accepted[i]? = some k → s.calls[k]? = some c → c.request = .checkedInput input →
    input.inputRevision = UInt64.ofNat i

theorem inv_start (generation : String) : Inv (start generation) := by
  constructor <;> simp [start]

/-! ## What a call's own step can do -/

/-- The comparisons of `checked_input` that a call passes, one after another. -/
inductive Checked (s : State) (c : Call) : Phase → Prop
  | foreground (input : PtyInput) (fg : Int) (hr : c.request = .checkedInput input) (hc : c.phase = .foreground)
      (hg : s.generation = input.generation) : Checked s c (.exited fg)
  | exited (input : PtyInput) (fg : Int) (hr : c.request = .checkedInput input) (hc : c.phase = .exited fg) :
      Checked s c (.revision fg)
  | revision (input : PtyInput) (fg : Int) (hr : c.request = .checkedInput input) (hc : c.phase = .revision fg)
      (hv : s.revision = input.revision) : Checked s c (.inputRevision fg)
  | inputRevision (input : PtyInput) (fg : Int) (hr : c.request = .checkedInput input) (hc : c.phase = .inputRevision fg)
      (hv : s.inputRevision = input.inputRevision) : Checked s c .advancing

/-- `lock`, `check` and `reject` concern calls that have not advanced the input; `stop` ends
a call that has, with what it has written by then. -/
inductive Moves (s : State) (k : Nat) (c : Call) : Phase → State → Prop
  | lock (p : Phase) (hc : c.phase = .locking) (hl : s.lock = none)
      (hp : ∀ input, c.request = .checkedInput input → p = .foreground) (hh : p.holdsLock = true)
      (ha : p = .foreground ∨ p = .advancing) : Moves s k c p { s.goTo k c p with lock := some k }
  | check (p : Phase) (hp : Checked s c p) : Moves s k c p (s.goTo k c p)
  | reject (e : InputError) (hc : c.phase.holdsLock = true) (hn : c.advanced? = none) :
      Moves s k c (.rejected e) (s.leave k c (.rejected e))
  | advance (hc : c.phase = .advancing) :
      Moves s k c (.writing (s.inputRevision + 1) 0) { s.goTo k c (.writing (s.inputRevision + 1) 0) with
        inputRevision := s.inputRevision + 1, accepted := s.accepted ++ [k] }
  | wrote (r : UInt64) (w n : Nat) (hc : c.phase = .writing r w) (hn : w + n ≤ c.request.data.length) :
      Moves s k c (.writing r (w + n))
        { s.goTo k c (.writing r (w + n)) with pty := s.pty ++ (c.request.data.drop w).take n }
  | stop (r : UInt64) (w : Nat) (p : Phase) (hc : c.phase = .writing r w)
      (hs : w ≤ c.request.data.length → ({ c with phase := p } : Call).sent = c.sent)
      (ha : ({ c with phase := p } : Call).advanced? = some r) (hh : p.holdsLock = false) :
      Moves s k c p (s.leave k c p)
  | drop (hc : c.phase = .locking) : Moves s k c (.cancelled none) (s.goTo k c (.cancelled none))

theorem act_moves {s s' : State} {k : Nat} {c : Call} {a : Act} (h : act s k c a = some s') :
    ∃ p, Moves s k c p s' := by
  obtain ⟨request, phase⟩ := c
  cases a with
  | acquire =>
    simp only [act, acquire, Option.ite_none_right_eq_some] at h
    obtain ⟨⟨hp, hl⟩, h⟩ := h
    cases h
    cases request with
    | writeInput data => exact ⟨_, .lock _ hp hl (fun _ h => by cases h) rfl (.inr rfl)⟩
    | checkedInput input => exact ⟨_, .lock _ hp hl (fun _ _ => rfl) rfl (.inl rfl)⟩
  | tcgetpgrp answer =>
    simp only [act, tcgetpgrp] at h
    split at h
    · cases h; exact ⟨_, .reject _ rfl rfl⟩
    · split at h
      · cases h; exact ⟨_, .reject _ rfl rfl⟩
      · rename_i hne
        cases h
        exact ⟨_, .check _ (.foreground _ _ rfl rfl (by simp_all))⟩
    · cases h
  | load =>
    simp only [act, load] at h
    split at h
    · split at h
      · cases h; exact ⟨_, .reject _ rfl rfl⟩
      · cases h; exact ⟨_, .check _ (.exited _ _ rfl rfl)⟩
    · split at h
      · cases h; exact ⟨_, .reject _ rfl rfl⟩
      · cases h; exact ⟨_, .check _ (.revision _ _ rfl rfl (by simp_all))⟩
    · split at h
      · cases h; exact ⟨_, .reject _ rfl rfl⟩
      · cases h; exact ⟨_, .check _ (.inputRevision _ _ rfl rfl (by simp_all))⟩
    · cases h
  | advanceInput =>
    simp only [act, advanceInput, Option.ite_none_right_eq_some] at h
    obtain ⟨hp, h⟩ := h
    cases h
    exact ⟨_, .advance hp⟩
  | write answer =>
    simp only [act, write] at h
    split at h
    · split at h
      · cases h; exact ⟨_, .wrote _ _ _ rfl (by simp only; omega)⟩
      · cases h
    · split at h
      · cases h
        exact ⟨_, .stop _ _ _ rfl (fun _ => rfl) rfl rfl⟩
      · cases h
    · cases h
  | finish =>
    simp only [act, finish] at h
    split at h
    · split at h
      · cases h
        exact ⟨_, .stop _ _ _ rfl (fun _ => (List.take_of_length_le ‹_›).symm) rfl rfl⟩
      · cases h
    · cases h
  | cancel =>
    simp only [act, cancel] at h
    split at h
    · cases h; exact ⟨_, .drop rfl⟩
    · split at h
      · cases h
        exact ⟨_, .stop _ _ _ rfl (fun _ => rfl) rfl rfl⟩
      · cases h
    · cases h

namespace Checked
variable {s : State} {c : Call} {p : Phase}

theorem holds (h : Checked s c p) : c.phase.holdsLock = true := by
  cases h <;> simp [*, Phase.holdsLock]

theorem holds_after (h : Checked s c p) : p.holdsLock = true := by
  cases h <;> rfl

theorem not_advanced (h : Checked s c p) : c.advanced? = none := by
  cases h <;> simp [*, Call.advanced?]

end Checked

theorem flatMap_sentBy_set {l : List Nat} {calls : List Call} {k : Nat} {c c' : Call} (hc : calls[k]? = some c)
    (h : k ∈ l → c'.sent = c.sent) : l.flatMap (sentBy (calls.set k c')) = l.flatMap (sentBy calls) := by
  refine List.flatMap_congr fun j hj => ?_
  rw [sentBy_set hc]
  split
  · subst_vars
    rw [h hj, sentBy, hc]
    rfl
  · rfl

namespace Inv
variable {s : State} {k : Nat} {c : Call}

theorem accepted_iff (h : Inv s) (hc : s.calls[k]? = some c) : k ∈ s.accepted ↔ c.advanced?.isSome := by
  rw [h.mem k, hc]
  simp

theorem holds (h : Inv s) (hc : s.calls[k]? = some c) : c.phase.holdsLock = true ↔ s.lock = some k := by
  rw [h.lock k, hc]
  simp

theorem put (h : Inv s) (hc : s.calls[k]? = some c) {p : Phase} {l : Option Nat} {b : Bytes}
    (ha : ({ c with phase := p } : Call).advanced? = c.advanced?)
    (hb : b = s.accepted.flatMap (sentBy (s.calls.set k { c with phase := p })))
    (hw : ∀ r w, p = .writing r w → s.accepted.getLast? = some k ∧ w ≤ c.request.data.length)
    (hk : p.holdsLock = true ↔ l = some k) (hl : ∀ j, j ≠ k → (s.lock = some j ↔ l = some j))
    (hq : ∀ input, c.request = .checkedInput input → p = .advancing → s.inputRevision = input.inputRevision) :
    Inv { s.goTo k c p with lock := l, pty := b } where
  count := h.count
  nodup := h.nodup
  mem := by
    intro j
    simp only [goTo, getElem?_set_some_iff (lt_of_getElem?_some hc)]
    by_cases hj : j = k
    · subst hj
      simp [h.accepted_iff hc, ha]
    · simp [hj, h.mem j]
  nth := by
    intro i j d hi hd
    simp only [goTo, getElem?_set_some_iff (lt_of_getElem?_some hc)] at hd
    rcases hd with ⟨rfl, rfl⟩ | ⟨-, hd⟩
    · rw [ha]
      exact h.nth i j c hi hc
    · exact h.nth i j d hi hd
  lock := by
    intro j
    simp only [goTo, getElem?_set_some_iff (lt_of_getElem?_some hc)]
    by_cases hj : j = k
    · subst hj
      simp [← hk]
    · simp [hj, ← hl j hj, h.lock j]
  last := by
    intro j d r w hd hp
    simp only [goTo, getElem?_set_some_iff (lt_of_getElem?_some hc)] at hd
    rcases hd with ⟨rfl, rfl⟩ | ⟨-, hd⟩
    · exact hw r w hp
    · exact h.last j d r w hd hp
  stream := hb
  compared := by
    intro j d input hd hr hp
    simp only [goTo, getElem?_set_some_iff (lt_of_getElem?_some hc)] at hd
    rcases hd with ⟨rfl, rfl⟩ | ⟨-, hd⟩
    · exact hq input hr hp
    · exact h.compared j d input hd hr hp
  carried := by
    intro i j d input hi hd hr
    simp only [goTo, getElem?_set_some_iff (lt_of_getElem?_some hc)] at hd
    rcases hd with ⟨rfl, rfl⟩ | ⟨-, hd⟩
    · exact h.carried i j c input hi hc hr
    · exact h.carried i j d input hi hd hr

theorem only_lock (h : Inv s) (hc : s.calls[k]? = some c) (hh : c.phase.holdsLock = true) (j : Nat) (hj : j ≠ k) :
    s.lock = some j ↔ none = some j := by
  have hk := (h.holds hc).mp hh
  rw [hk]
  simp [Ne.symm hj]

theorem advance (h : Inv s) (hc : s.calls[k]? = some c) (hp : c.phase = .advancing) :
    Inv { s.goTo k c (.writing (s.inputRevision + 1) 0) with
      inputRevision := s.inputRevision + 1, accepted := s.accepted ++ [k] } := by
  have hlt := lt_of_getElem?_some hc
  have hn : c.advanced? = none := by simp [Call.advanced?, hp]
  have hk : k ∉ s.accepted := by simp [h.accepted_iff hc, hn]
  have hcount : s.inputRevision + 1 = UInt64.ofNat (s.accepted.length + 1) := by
    rw [h.count, UInt64.ofNat_add]
    rfl
  -- No other call holds the lock, so none is past its comparison or still writing.
  have hothers : ∀ j d, j ≠ k → s.calls[j]? = some d → d.phase.holdsLock = false := by
    intro j d hj hd
    have h1 := (h.only_lock hc (by simp [hp, Phase.holdsLock]) j hj).mp
    cases hh : d.phase.holdsLock with
    | false => rfl
    | true => cases h1 ((h.holds hd).mp hh)
  refine ⟨?_, ?_, ?_, ?_, ?_, ?_, ?_, ?_, ?_⟩
  · simpa using hcount
  · rw [List.nodup_append]
    refine ⟨h.nodup, by simp, ?_⟩
    rintro a ha b hb rfl
    rw [List.mem_singleton] at hb
    exact hk (hb ▸ ha)
  · intro j
    simp only [goTo, getElem?_set_some_iff hlt, List.mem_append, List.mem_singleton]
    by_cases hj : j = k
    · subst hj; simp [Call.advanced?]
    · simp [hj, h.mem j]
  · intro i j d hi hd
    simp only [goTo, getElem?_set_some_iff hlt, getElem?_snoc_some_iff] at hi hd
    rcases hi with hi | ⟨rfl, rfl⟩
    · rcases hd with ⟨rfl, -⟩ | ⟨-, hd⟩
      · exact absurd (List.mem_of_getElem? hi) hk
      · exact h.nth i j d hi hd
    · rcases hd with ⟨-, rfl⟩ | ⟨hne, -⟩
      · simp only [Call.advanced?, hcount]
      · exact absurd rfl hne
  · intro j
    simp only [goTo, getElem?_set_some_iff hlt]
    by_cases hj : j = k
    · subst hj
      simp [← h.holds hc, hp, Phase.holdsLock]
    · simp [hj, h.lock j]
  · intro j d r w hd hw
    simp only [goTo, getElem?_set_some_iff hlt] at hd
    rcases hd with ⟨rfl, rfl⟩ | ⟨hj, hd⟩
    · simp only [Phase.writing.injEq] at hw
      simp [← hw.2]
    · have := hothers j d hj hd
      rw [hw] at this
      cases this
  · simp only [goTo, List.flatMap_append, List.flatMap_cons, List.flatMap_nil, List.append_nil]
    rw [flatMap_sentBy_set hc fun h => absurd h hk, sentBy_set hc, ← h.stream]
    simp [Call.sent]
  · intro j d input hd hr ha
    simp only [goTo, getElem?_set_some_iff hlt] at hd
    rcases hd with ⟨rfl, rfl⟩ | ⟨hj, hd⟩
    · cases ha
    · have := hothers j d hj hd
      rw [ha] at this
      cases this
  · intro i j d input hi hd hr
    simp only [goTo, getElem?_set_some_iff hlt, getElem?_snoc_some_iff] at hi hd
    rcases hi with hi | ⟨rfl, rfl⟩
    · rcases hd with ⟨rfl, -⟩ | ⟨-, hd⟩
      · exact absurd (List.mem_of_getElem? hi) hk
      · exact h.carried i j d input hi hd hr
    · rcases hd with ⟨-, rfl⟩ | ⟨hne, -⟩
      · rw [← h.compared k c input hc hr hp, h.count]
      · exact absurd rfl hne

theorem wrote (h : Inv s) (hc : s.calls[k]? = some c) {r : UInt64} {w n : Nat} (hp : c.phase = .writing r w)
    (hn : w + n ≤ c.request.data.length) :
    Inv { s.goTo k c (.writing r (w + n)) with pty := s.pty ++ (c.request.data.drop w).take n } := by
  have hlt := lt_of_getElem?_some hc
  have ha : ({ c with phase := .writing r (w + n) } : Call).advanced? = c.advanced? := by simp [Call.advanced?, hp]
  obtain ⟨hlast, -⟩ := h.last k c r w hc hp
  obtain ⟨before, hb⟩ := List.getLast?_eq_some_iff.mp hlast
  have hk : k ∉ before := by
    have := h.nodup
    rw [hb, List.nodup_append] at this
    exact fun hk => this.2.2 k hk k (by simp) rfl
  refine h.put hc ha ?_ ?_ ?_ (fun _ _ => Iff.rfl) ?_
  · have hold : s.pty = before.flatMap (sentBy s.calls) ++ c.request.data.take w := by
      rw [h.stream, hb, List.flatMap_append]
      simp [sentBy, hc, Call.sent, hp]
    rw [hb, List.flatMap_append, flatMap_sentBy_set hc fun h => absurd h hk, hold, List.append_assoc]
    simp [sentBy_set hc, Call.sent, List.take_add]
  · intro r' w' hw
    simp only [Phase.writing.injEq] at hw
    exact ⟨hlast, hw.2 ▸ hn⟩
  · show _ ↔ s.lock = some k
    rw [← h.holds hc, hp]
    simp [Phase.holdsLock]
  · intro input _ hq
    cases hq

theorem unwritten (h : Inv s) (hc : s.calls[k]? = some c) {p : Phase}
    (hs : c.advanced?.isSome → ({ c with phase := p } : Call).sent = c.sent) :
    s.pty = s.accepted.flatMap (sentBy (s.calls.set k { c with phase := p })) :=
  h.stream.trans (flatMap_sentBy_set hc fun hk => hs ((h.accepted_iff hc).mp hk)).symm

theorem move (h : Inv s) (hc : s.calls[k]? = some c) {p : Phase} {s' : State} (hm : Moves s k c p s') : Inv s' := by
  cases hm with
  | lock p hp hl hr hh ha =>
    have hn : c.advanced? = none := by simp [Call.advanced?, hp]
    refine h.put hc ?_ (h.unwritten hc (by simp [hn])) ?_ (by simp [hh]) ?_ ?_
    · rw [hn]
      rcases ha with rfl | rfl <;> rfl
    · rintro r w rfl
      simp at ha
    · intro j hj
      simp [hl, Ne.symm hj]
    · intro input hq hp'
      rw [hr input hq] at hp'
      cases hp'
  | check p hp =>
    refine h.put hc ?_ (h.unwritten hc (by simp [hp.not_advanced])) ?_ ?_ (fun _ _ => Iff.rfl) ?_
    · rw [hp.not_advanced]
      cases hp <;> rfl
    · rintro r w rfl
      cases hp
    · exact ⟨fun _ => (h.holds hc).mp hp.holds, fun _ => hp.holds_after⟩
    · rintro input hr rfl
      cases hp with
      | inputRevision input' _ hr' _ hv =>
        rw [hr] at hr'
        cases hr'
        exact hv
  | reject e hp hn =>
    refine h.put hc ?_ (h.unwritten hc (by simp [hn])) (fun _ _ h => by cases h) ?_ (h.only_lock hc hp) ?_
    · rw [hn]; rfl
    · simp [Phase.holdsLock]
    · intro _ _ h; cases h
  | advance hp => exact h.advance hc hp
  | wrote r w n hp hn => exact h.wrote hc hp hn
  | stop r w p hp hs ha hh =>
    obtain ⟨-, hle⟩ := h.last k c r w hc hp
    refine h.put hc ?_ (h.unwritten hc fun _ => hs hle) ?_ ?_ (h.only_lock hc ?_) ?_
    · rw [ha]
      simp [Call.advanced?, hp]
    · rintro r' w' rfl
      cases hh
    · simp [hh]
    · simp [hp, Phase.holdsLock]
    · rintro input - rfl
      cases hh
  | drop hp =>
    have hn : c.advanced? = none := by simp [Call.advanced?, hp]
    refine h.put hc ?_ (h.unwritten hc (by simp [hn])) (fun _ _ h => by cases h) ?_ (fun _ _ => Iff.rfl) ?_
    · rw [hn]; rfl
    · rw [← h.holds hc, hp]
      simp [Phase.holdsLock]
    · intro _ _ h; cases h

theorem lt_of_accepted (h : Inv s) (hk : k ∈ s.accepted) : k < s.calls.length := by
  obtain ⟨c, hc, -⟩ := (h.mem k).mp hk
  exact lt_of_getElem?_some hc

theorem call (h : Inv s) (r : Request) : Inv (s.call r) := by
  obtain ⟨p, hs, hp⟩ : ∃ p, s.call r = { s with calls := s.calls ++ [⟨r, p⟩] } ∧ (p = .locking ∨ p = .rejected .size) := by
    refine ⟨_, rfl, ?_⟩
    split
    · exact .inl rfl
    · split
      · exact .inr rfl
      · exact .inl rfl
  have hn : (⟨r, p⟩ : Call).advanced? = none := by rcases hp with rfl | rfl <;> rfl
  have hnew : s.calls.length ∉ s.accepted := fun hk => Nat.lt_irrefl _ (h.lt_of_accepted hk)
  rw [hs]
  refine ⟨h.count, h.nodup, ?_, ?_, ?_, ?_, ?_, ?_, ?_⟩
  · intro j
    simp only [getElem?_snoc_some_iff]
    rw [h.mem j]
    constructor
    · rintro ⟨c, hc, ha⟩
      exact ⟨c, .inl hc, ha⟩
    · rintro ⟨c, hc | ⟨rfl, rfl⟩, ha⟩
      · exact ⟨c, hc, ha⟩
      · rw [hn] at ha
        cases ha
  · intro i j d hi hd
    rcases getElem?_snoc_some_iff.mp hd with hd | ⟨rfl, -⟩
    · exact h.nth i j d hi hd
    · exact absurd (List.mem_of_getElem? hi) hnew
  · intro j
    simp only [getElem?_snoc_some_iff]
    rw [h.lock j]
    constructor
    · rintro ⟨c, hc, hh⟩
      exact ⟨c, .inl hc, hh⟩
    · rintro ⟨c, hc | ⟨rfl, rfl⟩, hh⟩
      · exact ⟨c, hc, hh⟩
      · rcases hp with rfl | rfl <;> cases hh
  · intro j d r' w hd hw
    rcases getElem?_snoc_some_iff.mp hd with hd | ⟨rfl, rfl⟩
    · exact h.last j d r' w hd hw
    · simp only at hw
      simp [hw] at hp
  · rw [h.stream]
    exact List.flatMap_congr fun j hj => (sentBy_append _ (h.lt_of_accepted hj)).symm
  · intro j d input hd hr ha
    rcases getElem?_snoc_some_iff.mp hd with hd | ⟨rfl, rfl⟩
    · exact h.compared j d input hd hr ha
    · simp only at ha
      simp [ha] at hp
  · intro i j d input hi hd hr
    rcases getElem?_snoc_some_iff.mp hd with hd | ⟨rfl, -⟩
    · exact h.carried i j d input hi hd hr
    · exact absurd (List.mem_of_getElem? hi) hnew

theorem step {s' : State} {a : Label} (h : Inv s) (hs : step s a = some s') : Inv s' := by
  cases a with
  | call r => cases hs; exact h.call r
  | act k a =>
    obtain ⟨c, hc, ha⟩ := Option.bind_eq_some_iff.mp hs
    obtain ⟨p, hm⟩ := act_moves ha
    exact h.move hc hm
  | changed => cases hs; exact ⟨h.1, h.2, h.3, h.4, h.5, h.6, h.7, h.8, h.9⟩
  | exit => cases hs; exact ⟨h.1, h.2, h.3, h.4, h.5, h.6, h.7, h.8, h.9⟩

end Inv

/-! ## Along a run -/

/-- How far a call has come; a call that has ended without advancing the input is at 0. -/
def Phase.stage : Phase → Nat
  | .foreground => 1
  | .exited _ => 2
  | .revision _ => 3
  | .inputRevision _ => 4
  | .advancing => 5
  | .writing .. | .finished _ | .failed .. | .cancelled (some _) => 6
  | _ => 0

theorem stage_of_advanced {c : Call} (h : c.advanced?.isSome) : c.phase.stage = 6 := by
  obtain ⟨request, phase⟩ := c
  unfold Call.advanced? at h
  unfold Phase.stage
  split at h <;> simp_all

namespace Moves
variable {s s' : State} {k : Nat} {c : Call} {p : Phase}

theorem calls (h : Moves s k c p s') : s'.calls = s.calls.set k { c with phase := p } := by
  cases h <;> rfl

theorem accepted (h : Moves s k c p s') :
    s'.accepted = s.accepted ∧ s'.inputRevision = s.inputRevision ∨
      s'.accepted = s.accepted ++ [k] ∧ s'.inputRevision = s.inputRevision + 1 := by
  cases h with
  | advance hc => exact .inr ⟨rfl, rfl⟩
  | lock | check | reject | wrote | stop | drop => exact .inl ⟨rfl, rfl⟩

/-- Only a call that has advanced the input writes. -/
theorem pty (h : Moves s k c p s') : s'.pty = s.pty ∨ c.advanced?.isSome := by
  cases h with
  | wrote r w n hc hn => exact .inr (by simp [Call.advanced?, hc])
  | lock | check | reject | advance | stop | drop => exact .inl rfl

theorem stage_pos (h : Moves s k c p s') : c.phase = .locking ∨ c.phase.holdsLock = true := by
  cases h with
  | lock p hc | drop hc => exact .inl hc
  | check p hp => exact .inr hp.holds
  | reject e hc hn => exact .inr hc
  | advance hc | wrote _ _ _ hc | stop _ _ _ hc => exact .inr (by simp [hc, Phase.holdsLock])

/-- A checked call comes to a later stage by one of its comparisons only, apart from the lock
and the advance. -/
theorem stage (h : Moves s k c p s') {input : PtyInput} (hr : c.request = .checkedInput input) :
    p.stage ≤ c.phase.stage ∨ p.stage = 1 ∨ Checked s c p ∨ c.phase.stage = 5 := by
  cases h with
  | lock p hc hl hp hh ha => exact .inr (.inl (by rw [hp input hr]; rfl))
  | check p hp => exact .inr (.inr (.inl hp))
  | reject e hc hn => exact .inl (Nat.zero_le _)
  | advance hc => exact .inr (.inr (.inr (by rw [hc]; rfl)))
  | wrote r w n hc hn => exact .inl (by rw [hc]; exact Nat.le_refl _)
  | stop r w p hc hs ha hh =>
    have := stage_of_advanced (c := { c with phase := p }) (by rw [ha]; rfl)
    exact .inl (by rw [this, hc]; exact Nat.le_refl _)
  | drop hc => exact .inl (Nat.zero_le _)

end Moves

/-- A call after a step is as it was, or new, or has made a move of its own. -/
theorem calls_of_step {s s' : State} {a : Label} (hs : step s a = some s') {k : Nat} {c' : Call}
    (hc : s'.calls[k]? = some c') :
    s.calls[k]? = some c' ∨ c'.phase.stage = 0 ∨
      ∃ c, s.calls[k]? = some c ∧ c'.request = c.request ∧ Moves s k c c'.phase s' := by
  cases a with
  | call r =>
    cases hs
    rcases getElem?_snoc_some_iff.mp hc with hc | ⟨rfl, rfl⟩
    · exact .inl hc
    · refine .inr (.inl ?_)
      cases r with
      | writeInput data => rfl
      | checkedInput input =>
        simp only
        split <;> rfl
  | act j a =>
    obtain ⟨d, hd, ha⟩ := Option.bind_eq_some_iff.mp hs
    obtain ⟨p, hm⟩ := act_moves ha
    rw [hm.calls, getElem?_set_some_iff (lt_of_getElem?_some hd)] at hc
    rcases hc with ⟨rfl, rfl⟩ | ⟨-, hc⟩
    · exact .inr (.inr ⟨d, hd, rfl, hm⟩)
    · exact .inl hc
  | changed => cases hs; exact .inl hc
  | exit => cases hs; exact .inl hc

theorem accepted_of_step {s s' : State} {a : Label} (hs : step s a = some s') :
    s'.accepted = s.accepted ∧ s'.inputRevision = s.inputRevision ∨
      ∃ k b, a = .act k b ∧ s'.accepted = s.accepted ++ [k] ∧ s'.inputRevision = s.inputRevision + 1 := by
  cases a with
  | call r => cases hs; exact .inl ⟨rfl, rfl⟩
  | act k a =>
    obtain ⟨c, hc, ha⟩ := Option.bind_eq_some_iff.mp hs
    obtain ⟨p, hm⟩ := act_moves ha
    rcases hm.accepted with h | h
    · exact .inl h
    · exact .inr ⟨k, a, rfl, h⟩
  | changed => cases hs; exact .inl ⟨rfl, rfl⟩
  | exit => cases hs; exact .inl ⟨rfl, rfl⟩

theorem accepted_grows {s t : State} {as : List Label} (h : exec step s as = some t) : s.accepted <+: t.accepted := by
  refine exec_inv (I := fun t => s.accepted <+: t.accepted) ?_ h (List.prefix_refl _)
  intro m a m' hs hp
  rcases accepted_of_step hs with ⟨hm, -⟩ | ⟨k, b, -, hm, -⟩
  · rwa [hm]
  · rw [hm]
    exact hp.trans (List.prefix_append _ _)

theorem generation_step {s s' : State} {a : Label} (hs : step s a = some s') : s'.generation = s.generation := by
  cases a with
  | call r => cases hs; rfl
  | act k a =>
    obtain ⟨c, hc, ha⟩ := Option.bind_eq_some_iff.mp hs
    obtain ⟨p, hm⟩ := act_moves ha
    cases hm <;> rfl
  | changed => cases hs; rfl
  | exit => cases hs; rfl

/-- A checked call that has come past the comparison of generations. -/
def GenerationsOk (s : State) : Prop :=
  ∀ (k : Nat) (c : Call) (input : PtyInput), s.calls[k]? = some c → c.request = .checkedInput input →
    2 ≤ c.phase.stage → s.generation = input.generation

theorem generations_step {s s' : State} {a : Label} (hs : step s a = some s') (h : GenerationsOk s) : GenerationsOk s' := by
  intro k c' input hc' hr hst
  rw [generation_step hs]
  rcases calls_of_step hs hc' with hc | h0 | ⟨c, hc, hr', hm⟩
  · exact h k c' input hc hr hst
  · omega
  · rw [hr'] at hr
    by_cases h2 : 2 ≤ c.phase.stage
    · exact h k c input hc hr h2
    rcases hm.stage hr with hle | h1 | hch | h5
    · omega
    · omega
    · generalize c'.phase = p at hch
      cases hch with
      | foreground input' fg hr' hp hg =>
        rw [hr] at hr'
        cases hr'
        exact hg
      | exited _ _ _ hp | revision _ _ _ hp | inputRevision _ _ _ hp =>
        rw [hp] at h2
        simp [Phase.stage] at h2
    · omega

/-- From the moment it has the lock until it advances the input or is rejected, nothing else
advances the input. -/
theorem held_step {s s' : State} {a : Label} {k : Nat} (h : Inv s) (hs : step s a = some s') (hl : s.lock = some k)
    (hk : k ∉ s.accepted) :
    s'.accepted = s.accepted ++ [k] ∨
      s'.accepted = s.accepted ∧ (s'.lock = some k ∨ ∃ c e, s'.calls[k]? = some c ∧ c.phase = .rejected e) := by
  cases a with
  | call r => cases hs; exact .inr ⟨rfl, .inl hl⟩
  | act j a =>
    obtain ⟨c, hc, ha⟩ := Option.bind_eq_some_iff.mp hs
    obtain ⟨p, hm⟩ := act_moves ha
    by_cases hj : j = k
    · subst hj
      have hnew : s'.calls[j]? = some { c with phase := p } := by
        rw [hm.calls, getElem?_set_some_iff (lt_of_getElem?_some hc)]
        exact .inl ⟨rfl, rfl⟩
      have hno : ∀ r w, c.phase ≠ .writing r w := by
        intro r w hp
        exact hk ((h.accepted_iff hc).mpr (by simp [Call.advanced?, hp]))
      cases hm with
      | lock => exact .inr ⟨rfl, .inl rfl⟩
      | check => exact .inr ⟨rfl, .inl hl⟩
      | reject e => exact .inr ⟨rfl, .inr ⟨_, e, hnew, rfl⟩⟩
      | advance => exact .inl rfl
      | wrote r w _ hp => exact absurd hp (hno r w)
      | stop r w _ hp => exact absurd hp (hno r w)
      | drop => exact .inr ⟨rfl, .inl hl⟩
    · have hout : c.phase.holdsLock ≠ true := by
        intro hh
        have hlj := (h.holds hc).mp hh
        rw [hl] at hlj
        cases hlj
        exact hj rfl
      rcases hm.stage_pos with hp | hp
      · cases hm with
        | lock _ _ hn => rw [hl] at hn; cases hn
        | drop => exact .inr ⟨rfl, .inl hl⟩
        | check _ hq => exact absurd hq.holds hout
        | reject _ hq => exact absurd hq hout
        | advance hq | wrote _ _ _ hq | stop _ _ _ hq => rw [hp] at hq; cases hq
      · exact absurd hp hout
  | changed => cases hs; exact .inr ⟨rfl, .inl hl⟩
  | exit => cases hs; exact .inr ⟨rfl, .inl hl⟩

theorem rejected_step {s s' : State} {a : Label} {k : Nat} (hs : step s a = some s') {c : Call} {e : InputError}
    (hc : s.calls[k]? = some c) (he : c.phase = .rejected e) : s'.calls[k]? = some c := by
  cases a with
  | call r => cases hs; exact getElem?_snoc_some_iff.mpr (.inl hc)
  | act j a =>
    obtain ⟨d, hd, ha⟩ := Option.bind_eq_some_iff.mp hs
    obtain ⟨p, hm⟩ := act_moves ha
    rw [hm.calls, getElem?_set_some_iff (lt_of_getElem?_some hd)]
    refine .inr ⟨?_, hc⟩
    rintro rfl
    rw [hc] at hd
    cases hd
    rcases hm.stage_pos with hp | hp <;> simp [he, Phase.holdsLock] at hp
  | changed => cases hs; exact hc
  | exit => cases hs; exact hc

/-- A call that has the lock and is accepted in the end is the next to advance the input. -/
theorem held_next {s t : State} {as : List Label} {k : Nat} (hi : Inv s) (h : exec step s as = some t)
    (hl : s.lock = some k) (hk : k ∉ s.accepted) (ht : k ∈ t.accepted) : t.accepted[s.accepted.length]? = some k := by
  have hrun : Inv t ∧ (s.accepted ++ [k] <+: t.accepted ∨ t.accepted = s.accepted ∧ t.lock = some k ∨
      ∃ c e, t.calls[k]? = some c ∧ c.phase = .rejected e) := by
    refine exec_inv (I := fun t => Inv t ∧ (s.accepted ++ [k] <+: t.accepted ∨ t.accepted = s.accepted ∧ t.lock = some k ∨
      ∃ c e, t.calls[k]? = some c ∧ c.phase = .rejected e)) ?_ h ⟨hi, .inr (.inl ⟨rfl, hl⟩)⟩
    rintro m a m' hs ⟨him, hm⟩
    refine ⟨him.step hs, ?_⟩
    rcases hm with hm | ⟨heq, hlm⟩ | ⟨c, e, hc, he⟩
    · have hone : exec step m [a] = some m' := exec_cons_some.mpr ⟨m', hs, rfl⟩
      exact .inl (hm.trans (accepted_grows hone))
    · rcases held_step him hs hlm (heq ▸ hk) with h1 | ⟨h1, h2 | h2⟩
      · exact .inl ⟨[], by rw [List.append_nil, h1, heq]⟩
      · exact .inr (.inl ⟨h1.trans heq, h2⟩)
      · exact .inr (.inr h2)
    · exact .inr (.inr ⟨c, e, rejected_step hs hc he, he⟩)
  rcases hrun with ⟨hit, hp | ⟨heq, -⟩ | ⟨c, e, hc, he⟩⟩
  · obtain ⟨rest, hr⟩ := hp
    simp [← hr]
  · exact absurd (heq ▸ ht) hk
  · have := (hit.accepted_iff hc).mp ht
    simp [Call.advanced?, he] at this

theorem inv_run {g : String} {t : State} {as : List Label} (h : exec step (start g) as = some t) : Inv t :=
  exec_inv (fun _ _ _ hs hi => hi.step hs) h (inv_start g)

theorem generations_run {g : String} {t : State} {as : List Label} (h : exec step (start g) as = some t) :
    GenerationsOk t :=
  exec_inv (fun _ _ _ hs hi => generations_step hs hi) h (by simp [GenerationsOk, start])

/-- The moment at which a checked call finds the output revision it carries. -/
theorem compared_at {g : String} {t : State} {as : List Label} (h : exec step (start g) as = some t) {k : Nat} {c : Call}
    {input : PtyInput} (hc : t.calls[k]? = some c) (hr : c.request = .checkedInput input) (hst : 4 ≤ c.phase.stage) :
    ∃ as₁ as₂ m, as = as₁ ++ as₂ ∧ exec step (start g) as₁ = some m ∧ exec step m as₂ = some t ∧
      m.lock = some k ∧ k ∉ m.accepted ∧ m.revision = input.revision ∧ m.generation = input.generation := by
  obtain ⟨as₁, a, as₂, m, m', rfl, h1, hm, hs, ⟨c', hc', hr', hst'⟩, h2⟩ := exec_enters
    (Q := fun s => ∃ c : Call, s.calls[k]? = some c ∧ c.request = .checkedInput input ∧ 4 ≤ c.phase.stage) h
    (by simp [start]) ⟨c, hc, hr, hst⟩
  refine ⟨as₁, a :: as₂, m, rfl, h1, exec_cons_some.mpr ⟨m', hs, h2⟩, ?_⟩
  rcases calls_of_step hs hc' with hd | h0 | ⟨d, hd, hrd, hmv⟩
  · exact absurd ⟨c', hd, hr', hst'⟩ hm
  · omega
  rw [hrd] at hr'
  have hlt : d.phase.stage < 4 := by
    by_contra hge
    exact hm ⟨d, hd, hr', by omega⟩
  rcases hmv.stage hr' with hle | h1' | hch | h5
  · omega
  · omega
  · have hl := ((inv_run h1).holds hd).mp hch.holds
    have hk : k ∉ m.accepted := by
      rw [(inv_run h1).accepted_iff hd, hch.not_advanced]
      simp
    generalize c'.phase = p at hch hst'
    cases hch with
    | revision input' fg hrd' hp hv =>
      rw [hr'] at hrd'
      cases hrd'
      exact ⟨hl, hk, hv, generations_run h1 k d input hd hr' (by simp [hp, Phase.stage])⟩
    | inputRevision _ _ _ hp => simp [hp, Phase.stage] at hlt
    | foreground | exited => simp [Phase.stage] at hst'
  · omega

/-! ## The contract of input -/

/-- What `docs/terminal-control.md` promises, for a run `as` that ends in `t`. -/
structure Serialized (g : String) (as : List Label) (t : State) : Prop where
  /-- A rejected call writes nothing and advances nothing, at none of its steps. -/
  rejected : ∀ (k : Nat) (c : Call) (e : InputError), t.calls[k]? = some c → c.phase = .rejected e →
    k ∉ t.accepted ∧ ∀ as₁ b as₂ m m', as = as₁ ++ .act k b :: as₂ → exec step (start g) as₁ = some m →
      step m (.act k b) = some m' → m'.pty = m.pty ∧ m'.inputRevision = m.inputRevision
  /-- Every accepted call advances the revision by one, and is told the one it advanced to. -/
  advances : t.accepted.Nodup ∧ t.inputRevision.toNat = t.accepted.length ∧
    ∀ (k : Nat) (c : Call), t.calls[k]? = some c →
      (c.advanced?.isSome ↔ k ∈ t.accepted) ∧
      ∀ r, (c.advanced? = some r ∨ c.answer? = some (.ok r)) →
        ∃ i : Nat, t.accepted[i]? = some k ∧ r.toNat = i + 1
  once : ∀ (j k : Nat) (c d : Call) (input : PtyInput), t.calls[j]? = some c → t.calls[k]? = some d →
    c.request = .checkedInput input → d.request = .checkedInput input → j ∈ t.accepted → k ∈ t.accepted → j = k
  /-- An accepted input is the first one after any moment that shows the input revision it
  carries, and while it held the lock it found its output revision and generation. -/
  current : ∀ (k : Nat) (c : Call) (input : PtyInput), t.calls[k]? = some c → c.request = .checkedInput input →
    k ∈ t.accepted →
      (∀ as₁ as₂ m, as = as₁ ++ as₂ → exec step (start g) as₁ = some m → m.inputRevision = input.inputRevision →
        t.accepted[m.accepted.length]? = some k) ∧
      ∃ as₁ as₂ m, as = as₁ ++ as₂ ∧ exec step (start g) as₁ = some m ∧ m.lock = some k ∧ k ∉ m.accepted ∧
        m.revision = input.revision ∧ m.generation = input.generation ∧ m.inputRevision = input.inputRevision ∧
        t.accepted[m.accepted.length]? = some k
  stream : t.pty = t.accepted.flatMap (sentBy t.calls) ∧
    ∀ (k : Nat) (c : Call), t.calls[k]? = some c → c.sent <+: c.request.data ∧
      ∀ r, c.phase = .finished r → c.sent = c.request.data

theorem ofNat_inj {i j : Nat} (hi : i < 2 ^ 64) (hj : j < 2 ^ 64) (h : UInt64.ofNat i = UInt64.ofNat j) : i = j := by
  have := congrArg UInt64.toNat h
  rwa [UInt64.toNat_ofNat_of_lt' hi, UInt64.toNat_ofNat_of_lt' hj] at this

theorem sent_initial (c : Call) : c.sent <+: c.request.data := by
  unfold Call.sent
  split
  · exact List.take_prefix _ _
  · exact List.take_prefix _ _
  · exact List.take_prefix _ _
  · exact List.prefix_refl _
  · exact List.nil_prefix

theorem advanced_of_answer {c : Call} {r : UInt64} (h : c.answer? = some (.ok r)) : c.advanced? = some r := by
  obtain ⟨request, phase⟩ := c
  cases phase <;> simp_all [Call.answer?, Call.advanced?]

section
variable {g : String} {as : List Label} {t : State} {k : Nat} {c : Call}

theorem rejected_silent (h : exec step (start g) as = some t) (hc : t.calls[k]? = some c) {e : InputError}
    (he : c.phase = .rejected e) : k ∉ t.accepted ∧ ∀ as₁ b as₂ m m', as = as₁ ++ .act k b :: as₂ →
      exec step (start g) as₁ = some m → step m (.act k b) = some m' →
        m'.pty = m.pty ∧ m'.inputRevision = m.inputRevision := by
  have hk : k ∉ t.accepted := by simp [(inv_run h).accepted_iff hc, Call.advanced?, he]
  refine ⟨hk, ?_⟩
  rintro as₁ b as₂ m m' rfl hm hs
  obtain ⟨m₁, hm₁, ht⟩ := exec_append_some.mp h
  rw [hm] at hm₁
  cases hm₁
  obtain ⟨m₂, hs₂, ht⟩ := exec_cons_some.mp ht
  rw [hs] at hs₂
  cases hs₂
  have hk' : k ∉ m'.accepted := fun hin => hk ((accepted_grows ht).subset hin)
  obtain ⟨d, hd, ha⟩ := Option.bind_eq_some_iff.mp hs
  obtain ⟨p, hmv⟩ := act_moves ha
  rcases hmv.accepted with ⟨hacc, hrev⟩ | ⟨hacc, -⟩
  · refine ⟨?_, hrev⟩
    rcases hmv.pty with hpty | hadv
    · exact hpty
    · exact absurd (hacc ▸ ((inv_run hm).accepted_iff hd).mpr hadv) hk'
  · exact absurd (by simp [hacc]) hk'

theorem index_of_mem (hk : k ∈ t.accepted) : ∃ i : Nat, t.accepted[i]? = some k ∧ i < t.accepted.length := by
  obtain ⟨i, hi⟩ := List.getElem?_of_mem hk
  exact ⟨i, hi, lt_of_getElem?_some hi⟩

/-- The revision an accepted call carries is the number of calls accepted before it. -/
theorem accepted_at (h : exec step (start g) as = some t) (hfew : t.accepted.length < 2 ^ 64) (hc : t.calls[k]? = some c)
    {input : PtyInput} (hr : c.request = .checkedInput input) (hk : k ∈ t.accepted) {n : Nat} (hn : n ≤ t.accepted.length)
    (hv : UInt64.ofNat n = input.inputRevision) : t.accepted[n]? = some k := by
  obtain ⟨i, hi, hlt⟩ := index_of_mem hk
  have := (inv_run h).carried i k c input hi hc hr
  rw [ofNat_inj (by omega) (by omega) (hv.trans this)]
  exact hi

/-- Checked input is accepted at most once and never interleaved with other input. -/
theorem checked_input_serialized (h : exec step (start g) as = some t) (hfew : t.accepted.length < 2 ^ 64) :
    Serialized g as t where
  rejected := fun _ _ _ hc he => rejected_silent h hc he
  advances := by
    have hinv := inv_run h
    refine ⟨hinv.nodup, ?_, ?_⟩
    · rw [hinv.count, UInt64.toNat_ofNat_of_lt' hfew]
    · intro k c hc
      refine ⟨(hinv.accepted_iff hc).symm, ?_⟩
      intro r hr
      have hadv : c.advanced? = some r := hr.elim id advanced_of_answer
      obtain ⟨i, hi, hlt⟩ := index_of_mem ((hinv.accepted_iff hc).mpr (by rw [hadv]; rfl))
      have hnth := hinv.nth i k c hi hc
      rw [hadv] at hnth
      cases hnth
      exact ⟨i, hi, UInt64.toNat_ofNat_of_lt' (by show i + 1 < 2 ^ 64; omega)⟩
  once := by
    intro j k c d input hc hd hrc hrd hj hk
    obtain ⟨i, hi, hlt⟩ := index_of_mem hj
    have hv := (inv_run h).carried i j c input hi hc hrc
    have := accepted_at h hfew hd hrd hk (Nat.le_of_lt hlt) hv.symm
    rw [hi] at this
    exact Option.some.inj this
  current := by
    intro k c input hc hr hk
    have hinv := inv_run h
    have hst : 4 ≤ c.phase.stage := by
      rw [stage_of_advanced ((hinv.accepted_iff hc).mp hk)]
      omega
    refine ⟨?_, ?_⟩
    · rintro as₁ as₂ m rfl hm hv
      obtain ⟨m₁, hm₁, ht⟩ := exec_append_some.mp h
      rw [hm] at hm₁
      cases hm₁
      exact accepted_at h hfew hc hr hk (accepted_grows ht).length_le ((inv_run hm).count ▸ hv)
    · obtain ⟨as₁, as₂, m, heq, hm, ht, hl, hkm, hrev, hgen⟩ := compared_at h hc hr hst
      have hnext := held_next (inv_run hm) ht hl hkm hk
      refine ⟨as₁, as₂, m, heq, hm, hl, hkm, hrev, hgen, ?_, hnext⟩
      rw [(inv_run hm).count]
      exact (hinv.carried _ k c input hnext hc hr).symm
  stream := ⟨(inv_run h).stream, fun k c _ => ⟨sent_initial c, fun r hp => by simp [Call.sent, hp]⟩⟩

end

/-- A draft that the pty takes in two parts, a checked input after it, and the same input again. -/
def draftThenChecked : List Label :=
  let input : PtyInput := ⟨"g", 1, 1, 7, [108, 115, 13]⟩
  [.changed, .call (.writeInput [104, 105]), .call (.checkedInput input), .call (.checkedInput input),
    .act 0 .acquire, .act 0 .advanceInput, .act 0 (.write (.ok 1)), .act 0 (.write (.ok 0)), .act 0 (.write (.ok 1)),
    .act 0 .finish, .act 1 .acquire, .act 1 (.tcgetpgrp (.ok 7)), .act 1 .load, .act 1 .load, .act 1 .load,
    .act 1 .advanceInput, .act 1 (.write (.ok 2)), .act 1 .cancel, .act 2 .acquire, .act 2 (.tcgetpgrp (.ok 7)),
    .act 2 .load, .act 2 .load, .act 2 .load]

theorem checked_input_serialized_retry :
    ∃ t, exec step (start "g") draftThenChecked = some t ∧ t.accepted = [0, 1] ∧ t.pty = [104, 105, 108, 115] ∧
      Serialized "g" draftThenChecked t :=
  ⟨_, rfl, rfl, rfl, checked_input_serialized rfl (by decide)⟩

end Mux.Input
