import Mux.Process
import Mux.Lib.Run

/-!
# Ownership of an audio peer

What `ancestor` answers was true at one instant of the call. Every process of the
chain is read twice, once before the peer's second reading and once after it, so at
the peer's second reading each still had the pid and the parent it was read with;
and a pid that is some process's parent names one process.
-/

namespace Mux.Process

open Lib

section
variable {P : Type} {K : Kernel P} {clock : Nat → Nat} {uid : Nat}

theorem identity_uids {i : Info} {id : Identity} (h : i.identity uid = some id) : i.uids = List.replicate 4 uid := by
  unfold Info.identity at h
  split at h
  · cases h
  · rename_i hn
    by_cases hu : i.uids = List.replicate 4 uid
    · exact hu
    · exact absurd (Or.inr (Or.inr (Or.inr hu))) hn

theorem toI32_some {n m : Nat} (h : toI32 n = some m) : n = m := by
  unfold toI32 at h
  split at h
  · exact Option.some.inj h
  · cases h

theorem identity_fields {i : Info} {id : Identity} (h : i.identity uid = some id) :
    i.pid = id.pid ∧ i.parent = id.parent := by
  unfold Info.identity at h
  split at h
  · cases h
  · obtain ⟨pid, hpid, h⟩ := Option.bind_eq_some_iff.mp h
    obtain ⟨parent, hparent, rfl⟩ := Option.map_eq_some_iff.mp h
    exact ⟨toI32_some hpid, toI32_some hparent⟩

theorem kernel_identity_some {t : Nat} {p : P} {id : Identity} (h : K.identity uid t p = some id) :
    ∃ i, K.info t p = some i ∧ i.uids = List.replicate 4 uid ∧ i.pid = id.pid ∧ i.parent = id.parent := by
  obtain ⟨i, hi, h⟩ := Option.bind_eq_some_iff.mp h
  exact ⟨i, hi, identity_uids h, identity_fields h⟩

theorem Kernel.Lawful.identity_pid (hK : K.Lawful) {t : Nat} {p : P} {id : Identity}
    (h : K.identity uid t p = some id) : K.pid t p = some id.pid := by
  obtain ⟨i, hi, -, hpid, -⟩ := kernel_identity_some h
  rw [← hpid]
  exact hK.info_pid hi

theorem Kernel.Lawful.identity_parent (hK : K.Lawful) {t : Nat} {p : P} {id : Identity}
    (h : K.identity uid t p = some id) (h0 : id.parent ≠ 0) : K.parentPid t p = some id.parent := by
  obtain ⟨i, hi, -, -, hparent⟩ := kernel_identity_some h
  rw [← hparent] at h0 ⊢
  exact hK.info_parent hi h0

/-! ## One link, read on both sides of an instant -/

/-- `p` read as `id` at or before `T` and again at or after it. -/
def Around (K : Kernel P) (uid T : Nat) (p : P) (id : Identity) : Prop :=
  ∃ t u, t ≤ T ∧ T ≤ u ∧ K.identity uid t p = some id ∧ K.identity uid u p = some id

theorem Around.pid (hK : K.Lawful) {T : Nat} {p : P} {id : Identity} (h : Around K uid T p id) :
    K.pid T p = some id.pid := by
  obtain ⟨t, u, ht, hu, h1, h2⟩ := h
  exact hK.pinned ht hu (hK.identity_pid h1) (hK.identity_pid h2)

theorem Around.parentPid (hK : K.Lawful) {T : Nat} {p : P} {id : Identity} (h : Around K uid T p id)
    (h0 : id.parent ≠ 0) : K.parentPid T p = some id.parent := by
  obtain ⟨t, u, ht, hu, h1, h2⟩ := h
  exact hK.never_returns ht hu (hK.identity_parent h1 h0) (hK.identity_parent h2 h0)

/-- The process opened under the parent's number is the parent. -/
theorem Around.parent (hK : K.Lawful) {T o : Nat} {p q : P} {id id' : Identity} (hp : Around K uid T p id)
    (hq : Around K uid T q id') (ho : o ≤ T) (hopen : K.pidfdOpen o id.parent = some q) (h1 : 1 < id'.pid) :
    K.parent T p = some q := by
  have hpid := hq.pid hK
  obtain ⟨-, u, -, hu, -, hq2⟩ := hq
  have hqT : K.pid T q = some id.parent := hK.pinned ho hu (hK.open_pid hopen) (hK.identity_pid hq2)
  have hsame : id.parent = id'.pid := Option.some.inj (hqT.symm.trans hpid)
  have h0 : id.parent ≠ 0 := by omega
  obtain ⟨r, hr, hrpid⟩ := Option.bind_eq_some_iff.mp (hp.parentPid hK h0)
  rw [hr, hK.not_reused hr hrpid hqT]

/-! ## The way up -/

/-- What the loop knows after `calls` system calls: which reading each identity is, and under which
number each handle was opened. -/
structure Walked (K : Kernel P) (clock : Nat → Nat) (uid : Nat) (peer : P) (calls : Nat) (handles : List P)
    (identities : List Identity) : Prop where
  lengths : identities.length = handles.length
  read : ∀ (j : Nat) (p : P) (id : Identity), (peer :: handles)[j]? = some p → identities[j]? = some id →
    ∃ k, k < calls ∧ K.identity uid (clock k) p = some id
  opened : ∀ (j : Nat) (p : P) (id : Identity), handles[j]? = some p → identities[j]? = some id →
    ∃ k, k < calls ∧ K.pidfdOpen (clock k) id.parent = some p
  pids : ∀ id ∈ identities, 1 < id.pid

theorem walked_start (peer : P) : Walked K clock uid peer 0 [] [] :=
  ⟨rfl, fun _ _ _ _ h => by simp at h, fun _ _ _ _ h => by simp at h, fun _ h => by simp at h⟩

theorem current_eq (peer : P) (handles : List P) :
    (peer :: handles)[handles.length]? = some (handles.getLast?.getD peer) := by
  induction handles generalizing peer with
  | nil => rfl
  | cons q handles ih =>
    rw [List.length_cons, List.getElem?_cons_succ, ih q, List.getLast?_cons]
    rfl

/-- One reading more: every process on the way has been read. -/
theorem Walked.readAll {peer : P} {calls : Nat} {handles : List P} {identities : List Identity} {id : Identity}
    (h : Walked K clock uid peer calls handles identities)
    (hid : K.identity uid (clock calls) (handles.getLast?.getD peer) = some id) (j : Nat) (p : P) (i : Identity)
    (hp : (peer :: handles)[j]? = some p) (hi : (identities ++ [id])[j]? = some i) :
    ∃ k, k < calls + 1 ∧ K.identity uid (clock k) p = some i := by
  obtain hi | ⟨rfl, rfl⟩ := getElem?_snoc_some_iff.mp hi
  · obtain ⟨k, hk, hr⟩ := h.read j p i hp hi
    exact ⟨k, by omega, hr⟩
  · rw [h.lengths, current_eq] at hp
    cases hp
    exact ⟨calls, by omega, hid⟩

theorem Walked.push {peer q : P} {calls : Nat} {handles : List P} {identities : List Identity} {id : Identity}
    (h : Walked K clock uid peer calls handles identities)
    (hid : K.identity uid (clock calls) (handles.getLast?.getD peer) = some id) (h1 : 1 < id.pid)
    (hq : K.pidfdOpen (clock (calls + 1)) id.parent = some q) :
    Walked K clock uid peer (calls + 2) (handles ++ [q]) (identities ++ [id]) := by
  refine ⟨by simp [h.lengths], ?_, ?_, ?_⟩
  · intro j p i hp hi
    have hj : j < (identities ++ [id]).length := lt_of_getElem?_some hi
    rw [← List.cons_append, List.getElem?_append_left (by simp [h.lengths] at hj ⊢; omega)] at hp
    obtain ⟨k, hk, hr⟩ := h.readAll hid j p i hp hi
    exact ⟨k, by omega, hr⟩
  · intro j p i hp hi
    have hlen := h.lengths
    obtain hp | ⟨hj, rfl⟩ := getElem?_snoc_some_iff.mp hp
    · have hj := lt_of_getElem?_some hp
      obtain hi | ⟨hj', -⟩ := getElem?_snoc_some_iff.mp hi
      · obtain ⟨k, hk, ho⟩ := h.opened j p i hp hi
        exact ⟨k, by omega, ho⟩
      · omega
    · obtain hi | ⟨-, rfl⟩ := getElem?_snoc_some_iff.mp hi
      · have := lt_of_getElem?_some hi
        omega
      · exact ⟨calls + 1, by omega, hq⟩
  · intro i hi
    rw [List.mem_append, List.mem_singleton] at hi
    obtain hi | rfl := hi
    · exact h.pids i hi
    · exact h1

/-! ## The second reading -/

theorem recheck_spec : ∀ {links : List (P × Identity)} {c : Nat}, (recheck K clock uid c links).1 = true →
    (recheck K clock uid c links).2 = c + links.length ∧
      ∀ (j : Nat) (l : P × Identity), links[j]? = some l → K.identity uid (clock (c + j)) l.1 = some l.2 := by
  intro links
  induction links with
  | nil => exact fun _ => ⟨rfl, fun _ _ h => by simp at h⟩
  | cons l rest ih =>
    intro c h
    obtain ⟨handle, before⟩ := l
    unfold recheck at h ⊢
    by_cases hl : K.identity uid (clock c) handle = some before
    · rw [if_pos hl] at h ⊢
      obtain ⟨hcalls, hrest⟩ := ih h
      refine ⟨by rw [hcalls, List.length_cons]; omega, fun j l hj => ?_⟩
      cases j with
      | zero => cases hj; exact hl
      | succ j =>
        rw [show c + (j + 1) = c + 1 + j by omega]
        exact hrest j l hj
    · rw [if_neg hl] at h
      cases h

theorem recheck_calls_le : ∀ (links : List (P × Identity)) (c : Nat),
    (recheck K clock uid c links).2 ≤ c + links.length := by
  intro links
  induction links with
  | nil => exact fun _ => Nat.le_refl _
  | cons l rest ih =>
    intro c
    unfold recheck
    split
    · have := ih (c + 1)
      rw [List.length_cons]
      omega
    · simp

/-- An answer says that the peer, and after it every handle, reads as before. -/
theorem confirm_owner {peer : P} {round c pid owner : Nat} {handles : List P} {identities : List Identity}
    (hlen : identities.length = handles.length + 1)
    (h : (confirm K clock uid peer round c handles identities pid).owner = some owner) :
    owner = pid ∧ (confirm K clock uid peer round c handles identities pid).calls = c + 1 + handles.length ∧
      ∀ (j : Nat) (p : P) (id : Identity), (peer :: handles)[j]? = some p → identities[j]? = some id →
        K.identity uid (clock (c + j)) p = some id := by
  unfold confirm at h ⊢
  by_cases hpeer : K.identity uid (clock c) peer = identities.head?
  · rw [if_neg (not_not_intro hpeer)] at h ⊢
    by_cases hc : (recheck K clock uid (c + 1) (handles.zip identities.tail)).1 = true
    · obtain ⟨hcalls, hread⟩ := recheck_spec hc
      simp only [hc, if_true, Option.some.injEq] at h
      refine ⟨h.symm, ?_, fun j p id hp hid => ?_⟩
      · show (recheck K clock uid (c + 1) (handles.zip identities.tail)).2 = _
        rw [hcalls, List.length_zip, List.length_tail]
        omega
      · cases j with
        | zero =>
          cases hp
          rw [Nat.add_zero, hpeer, List.head?_eq_getElem?]
          exact hid
        | succ j =>
          have hz : (handles.zip identities.tail)[j]? = some (p, id) := by
            rw [List.getElem?_zip_eq_some]
            exact ⟨hp, by rw [List.getElem?_tail]; exact hid⟩
          have := hread j (p, id) hz
          rwa [show c + 1 + j = c + (j + 1) by omega] at this
    · simp only [hc] at h
      cases h
  · rw [if_pos hpeer] at h
    cases h

/-! ## The answer -/

/-- At instant `T` a chain of parent links leads from `peer` to a process with pid `owner`; every
process of it was read, with the daemon's uid in all four places, before the call's `calls`-th
system call. -/
structure LedTo (K : Kernel P) (clock : Nat → Nat) (uid : Nat) (peer : P) (calls T owner : Nat)
    (chain : List P) : Prop where
  first : chain.head? = some peer
  links : chain.IsChain fun p q => K.parent T p = some q
  last : (chain.getLast?.bind (K.pid T)) = some owner
  uids : ∀ p ∈ chain, ∃ k i, k < calls ∧ K.info (clock k) p = some i ∧ i.uids = List.replicate 4 uid

/-- The instant is the peer's second reading. -/
theorem confirm_sound (hK : K.Lawful) (hclock : ∀ a b, a ≤ b → clock a ≤ clock b) {peer : P}
    {round calls owner : Nat} {handles : List P} {identities : List Identity} {id : Identity}
    (hw : Walked K clock uid peer calls handles identities)
    (hid : K.identity uid (clock calls) (handles.getLast?.getD peer) = some id) (h1 : 1 < id.pid)
    (h : (confirm K clock uid peer round (calls + 1) handles (identities ++ [id]) id.pid).owner = some owner) :
    owner = id.pid ∧
      LedTo K clock uid peer (confirm K clock uid peer round (calls + 1) handles (identities ++ [id]) id.pid).calls
        (clock (calls + 1)) owner (peer :: handles) ∧
      calls + 1 < (confirm K clock uid peer round (calls + 1) handles (identities ++ [id]) id.pid).calls := by
  have hlen : (identities ++ [id]).length = handles.length + 1 := by simp [hw.lengths]
  obtain ⟨rfl, hcalls, hagain⟩ := confirm_owner hlen h
  have hpids : ∀ (j : Nat) (i : Identity), (identities ++ [id])[j]? = some i → 1 < i.pid := by
    intro j i hi
    obtain hi | ⟨-, rfl⟩ := getElem?_snoc_some_iff.mp hi
    · exact hw.pids i (List.mem_of_getElem? hi)
    · exact h1
  have haround : ∀ (j : Nat) (p : P) (i : Identity), (peer :: handles)[j]? = some p →
      (identities ++ [id])[j]? = some i → Around K uid (clock (calls + 1)) p i := by
    intro j p i hp hi
    obtain ⟨k, hk, hread⟩ := hw.readAll hid j p i hp hi
    exact ⟨clock k, clock (calls + 1 + j), hclock _ _ (by omega), hclock _ _ (by omega), hread, hagain j p i hp hi⟩
  have hget : ∀ (j : Nat), j < (peer :: handles).length → ∃ i, (identities ++ [id])[j]? = some i := fun j hj =>
    ⟨_, List.getElem?_eq_getElem (by rw [hlen]; exact hj)⟩
  refine ⟨rfl, ⟨rfl, ?_, ?_, ?_⟩, by omega⟩
  · rw [List.isChain_iff_getElem]
    intro j hj
    have hj' : j < identities.length := by rw [hw.lengths]; exact Nat.lt_of_succ_lt_succ hj
    have hp : (peer :: handles)[j]? = some (peer :: handles)[j] := List.getElem?_eq_getElem _
    have hq : (peer :: handles)[j + 1]? = some (peer :: handles)[j + 1] := List.getElem?_eq_getElem _
    have hi : identities[j]? = some identities[j] := List.getElem?_eq_getElem hj'
    have hi' : (identities ++ [id])[j]? = some identities[j] := by rw [List.getElem?_append_left hj']; exact hi
    obtain ⟨i, hnext⟩ := hget (j + 1) hj
    obtain ⟨k, hk, hopen⟩ := hw.opened j _ _ hq hi
    exact (haround j _ _ hp hi').parent hK (haround (j + 1) _ _ hq hnext) (hclock _ _ (by omega)) hopen
      (hpids _ _ hnext)
  · rw [List.getLast?_eq_getElem?]
    have hp := current_eq peer handles
    have hi : (identities ++ [id])[handles.length]? = some id := by rw [← hw.lengths]; simp
    rw [List.length_cons, Nat.add_sub_cancel, hp, Option.bind_some]
    exact (haround _ _ _ hp hi).pid hK
  · intro p hp
    obtain ⟨j, hj⟩ := List.getElem?_of_mem hp
    obtain ⟨i, hi⟩ := hget j (lt_of_getElem?_some hj)
    obtain ⟨k, hk, hread⟩ := hw.readAll hid j p i hj hi
    obtain ⟨info, hinfo, huids, -⟩ := kernel_identity_some hread
    exact ⟨k, info, by omega, hinfo, huids⟩

theorem climb_sound (hK : K.Lawful) (hclock : ∀ a b, a ≤ b → clock a ≤ clock b) {owns : Nat → Bool} {peer : P}
    {owner : Nat} : ∀ {fuel rounds calls : Nat} {handles : List P} {identities : List Identity},
    Walked K clock uid peer calls handles identities →
    (climb K clock uid owns peer fuel rounds calls handles identities).owner = some owner →
    owns owner = true ∧ ∃ k chain, k < (climb K clock uid owns peer fuel rounds calls handles identities).calls ∧
      LedTo K clock uid peer (climb K clock uid owns peer fuel rounds calls handles identities).calls (clock k) owner
        chain := by
  intro fuel
  induction fuel with
  | zero => intro _ _ _ _ _ h; cases h
  | succ fuel ih =>
    intro rounds calls handles identities hw h
    unfold climb at h ⊢
    cases hid : K.identity uid (clock calls) (handles.getLast?.getD peer) with
    | none => simp only [hid] at h; cases h
    | some id =>
      simp only [hid] at h ⊢
      by_cases hstop : id.pid ≤ 1 ∨ identities.any (fun seen => seen.pid == id.pid)
      · rw [if_pos hstop] at h; cases h
      rw [if_neg hstop] at h ⊢
      have h1 : 1 < id.pid := Nat.lt_of_not_le fun h => hstop (.inl h)
      by_cases howns : owns id.pid = true
      · rw [if_pos howns] at h ⊢
        obtain ⟨rfl, hled, hk⟩ := confirm_sound hK hclock hw hid h1 h
        exact ⟨howns, calls + 1, peer :: handles, hk, hled⟩
      · rw [if_neg howns] at h ⊢
        cases hq : K.pidfdOpen (clock (calls + 1)) id.parent with
        | none => simp only [hq] at h; cases h
        | some q =>
          simp only [hq] at h ⊢
          exact ih (hw.push hid h1 hq) h

/-! ## The bound -/

theorem confirm_bound (K : Kernel P) (clock : Nat → Nat) (uid : Nat) (peer : P) (round c pid : Nat)
    (handles : List P) (identities : List Identity) :
    (confirm K clock uid peer round c handles identities pid).rounds = round ∧
      (confirm K clock uid peer round c handles identities pid).calls ≤ c + 1 + handles.length := by
  unfold confirm
  split
  · exact ⟨rfl, by simp⟩
  · refine ⟨rfl, Nat.le_trans (recheck_calls_le _ _) ?_⟩
    rw [List.length_zip]
    omega

theorem climb_bound (K : Kernel P) (clock : Nat → Nat) (uid : Nat) (owns : Nat → Bool) (peer : P) :
    ∀ (fuel rounds calls : Nat) (handles : List P) (identities : List Identity),
    (climb K clock uid owns peer fuel rounds calls handles identities).rounds ≤ rounds + fuel ∧
      (climb K clock uid owns peer fuel rounds calls handles identities).calls ≤
        calls + 3 * fuel + handles.length := by
  intro fuel
  induction fuel with
  | zero => intro rounds calls handles identities; exact ⟨Nat.le_refl _, by simp [climb]⟩
  | succ fuel ih =>
    intro rounds calls handles identities
    unfold climb
    split
    · exact ⟨by simp, by simp; omega⟩
    · rename_i id _
      split
      · exact ⟨by simp, by simp; omega⟩
      · split
        · obtain ⟨hr, hc⟩ := confirm_bound K clock uid peer (rounds + 1) (calls + 1) id.pid handles
            (identities ++ [id])
          exact ⟨by omega, by omega⟩
        · split
          · exact ⟨by simp, by simp; omega⟩
          · rename_i q _
            obtain ⟨hr, hc⟩ := ih (rounds + 1) (calls + 2) (handles ++ [q]) (identities ++ [id])
            rw [List.length_append, List.length_singleton] at hc
            exact ⟨by omega, by omega⟩

/-- Whatever happens to the processes meanwhile, an answer of `ancestor` was true at one instant of
the call; and the call ends after at most 128 rounds. -/
theorem ancestor_sound {K : Kernel P} (hK : K.Lawful) {clock : Nat → Nat}
    (hclock : ∀ a b, a ≤ b → clock a ≤ clock b) (uid : Nat) (owns : Nat → Bool) (peer : P) :
    (∀ owner, (ancestor K clock uid owns peer).owner = some owner → owns owner = true ∧
      ∃ k chain, k < (ancestor K clock uid owns peer).calls ∧
        LedTo K clock uid peer (ancestor K clock uid owns peer).calls (clock k) owner chain) ∧
      (ancestor K clock uid owns peer).rounds ≤ 128 ∧ (ancestor K clock uid owns peer).calls ≤ 384 := by
  obtain ⟨hr, hc⟩ := climb_bound K clock uid owns peer 128 0 0 [] []
  refine ⟨fun owner h => climb_sound hK hclock (walked_start peer) h, ?_, ?_⟩
  · exact Nat.le_trans hr (by decide)
  · exact Nat.le_trans hc (by simp)

/-- The session `audio_session` gives is one of the table, live before and after the search, and the
peer descended from its child at one instant between. -/
theorem audioSession_descends {S : Type} (hK : K.Lawful) (hclock : ∀ a b, a ≤ b → clock a ≤ clock b) {peer : P}
    {child : S → Nat} {exited : Nat → S → Bool} {sessions : List S} {locked later : Nat} {s : S}
    (h : audioSession K clock uid peer child exited sessions locked later = some s) :
    s ∈ sessions ∧ exited locked s = false ∧ exited later s = false ∧
      ∃ calls k chain, k < calls ∧ LedTo K clock uid peer calls (clock k) (child s) chain := by
  obtain ⟨owner, hor, h⟩ := Option.bind_eq_some_iff.mp h
  obtain ⟨session, hlook, h⟩ := Option.bind_eq_some_iff.mp h
  obtain ⟨-, k, chain, hk, hled⟩ := climb_sound hK hclock (walked_start peer) hor
  obtain ⟨before, after, hroots, -⟩ := List.lookup_eq_some_iff.mp hlook
  have hm := List.mem_reverse.mp (hroots ▸ List.mem_append_right before List.mem_cons_self)
  obtain ⟨s', hs', heq⟩ := List.mem_map.mp hm
  obtain ⟨rfl, rfl⟩ := Prod.mk.injEq .. ▸ heq
  obtain ⟨hmem, hlive⟩ := List.mem_filter.mp hs'
  cases hlater : exited later s' with
  | true => simp [hlater] at h
  | false =>
    simp only [hlater] at h
    cases h
    exact ⟨hmem, by simpa using hlive, hlater, _, k, chain, hk, hled⟩

end

/-! ## A terminal, a helper and a pid that comes back -/

inductive Proc
  | init | shell | helper | peer | stray | recycled
deriving Repr, DecidableEq

/-- The helper lives until instant 20. `stray` leaves it at 3 and is gone at 5; from 6 on its pid
belongs to another child of the helper. -/
def Proc.pid (t : Nat) : Proc → Option Nat
  | .init => some 1
  | .shell => some 40
  | .helper => if t < 20 then some 41 else none
  | .peer => some 42
  | .stray => if t < 5 then some 50 else none
  | .recycled => if t < 6 then none else some 50

def Proc.parent (t : Nat) : Proc → Option Proc
  | .init => none
  | .shell => some .init
  | .helper => if t < 20 then some .shell else none
  | .peer => if t < 20 then some .helper else some .init
  | .stray => if t < 3 then some .helper else if t < 5 then some .init else none
  | .recycled => if t < 6 then none else if t < 20 then some .helper else some .init

def Proc.info (t : Nat) (p : Proc) : Option Info :=
  (p.pid t).map fun n => ⟨3, n, n, ((p.parent t).bind (Proc.pid t)).getD 0, 1000, 1000, 1000, 1000⟩

def terminal : Kernel Proc where
  info := Proc.info
  pidfdOpen t n := [Proc.init, .shell, .helper, .peer, .stray, .recycled].find? fun p => p.pid t == some n
  pid := Proc.pid
  parent := Proc.parent

theorem terminal_lawful : terminal.Lawful where
  info_pid := by
    intro t p i h
    obtain ⟨n, hn, rfl⟩ := Option.map_eq_some_iff.mp h
    exact hn
  info_parent := by
    intro t p i h h0
    obtain ⟨n, -, rfl⟩ := Option.map_eq_some_iff.mp h
    show (p.parent t).bind (Proc.pid t) = some (((p.parent t).bind (Proc.pid t)).getD 0)
    cases hq : (p.parent t).bind (Proc.pid t) with
    | none => simp [hq] at h0
    | some m => rfl
  open_pid := by
    intro t n p h
    have hp := List.find?_some h
    exact eq_of_beq hp
  pinned := by
    intro p t s u m n hts hsu ht hu
    cases p <;> simp only [terminal, Proc.pid] at ht hu ⊢ <;> grind
  not_reused := by
    intro t p q r n hq hn hr
    cases r <;> cases q <;> simp only [terminal, Proc.pid] at hn hr ⊢ <;> grind
  never_returns := by
    intro p t s u n hts hsu ht hu
    cases p <;> simp only [terminal, Kernel.parentPid, Proc.parent] at ht hu ⊢ <;> grind [Proc.pid]

theorem ancestor_sound_shell :
    (ancestor terminal (fun k => k) 1000 (fun pid => pid == 40) .peer).owner = some 40 ∧
      ∃ k chain, k < 8 ∧ LedTo terminal (fun k => k) 1000 .peer 8 k 40 chain := by
  have h : (ancestor terminal (fun k => k) 1000 (fun pid => pid == 40) .peer) = ⟨some 40, 3, 8⟩ := by decide
  have hs := ((ancestor_sound terminal_lawful (fun _ _ h => h) 1000 (fun pid => pid == 40) .peer).1 40 (by rw [h])).2
  rw [h] at hs
  exact ⟨by rw [h], hs⟩

end Mux.Process
