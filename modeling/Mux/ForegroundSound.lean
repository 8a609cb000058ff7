import Mux.Foreground
import Mux.SessionLemmas

/-!
# The client is told the name that is stored

A name is on its way to the client from the moment it is stored: an evaluation has it, or a notice
that is being sent, or it is in the client's channel. It is lost when a notice picks its client
while an attach has read the old name and not yet taken the slot, and overtaken when two evaluations
have names to tell.
-/

namespace Mux.Foreground

open Lib Session

def Evaluation.name? : Evaluation → Option String
  | .tell name => some name
  | _ => none

def tellName? : Tell → Option String
  | .sending name _ => some name
  | _ => none

def State.names {T : Type} (s : State T) : List String :=
  s.evaluations.filterMap Evaluation.name? ++ s.session.tells.filterMap tellName?

/-- A new name is stored only when no other is still to be sent, and a notice picks its client while an
attach is under way only when the attach has read the same name. -/
def InTurn {T : Type} [Ghostty T] (s : State T) : Label → Prop
  | .refresh _ name => name = none ∨ name = s.foreground ∨ ∀ m ∈ s.names, name = some m
  | .tell i =>
    ∀ n ∈ s.evaluations[i]?.bind Evaluation.name?, ∀ a ∈ s.session.attaching, lastForeground a.chan.log = some n
  | _ => True

instance {T : Type} [Ghostty T] (s : State T) : (a : Label) → Decidable (InTurn s a)
  | .refresh _ name => inferInstanceAs (Decidable (name = none ∨ name = s.foreground ∨ ∀ m ∈ s.names, name = some m))
  | .tell i =>
    inferInstanceAs (Decidable (∀ n ∈ s.evaluations[i]?.bind Evaluation.name?, ∀ a ∈ s.session.attaching,
      lastForeground a.chan.log = some n))
  | .session _ | .scheduleAgent | .check _ => isTrue trivial

/-! ## Messages and notices -/

theorem lastForeground_append {l m : List ClientMsg} (h : m.filterMap foreground? = []) :
    lastForeground (l ++ m) = lastForeground l := by
  rw [lastForeground, List.filterMap_append, h, List.append_nil]
  rfl

theorem lastForeground_snoc (l : List ClientMsg) (n : String) : lastForeground (l ++ [.foreground n]) = some n := by
  simp [lastForeground, foreground?]

theorem lastForeground_fresh {T : Type} [Ghostty T] {p : PtySession T} {n : String} (h : p.foreground = some n) :
    lastForeground (Session.State.freshChannel p).log = some n := by
  simp [Session.State.freshChannel, h, Channel.new, Channel.send, Channel.log, clientChannelDepth, lastForeground,
    foreground?]

theorem mem_eraseIdx_of_ne {α : Type} {l : List α} {i : Nat} {x y : α} (hi : l[i]? = some y) (hx : x ∈ l)
    (hne : x ≠ y) :
    x ∈ l.eraseIdx i := by
  obtain ⟨j, hj⟩ := List.mem_iff_getElem?.mp hx
  refine List.mem_eraseIdx_iff_getElem?.mpr ⟨j, fun h => ?_, hj⟩
  subst h
  exact hne (Option.some.inj (hj.symm.trans hi))

theorem mem_set_of_ne {α : Type} {l : List α} {i : Nat} {x y z : α} (hi : l[i]? = some y) (hx : x ∈ l) (hne : x ≠ y) :
    x ∈ l.set i z := by
  obtain ⟨j, hj⟩ := List.mem_iff_getElem?.mp hx
  refine List.mem_of_getElem? (getElem?_set_other (fun h => ?_) hj)
  subst h
  exact hne (Option.some.inj (hj.symm.trans hi))

theorem mem_names {T : Type} {s : State T} {m : String} :
    m ∈ s.names ↔ .tell m ∈ s.evaluations ∨ ∃ id, .sending m id ∈ s.session.tells := by
  simp only [State.names, List.mem_append, List.mem_filterMap]
  refine or_congr ⟨?_, fun h => ⟨_, h, rfl⟩⟩ ⟨?_, fun ⟨id, h⟩ => ⟨_, h, rfl⟩⟩
  · rintro ⟨e, he, hm⟩
    cases e with
    | tell name => cases hm; exact he
    | _ => cases hm
  · rintro ⟨t, ht, hm⟩
    cases t with
    | sending name id => cases hm; exact ⟨id, ht⟩
    | detaching id => cases hm

/-! ## Steps of the session -/

section
variable {T : Type} [Ghostty T] {s s' : Session.State T} {a : Session.Label} {id : ClientId}

theorem foreground_of_step (hs : Session.step s a = some s') (ha : evaluates a = false) :
    s'.session.foreground = s.session.foreground := by
  cases a <;> simp only [Session.step] at hs
  all_goals grind [evaluates, PtySession.detach]

theorem attaching_of_step (hs : Session.step s a = some s') {att : Attaching} (h : s'.attaching = some att) :
    s.attaching = some att ∨ att.chan = Session.State.freshChannel s.session := by
  cases a <;> simp only [Session.step] at hs
  all_goals grind

inductive TellStep (s : Session.State T) (a : Session.Label) (s' : Session.State T) : Prop
  | same (h : s'.tells = s.tells)
  | sent (i : Nat) (n : String) (id : ClientId) (hi : s.tells[i]? = some (.sending n id)) (ha : a = .tellSend i)
      (h : s'.tells = s.tells.eraseIdx i)
  | failed (i : Nat) (n : String) (id : ClientId) (hi : s.tells[i]? = some (.sending n id))
      (h : s'.tells = s.tells.set i (.detaching id))
  | detached (i : Nat) (id : ClientId) (hi : s.tells[i]? = some (.detaching id)) (hslot : s'.slot ≠ some id)
      (h : s'.tells = s.tells.eraseIdx i)

theorem tells_of_step (hs : Session.step s a = some s') (ha : evaluates a = false) : TellStep s a s' := by
  cases a with
  | tellSend i =>
    simp only [Session.step, Session.State.tellSend] at hs
    split at hs
    · rename_i n id hi
      obtain ⟨s₁, hp, rfl⟩ := Option.map_eq_some_iff.mp hs
      obtain ⟨c, chan, -, -, rfl⟩ := push_some hp
      exact .sent i n id hi rfl rfl
    · cases hs
  | tellFail i =>
    simp only [Session.step, Session.State.tellFail] at hs
    split at hs
    · rename_i n id hi
      cases hs
      exact .failed i n id hi rfl
    · cases hs
  | tellDetach i =>
    simp only [Session.step, Session.State.tellDetach] at hs
    split at hs
    · rename_i id hi
      cases hs
      refine .detached i id hi ?_ rfl
      grind
    · cases hs
  | refresh name => cases ha
  | tell name => cases ha
  | _ =>
    refine .same ?_
    simp only [Session.step] at hs
    grind

end

theorem sends_foreground {T : Type} {s : Session.State T} {a : Session.Label} {id : ClientId} {n : String}
    (h : sends s a = some (id, .foreground n)) :
    ∃ i, a = .tellSend i ∧ s.tells[i]? = some (.sending n id) := by
  cases sends_cases h with
  | tell i _ ht => exact ⟨i, rfl, ht⟩

/-! ## The name on its way -/

/-- A name is still to be sent to the client, or the client is about to be detached. -/
def Coming {T : Type} (s : State T) (id : ClientId) (n : String) : Prop :=
  .tell n ∈ s.evaluations ∨ .sending n id ∈ s.session.tells ∨ .detaching id ∈ s.session.tells

structure Inv {T : Type} [Ghostty T] (s : State T) : Prop where
  names : ∀ m ∈ s.names, ∀ n, s.foreground = some n → m = n
  attached : ∀ id c n, s.session.slot = some id → s.session.clients id = some c → s.foreground = some n →
    lastForeground c.chan.log = some n ∨ Coming s id n
  attaching : ∀ a n, s.session.attaching = some a → s.foreground = some n →
    lastForeground a.chan.log = some n ∨ .tell n ∈ s.evaluations

section
variable {T : Type} [Ghostty T]

theorem inv_start (session : Session.State T) (hslot : session.slot = none) (hatt : session.attaching = none)
    (htells : session.tells = []) : Inv (State.start session) where
  names := by simp [State.names, State.start, htells]
  attached id c n h := by
    rw [State.start, hslot] at h
    cases h
  attaching a n h := by
    rw [State.start, hatt] at h
    cases h

/-- A step of the session that keeps the client in the slot. -/
theorem attached_session {s : State T} {s' : Session.State T} {a : Session.Label} (hi : Inv s)
    (hs : Session.step s.session a = some s')
    (ha : evaluates a = false) {id : ClientId} {c c' : Client} {n : String} (hslot : s.session.slot = some id)
    (hslot' : s'.slot = some id) (hc : s.session.clients id = some c)
    (hlog : c'.chan.log = c.chan.log ++ sentTo s.session a id)
    (hn : s.foreground = some n) :
    lastForeground c'.chan.log = some n ∨ Coming { s with session := s' } id n := by
  have hsent : lastForeground c.chan.log = some n → lastForeground c'.chan.log = some n := by
    intro hlast
    rw [hlog]
    obtain h | ⟨m, hm, h⟩ := sentTo_cases s.session a id
    · rw [h, List.append_nil]
      exact hlast
    · rw [h]
      cases m with
      | foreground n' =>
        obtain ⟨i, -, hti⟩ := sends_foreground hm
        rw [lastForeground_snoc, hi.names n' (mem_names.mpr (.inr ⟨id, List.mem_of_getElem? hti⟩)) n hn]
      | output bytes origin => exact (lastForeground_append rfl).trans hlast
      | exit code => exact (lastForeground_append rfl).trans hlast
  obtain hlast | he | ht | hd := hi.attached id c n hslot hc hn
  · exact .inl (hsent hlast)
  · exact .inr (.inl he)
  · cases tells_of_step hs ha with
    | same h => exact .inr (.inr (.inl (h ▸ ht)))
    | sent i m j hti ha h =>
      by_cases heq : (Tell.sending n id) = .sending m j
      · cases heq
        refine .inl ?_
        rw [hlog, sentTo_self (m := .foreground n) (by simp only [ha, sends, hti]), lastForeground_snoc]
      · exact .inr (.inr (.inl (h ▸ mem_eraseIdx_of_ne hti ht heq)))
    | failed i m j hti h =>
      by_cases heq : (Tell.sending n id) = .sending m j
      · cases heq
        refine .inr (.inr (.inr ?_))
        show _ ∈ s'.tells
        rw [h]
        exact List.mem_of_getElem? (getElem?_set_self_some hti)
      · exact .inr (.inr (.inl (h ▸ mem_set_of_ne hti ht heq)))
    | detached i j hti _ h => exact .inr (.inr (.inl (h ▸ mem_eraseIdx_of_ne hti ht (by simp))))
  · refine .inr (.inr (.inr ?_))
    cases tells_of_step hs ha with
    | same h => exact h ▸ hd
    | sent i m j hti ha h => exact h ▸ mem_eraseIdx_of_ne hti hd (by simp)
    | failed i m j hti h => exact h ▸ mem_set_of_ne hti hd (by simp)
    | detached i j hti hslot'' h =>
      have hj : id ≠ j := by
        rintro rfl
        exact hslot'' hslot'
      exact h ▸ mem_eraseIdx_of_ne hti hd (by simpa using hj)

theorem inv_session {s : State T} {s' : Session.State T} {a : Session.Label} (hi : Inv s)
    (hs : Session.step s.session a = some s')
    (ha : evaluates a = false) : Inv { s with session := s' } := by
  have hfg : State.foreground { s with session := s' } = s.foreground := foreground_of_step hs ha
  refine ⟨fun m hm => ?_, fun id c' n hslot hc' => ?_, fun att n hatt => ?_⟩
  · rw [hfg]
    refine hi.names m (mem_names.mpr ?_)
    obtain he | ⟨id, ht⟩ := mem_names.mp hm
    · exact .inl he
    · refine .inr ⟨id, ?_⟩
      cases tells_of_step hs ha with
      | same h => exact h ▸ ht
      | sent i m' j hti ha h => exact List.mem_of_mem_eraseIdx (h ▸ ht)
      | failed i m' j hti h => exact (List.mem_or_eq_of_mem_set (h ▸ ht)).resolve_right (by simp)
      | detached i j hti _ h => exact List.mem_of_mem_eraseIdx (h ▸ ht)
  · rw [hfg]
    intro hn
    by_cases hinst : a = .attachInstall
    · subst hinst
      obtain ⟨att, hatt, rfl⟩ := Option.map_eq_some_iff.mp hs
      obtain rfl : att.id = id := Option.some.inj hslot
      have hc' : some (Session.State.attached att _ _) = some c' := (if_pos rfl).symm.trans hc'
      cases hc'
      exact (hi.attaching att n hatt hn).imp_right .inl
    · have hslot₀ := (slot_new_of_step hs hslot).resolve_right fun ⟨att, h, _⟩ => hinst h
      obtain ⟨c, hc, hev⟩ := (client_of_step hs hc').resolve_right fun ⟨att, h, _⟩ => hinst h
      exact attached_session hi hs ha hslot₀ hslot hc hev.log hn
  · rw [hfg]
    intro hn
    obtain h | h := attaching_of_step hs hatt
    · exact hi.attaching att n h hn
    · rw [h]
      exact .inl (lastForeground_fresh hn)

/-! ## Steps of the evaluations -/

theorem inv_same {s s' : State T} (hi : Inv s) (hs : s'.session = s.session)
    (he : ∀ n, .tell n ∈ s'.evaluations ↔ .tell n ∈ s.evaluations) : Inv s' := by
  obtain ⟨session, pending, evaluations⟩ := s'
  subst hs
  refine ⟨fun m hm => hi.names m ?_, fun id c n hslot hc hn => ?_, fun att n hatt hn => ?_⟩
  · rw [mem_names] at hm ⊢
    exact hm.imp_left (he m).mp
  · exact (hi.attached id c n hslot hc hn).imp_right fun h => h.imp_left (he n).mpr
  · exact (hi.attaching att n hatt hn).imp_right (he n).mpr

theorem tell_mem_eraseIdx {l : List Evaluation} {i : Nat} {e : Evaluation} (hi : l[i]? = some e)
    (he : e.name? = none) (n : String) :
    .tell n ∈ l.eraseIdx i ↔ .tell n ∈ l := by
  refine ⟨List.mem_of_mem_eraseIdx, fun h => mem_eraseIdx_of_ne hi h ?_⟩
  rintro rfl
  cases he

theorem scheduleAgent_inv {s : State T} (hi : Inv s) : Inv s.scheduleAgent := by
  unfold State.scheduleAgent
  split
  · exact hi
  · exact inv_same hi rfl fun n => by simp

theorem check_inv {s s' : State T} {i : Nat} (h : s.check i = some s') (hi : Inv s) : Inv s' := by
  unfold State.check at h
  split at h
  · rename_i hsi
    cases h
    refine inv_same hi rfl fun n => ?_
    dsimp only
    split
    · exact tell_mem_eraseIdx hsi rfl n
    · refine ⟨fun h => (List.mem_or_eq_of_mem_set h).resolve_right (by simp), fun h => mem_set_of_ne hsi h (by simp)⟩
  · cases h

/-- A new name is stored: it is the only one to tell. -/
theorem refresh_inv {s s' : State T} {i : Nat} {name : Option String} (hg : InTurn s (.refresh i name))
    (h : s.refresh i name = some s') (hi : Inv s) : Inv s' := by
  unfold State.refresh at h
  split at h
  · rename_i hri
    split at h
    · cases h
      exact inv_same hi rfl (tell_mem_eraseIdx hri rfl)
    · rename_i hne
      cases h
      cases name with
      | none =>
        refine ⟨fun m hm n hn => ?_, fun id c n _ _ hn => ?_, fun att n _ hn => ?_⟩
        · cases hn
        · cases hn
        · cases hn
      | some name =>
        have hnames : ∀ m ∈ s.names, m = name := by
          obtain h | h | h := hg
          · cases h
          · exact absurd h.symm hne
          · exact fun m hm => (Option.some.inj (h m hm)).symm
        have htell : .tell name ∈ s.evaluations.set i (.tell name) :=
          List.mem_of_getElem? (getElem?_set_self_some hri)
        refine ⟨fun m hm n hn => ?_, fun id c n _ _ hn => ?_, fun att n _ hn => ?_⟩
        · cases hn
          obtain he | ht := mem_names.mp hm
          · obtain he | he := List.mem_or_eq_of_mem_set he
            · exact hnames m (mem_names.mpr (.inl he))
            · cases he
              rfl
          · exact hnames m (mem_names.mpr (.inr ht))
        · cases hn
          exact .inr (.inl htell)
        · cases hn
          exact .inr htell
  · cases h

/-- The client is looked up: it is the one in the slot, and an attach under way has the name. -/
theorem tell_inv {s s' : State T} {i : Nat} (hg : InTurn s (.tell i)) (h : s.tell i = some s') (hi : Inv s) :
    Inv s' := by
  unfold State.tell at h
  split at h
  · rename_i name hti
    have hg : ∀ att, s.session.attaching = some att → lastForeground att.chan.log = some name := by
      intro att hatt
      exact hg name (by rw [hti]; rfl) att hatt
    have hmem : .tell name ∈ s.evaluations := List.mem_of_getElem? hti
    -- an evaluation with another name stays
    have hother : ∀ n, .tell n ∈ s.evaluations → n = name ∨ .tell n ∈ s.evaluations.eraseIdx i := by
      intro n hn
      by_cases heq : n = name
      · exact .inl heq
      · exact .inr (mem_eraseIdx_of_ne hti hn (by simpa using heq))
    have hatt : ∀ (att : Attaching) (n : String), s.session.attaching = some att → s.foreground = some n →
        lastForeground att.chan.log = some n ∨ .tell n ∈ s.evaluations.eraseIdx i := by
      intro att n hatt hn
      obtain hl | he := hi.attaching att n hatt hn
      · exact .inl hl
      · obtain rfl | he := hother n he
        · exact .inl (hg att hatt)
        · exact .inr he
    cases hslot : s.session.slot with
    | none =>
      have hsession : (s.session.tell name).getD s.session = s.session := by simp [Session.State.tell, hslot]
      rw [hsession] at h
      cases h
      refine ⟨fun m hm => hi.names m ?_, fun id c n h => ?_, hatt⟩
      · rw [mem_names] at hm ⊢
        exact hm.imp_left List.mem_of_mem_eraseIdx
      · rw [hslot] at h
        cases h
    | some target =>
      have hsession : (s.session.tell name).getD s.session =
          { s.session with tells := s.session.tells ++ [.sending name target] } := by
        simp [Session.State.tell, hslot]
      rw [hsession] at h
      cases h
      refine ⟨fun m hm => ?_, fun id c n hs hc hn => ?_, hatt⟩
      · refine hi.names m (mem_names.mpr ?_)
        obtain he | ⟨id, ht⟩ := mem_names.mp hm
        · exact .inl (List.mem_of_mem_eraseIdx he)
        · obtain ht | ht := List.mem_append.mp ht
          · exact .inr ⟨id, ht⟩
          · cases List.mem_singleton.mp ht
            exact .inl hmem
      · obtain rfl : target = id := Option.some.inj (hslot.symm.trans hs)
        obtain hl | he | ht | hd := hi.attached target c n hslot hc hn
        · exact .inl hl
        · obtain rfl | he := hother n he
          · exact .inr (.inr (.inl (by simp)))
          · exact .inr (.inl he)
        · exact .inr (.inr (.inl (List.mem_append_left _ ht)))
        · exact .inr (.inr (.inr (List.mem_append_left _ hd)))
  · cases h

theorem inv_step {s s' : State T} {a : Label} (hg : InTurn s a) (h : step s a = some s') (hi : Inv s) : Inv s' := by
  cases a with
  | session a =>
    simp only [step] at h
    split at h
    · cases h
    · rename_i ha
      obtain ⟨s₁, hs, rfl⟩ := Option.map_eq_some_iff.mp h
      exact inv_session hi hs (by simpa using ha)
  | scheduleAgent =>
    cases h
    exact scheduleAgent_inv hi
  | check i => exact check_inv h hi
  | refresh i name => exact refresh_inv hg h hi
  | tell i => exact tell_inv hg h hi

/-- In a run in which names are stored in turn and no notice picks its client while an attach with
another name is under way, an attached client that has received everything has received the foreground
program's name last, once no evaluation is under way. -/
theorem foreground_told (p : PtySession T) (winsize : UInt16 × UInt16) (nextClientId holding : Nat) (tr : List Label)
    (s : State T)
    (h : exec step (State.start (Session.State.start p winsize nextClientId holding)) tr = some s)
    (hg : Meets step InTurn (State.start (Session.State.start p winsize nextClientId holding)) tr)
    (hevals : s.evaluations = []) (htells : s.session.tells = []) (id : ClientId) (c : Client)
    (hslot : s.session.slot = some id)
    (hc : s.session.clients id = some c) (hdrained : c.chan.queue = []) (n : String) (hn : s.foreground = some n) :
    lastForeground c.chan.taken = some n := by
  have hi : Inv s := exec_inv_of_meets (fun _ _ _ hg hs hi => inv_step hg hs hi) hg h (inv_start _ rfl rfl rfl)
  have hlog : c.chan.log = c.chan.taken := by rw [Channel.log, hdrained, List.append_nil]
  rw [← hlog]
  refine (hi.attached id c n hslot hc hn).resolve_right ?_
  rintro (he | ht | hd)
  · rw [hevals] at he
    cases he
  · rw [htells] at ht
    cases ht
  · rw [htells] at hd
    cases hd

end

def idleShell : State Echo := State.start (Session.State.start shell (80, 24) 0 1)

/-- The shell is seen before the client attaches, and then an editor. -/
def seenInTurn : List Label :=
  [.scheduleAgent, .check 0, .refresh 0 (some "zsh"), .tell 0, .session .drawId, .session (.attachLock 0 80 24 none),
    .session .attachInstall, .scheduleAgent, .check 0, .refresh 0 (some "vim"), .tell 0, .session (.tellSend 0),
    .session (.forward 0), .session (.forward 0)]

theorem foreground_told_in_turn : ∃ s c, exec step idleShell seenInTurn = some s ∧ s.session.clients 0 = some c ∧
    c.chan.taken = [.foreground "zsh", .foreground "vim"] ∧ lastForeground c.chan.taken = some "vim" :=
  ⟨_, _, rfl, rfl, rfl, foreground_told shell (80, 24) 0 1 seenInTurn _ rfl (by decide) rfl rfl 0 _ rfl rfl rfl "vim" rfl⟩

/-- A name that is stored and told while an attach has read the one before; and two names that are told
in the other order than they were stored. -/
theorem foreground_lost :
    (∃ s c, exec step idleShell [.session .drawId, .session (.attachLock 0 80 24 none), .scheduleAgent, .check 0,
        .refresh 0 (some "vim"), .tell 0, .session .attachInstall] = some s ∧ s.evaluations = [] ∧ s.session.tells = [] ∧
      s.session.slot = some 0 ∧ s.session.clients 0 = some c ∧ c.chan.queue = [] ∧ s.foreground = some "vim" ∧
      lastForeground c.chan.taken = none) ∧
    ∃ s c, exec step idleShell [.session .drawId, .session (.attachLock 0 80 24 none), .session .attachInstall, .scheduleAgent, .check 0,
        .refresh 0 (some "vim"), .scheduleAgent, .check 1, .refresh 1 (some "zsh"), .tell 1, .tell 0, .session (.tellSend 0),
        .session (.tellSend 0), .session (.forward 0), .session (.forward 0)] = some s ∧ s.evaluations = [] ∧ s.session.tells = [] ∧
      s.session.slot = some 0 ∧ s.session.clients 0 = some c ∧ c.chan.queue = [] ∧ s.foreground = some "zsh" ∧
      lastForeground c.chan.taken = some "vim" :=
  ⟨⟨_, _, rfl, rfl, rfl, rfl, rfl, rfl, rfl, rfl⟩, _, _, rfl, rfl, rfl, rfl, rfl, rfl, rfl, rfl⟩

end Mux.Foreground
