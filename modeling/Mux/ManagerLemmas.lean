import Mux.Manager

/-!
# What one step of a daemon can do

`cells_of_step` is the one case analysis of the step function: a step leaves the sessions
alone, adds new ones, or touches one in the way `Effect` lists. `Evolves` is what follows for
a session that is already there, and `timer_of_step` says where a timer comes from.
-/

namespace Mux.Manager

open Lib

/-! ## Cells and entries -/

namespace Table

section
variable {α : Type} {ptys : Table α} {name k : String} {a : α}

theorem get_insert (ptys : Table α) (name : String) (a : α) : Table.get (ptys.insert name a) name = some a :=
  AList.lookup_insert ptys

theorem get_insert_ne (h : k ≠ name) : Table.get (ptys.insert name a) k = ptys.get k := AList.lookup_insert_ne h

theorem get_erase (ptys : Table α) (name : String) : Table.get (ptys.erase name) name = none :=
  AList.lookup_erase name ptys

theorem get_erase_ne (h : k ≠ name) : Table.get (ptys.erase name) k = ptys.get k := AList.lookup_erase_ne h

theorem length_insert (h : ptys.get name = none) :
    (ptys.insert name a).entries.length = ptys.entries.length + 1 := by
  rw [AList.entries_insert_of_notMem (AList.lookup_eq_none.mp h), List.length_cons]

theorem length_erase_le (ptys : Table α) (name : String) : (ptys.erase name).entries.length ≤ ptys.entries.length :=
  (List.kerase_sublist name ptys.entries).length_le

theorem mem_entries {e : Sigma fun _ : String => α} : e ∈ ptys.entries ↔ ptys.get e.1 = some e.2 :=
  AList.mem_lookup_iff.symm

end

end Table

section
variable {T : Type} {s : State T} {r q : Nat} {c : Cell T}

theorem modify_cell {f : Cell T → Cell T} {c' : Cell T} (h : (s.modify r f).cells[q]? = some c') :
    ∃ c, s.cells[q]? = some c ∧ c' = if r = q then f c else c := by
  simp only [State.modify, List.getElem?_modify, Option.map_eq_map, Option.map_eq_some_iff] at h
  obtain ⟨c, hc, rfl⟩ := h
  exact ⟨c, hc, rfl⟩

theorem modify_self {f : Cell T → Cell T} (h : s.cells[r]? = some c) : (s.modify r f).cells[r]? = some (f c) := by
  simp [State.modify, h]

theorem modify_other {f : Cell T → Cell T} (hne : q ≠ r) : (s.modify r f).cells[q]? = s.cells[q]? := by
  simp [State.modify, Ne.symm hne]

theorem session_some {p : PtySession T} (h : s.session? r = some p) : ∃ c, s.cells[r]? = some c ∧ c.session = p := by
  simpa only [State.session?, Option.map_eq_some_iff] using h

theorem session_cell (h : s.cells[r]? = some c) : s.session? r = some c.session := by
  simp only [State.session?, h, Option.map_some]

theorem install_cell {name : String} {p : PtySession T} (h : (s.install name p).cells[q]? = some c) :
    s.cells[q]? = some c ∨ q = s.cells.length ∧ c = State.freshCell p := by
  simp only [State.install] at h
  rw [List.getElem?_append] at h
  split at h
  · exact Or.inl h
  · rename_i hlt
    have hlen := (List.getElem?_eq_some_iff.mp h).1
    rw [List.length_singleton] at hlen
    have hq : q = s.cells.length := by omega
    subst hq
    rw [Nat.sub_self] at h
    exact Or.inr ⟨rfl, (Option.some.inj h).symm⟩

theorem install_old {name : String} {p : PtySession T} (h : s.cells[q]? = some c) :
    (s.install name p).cells[q]? = some c := by
  simp only [State.install]
  rw [List.getElem?_append_left (List.getElem?_eq_some_iff.mp h).1]
  exact h

theorem scheduleClose_cells (d : Nat) : (s.scheduleClose r d).cells = s.cells := by
  unfold State.scheduleClose
  split <;> rfl

theorem scheduleClose_ptys (d : Nat) : (s.scheduleClose r d).ptys = s.ptys := by
  unfold State.scheduleClose
  split <;> rfl

theorem extend_cons (e : Sigma fun _ : String => PtySession T) (staged : List (Sigma fun _ : String => PtySession T)) :
    s.extend (e :: staged) = (s.install e.1 e.2).extend staged := rfl

theorem due_some {t : Timer} (h : s.due t = some r) :
    s.ptys.get t.name = some r ∧
      ∃ c, s.cells[r]? = some c ∧ c.session.generation = t.generation ∧ c.session.closeDeadline = some t.deadline := by
  simp only [State.due, Option.bind_eq_some_iff] at h
  obtain ⟨q, hq, p, hp, h⟩ := h
  split at h
  · rename_i hd
    cases h
    obtain ⟨c, hc, rfl⟩ := session_some hp
    exact ⟨hq, c, hc, hd.1, hd.2⟩
  · cases h

end

/-! ## Requests -/

theorem insertLocked_ok {α : Type} {ptys ptys' : Table α} {name : String} {a : α}
    (h : insertLocked ptys name a = .ok ptys') :
    ptys.get name = none ∧ ptys.entries.length < maxPtys ∧ ptys' = ptys.insert name a := by
  unfold insertLocked at h
  split at h
  · cases h
  · rename_i hsome
    split at h
    · cases h
    · rename_i hlen
      cases h
      exact ⟨Option.not_isSome_iff_eq_none.mp hsome, Nat.lt_of_not_le hlen, rfl⟩

section
variable {T : Type} [Ghostty T] {s s' : State T}

theorem openTerm_cases (s : State T) (name : String) (command : List String) (cols rows : UInt16)
    (spawned : Except String (PtyId × Pid)) (generation : Generation) :
    (s.openTerm name command cols rows spawned generation).2 = s ∨
      ∃ terminal master child, s.ptys.get name = none ∧ s.ptys.entries.length < maxPtys ∧ spawned = .ok (master, child) ∧
        s.openTerm name command cols rows spawned generation =
          (.ok (s.cells.length, true),
            s.install name (newSession generation name command terminal master child false)) := by
  unfold State.openTerm
  split
  · split
    · exact Or.inl rfl
    · exact Or.inl rfl
  · rename_i hnone
    split
    · exact Or.inl rfl
    · rename_i hlen
      split
      · exact Or.inl rfl
      · rename_i master child
        split
        · exact Or.inl rfl
        · rename_i terminal _
          split
          · exact Or.inl rfl
          · exact Or.inr ⟨terminal, master, child, hnone, Nat.lt_of_not_le hlen, rfl, rfl⟩

theorem adoptMany_cases (s : State T) (incoming : List Incoming) :
    (∃ e, s.adoptMany incoming = (.error e, s)) ∨
      ∃ staged : Table (PtySession T), State.stage incoming ∅ = .ok staged ∧
        s.ptys.entries.length + staged.entries.length ≤ maxPtys ∧ (∀ k ∈ staged.keys, s.ptys.get k = none) ∧
        s.adoptMany incoming = (.ok (), s.extend staged.entries) := by
  unfold State.adoptMany
  split
  · exact Or.inl ⟨_, rfl⟩
  · rename_i staged hstage
    split
    · exact Or.inl ⟨_, rfl⟩
    · rename_i hlen
      split
      · exact Or.inl ⟨_, rfl⟩
      · rename_i hfind
        refine Or.inr ⟨staged, hstage, Nat.le_of_not_lt hlen, fun k hk => ?_, rfl⟩
        exact Option.not_isSome_iff_eq_none.mp (List.find?_eq_none.mp hfind k hk)

/-- The first session is staged under a name that was free, and the rest after it. -/
theorem stage_cons {i : Incoming} {rest : List Incoming} {staged staged' : Table (PtySession T)}
    (h : State.stage (i :: rest) staged = .ok staged') :
    ∃ terminal, staged.get i.pty.name = none ∧
      State.stage rest (staged.insert i.pty.name (adoptedSession i terminal)) = .ok staged' := by
  unfold State.stage at h
  split at h
  · cases h
  split at h
  · cases h
  rename_i terminal _
  split at h
  · cases h
  split at h
  · cases h
  rename_i hins
  obtain ⟨hnew, _, rfl⟩ := insertLocked_ok hins
  exact ⟨terminal, hnew, h⟩

theorem stage_get : ∀ {incoming : List Incoming} {staged staged' : Table (PtySession T)},
    State.stage incoming staged = .ok staged' → ∀ {k p}, staged'.get k = some p →
      staged.get k = some p ∨ ∃ i ∈ incoming, ∃ terminal, k = i.pty.name ∧ p = adoptedSession i terminal
  | [], staged, staged', h, k, p, hk => by
    cases h
    exact Or.inl hk
  | i :: rest, staged, staged', h, k, p, hk => by
    obtain ⟨terminal, _, h⟩ := stage_cons h
    rcases stage_get h hk with hk | ⟨j, hj, hp⟩
    · by_cases he : k = i.pty.name
      · subst he
        rw [Table.get_insert] at hk
        exact Or.inr ⟨i, List.mem_cons_self .., terminal, rfl, (Option.some.inj hk).symm⟩
      · rw [Table.get_insert_ne he] at hk
        exact Or.inl hk
    · exact Or.inr ⟨j, List.mem_cons_of_mem _ hj, hp⟩

theorem stage_complete : ∀ {incoming : List Incoming} {staged staged' : Table (PtySession T)},
    State.stage incoming staged = .ok staged' →
      (∀ k p, staged.get k = some p → staged'.get k = some p) ∧
      ∀ i ∈ incoming, ∃ terminal, staged'.get i.pty.name = some (adoptedSession i terminal)
  | [], staged, staged', h => by
    cases h
    exact ⟨fun _ _ hk => hk, nofun⟩
  | i :: rest, staged, staged', h => by
    obtain ⟨terminal, hnew, h⟩ := stage_cons h
    obtain ⟨hold, hall⟩ := stage_complete h
    refine ⟨fun k p hk => hold k p ?_, fun j hj => ?_⟩
    · have hne : k ≠ i.pty.name := by
        rintro rfl
        rw [hnew] at hk
        cases hk
      rw [Table.get_insert_ne hne]
      exact hk
    · rcases List.mem_cons.mp hj with rfl | hj
      · exact ⟨terminal, hold _ _ (Table.get_insert ..)⟩
      · exact hall j hj

theorem stage_generations : ∀ {incoming : List Incoming} {staged staged' : Table (PtySession T)},
    State.stage incoming staged = .ok staged' →
      staged'.entries.map (fun e => e.2.generation) =
        (incoming.map (·.generation)).reverse ++ staged.entries.map fun e => e.2.generation
  | [], staged, staged', h => by
    cases h
    rfl
  | i :: rest, staged, staged', h => by
    obtain ⟨terminal, hnew, h⟩ := stage_cons h
    rw [stage_generations h, AList.entries_insert_of_notMem (AList.lookup_eq_none.mp hnew)]
    simp [adoptedSession, newSession]

end

/-! ## What happens to a session -/

def generations {T : Type} (s : State T) : List Generation := s.cells.map (·.session.generation)

def Label.draws : Label → List Generation
  | .openTerm _ _ _ _ _ generation => [generation]
  | .adoptMany incoming => incoming.map (·.generation)
  | _ => []

def Label.fed (r : Ref) : Label → List Bytes
  | .read q chunk => if q = r then [chunk] else []
  | _ => []

/-- The one session a label touches, what it finds there and what it makes of it. -/
inductive Effect {T : Type} [Ghostty T] (s : State T) : Label → Ref → (Cell T → Cell T) → Prop where
  | kill {name : String} {r : Ref} (hr : s.ptys.get name = some r) : Effect s (.kill name) r fun c =>
      { c with killing := true, removal := c.removal <|> some .killed }
  | expire {i : Nat} {t : Timer} {r : Ref} (ht : s.timers[i]? = some t) (hd : s.due t = some r) :
      Effect s (.timerFire i) r fun c => { c with killing := true, removal := c.removal <|> some .expired }
  | close {name : String} {retention : Nat} {r : Ref} {c₀ : Cell T} (hr : s.ptys.get name = some r)
      (hc : s.cells[r]? = some c₀) : Effect s (.closeFor name retention) r fun c =>
      { c with session := { c.session with closeDeadline := some (s.expires c₀.session retention) } }
  | reopen {name : String} {r : Ref} (hr : s.ptys.get name = some r)
      (hlate : ((s.session? r).bind (·.closeDeadline)).any (· ≤ s.unixMillis) = false) : Effect s (.reopen name) r fun c =>
      { c with session := { c.session with closeDeadline := none } }
  | startLoop {r : Ref} : Effect s (.startLoop r) r fun c => { c with loop := .reading }
  | armClose {r : Ref} : Effect s (.armClose r) r fun c => { c with arming := false }
  | killSession {r : Ref} {c₀ : Cell T} (hc : s.cells[r]? = some c₀) (hk : c₀.killing = true) :
      Effect s (.killSession r) r fun c =>
        { c with killing := false, session := { c.session with client := none, exited := true } }
  | read {r : Ref} {chunk : Bytes} : Effect s (.read r chunk) r fun c => { c with session := c.session.feed chunk }
  | eof {r : Ref} : Effect s (.eof r) r fun c => { c with loop := .waiting }
  | reapMark {r : Ref} : Effect s (.reapMark r) r fun c =>
      { c with loop := .marked, session := { c.session with exited := true }.changed }
  | reapRemove {r : Ref} {c₀ : Cell T} (hc : s.cells[r]? = some c₀) (hm : c₀.loop = .marked) :
      Effect s (.reapRemove r) r fun c => { c with loop := .done, removal := c.removal <|> some .reaped }

section
variable {T : Type}

theorem extend_cells : ∀ (staged : List (Sigma fun _ : String => PtySession T)) (s : State T),
    (s.extend staged).cells = s.cells ++ staged.map fun e => State.freshCell e.2
  | [], s => by rw [List.map_nil, List.append_nil]; rfl
  | e :: staged, s => by
    rw [extend_cons, extend_cells staged, State.install, List.append_assoc]
    rfl

theorem extend_timers : ∀ (staged : List (Sigma fun _ : String => PtySession T)) (s : State T),
    (s.extend staged).timers = s.timers
  | [], _ => rfl
  | e :: staged, s => by
    rw [extend_cons, extend_timers staged]
    rfl

variable [Ghostty T] {s s' : State T} {a : Label}

/-- A step leaves the sessions alone, touches one, or adds new ones. -/
theorem cells_of_step (hs : step s a = some s') :
    (s'.cells = s.cells ∧ ∀ r, a.fed r = []) ∨ (∃ r f, Effect s a r f ∧ s'.cells = (s.modify r f).cells) ∨
      ∃ new : List (PtySession T), s'.cells = s.cells ++ new.map State.freshCell ∧
        new.map (·.generation) = a.draws.reverse ∧ (∀ r, a.fed r = []) ∧
        ∀ p ∈ new, p.adopted = false → p.closeDeadline = none := by
  cases a with
  | openTerm name command cols rows spawned generation =>
    cases hs
    rcases openTerm_cases s name command cols rows spawned generation with heq | ⟨_, _, _, _, _, _, heq⟩
    · rw [heq]; exact Or.inl ⟨rfl, fun _ => rfl⟩
    · rw [heq]
      refine Or.inr (Or.inr ⟨[_], rfl, rfl, fun _ => rfl, fun p hp _ => ?_⟩)
      rw [List.mem_singleton.mp hp]
      rfl
  | adoptMany incoming =>
    cases hs
    rcases adoptMany_cases s incoming with ⟨e, heq⟩ | ⟨staged, hstage, _, _, heq⟩
    · rw [heq]; exact Or.inl ⟨rfl, fun _ => rfl⟩
    · rw [heq]
      have hgens := stage_generations hstage
      rw [AList.empty_entries, List.map_nil, List.append_nil] at hgens
      refine Or.inr (Or.inr ⟨staged.entries.map (·.2), ?_, ?_, fun _ => rfl, fun p hp hown => ?_⟩)
      · rw [extend_cells, List.map_map]; rfl
      · rw [List.map_map, Label.draws, ← hgens]; rfl
      · obtain ⟨e, he, rfl⟩ := List.mem_map.mp hp
        rcases stage_get hstage (Table.mem_entries.mp he) with hk | ⟨i, _, terminal, _, hi⟩
        · cases hk
        · rw [hi] at hown
          cases hown
  | get name =>
    obtain ⟨q, _, rfl⟩ := Option.map_eq_some_iff.mp hs
    exact Or.inl ⟨rfl, fun _ => rfl⟩
  | checkExisting i =>
    simp only [step, Option.ite_none_right_eq_some, Option.some.injEq] at hs
    obtain ⟨_, rfl⟩ := hs
    exact Or.inl ⟨rfl, fun _ => rfl⟩
  | kill name =>
    cases hs
    unfold State.kill
    split
    · rename_i r hr
      exact Or.inr (Or.inl ⟨r, _, .kill hr, rfl⟩)
    · exact Or.inl ⟨rfl, fun _ => rfl⟩
  | closeFor name retention =>
    cases hs
    unfold State.closeFor
    split
    · rename_i r hr
      split
      · rename_i p hp
        obtain ⟨c, hc, rfl⟩ := session_some hp
        exact Or.inr (Or.inl ⟨r, _, .close hr hc, scheduleClose_cells _⟩)
      · exact Or.inl ⟨rfl, fun _ => rfl⟩
    · exact Or.inl ⟨rfl, fun _ => rfl⟩
  | reopen name =>
    cases hs
    unfold State.reopen
    split
    · rename_i r hr
      split
      · exact Or.inl ⟨rfl, fun _ => rfl⟩
      · rename_i hlate
        exact Or.inr (Or.inl ⟨r, _, .reopen hr (Bool.eq_false_iff.mpr hlate), rfl⟩)
    · exact Or.inl ⟨rfl, fun _ => rfl⟩
  | armClose r =>
    obtain ⟨c, _, hs⟩ := Option.bind_eq_some_iff.mp hs
    split at hs
    · cases hs
      split
      · exact Or.inr (Or.inl ⟨r, _, .armClose, scheduleClose_cells _⟩)
      · exact Or.inr (Or.inl ⟨r, _, .armClose, rfl⟩)
    · cases hs
  | timerSleep i =>
    obtain ⟨t, _, hs⟩ := Option.bind_eq_some_iff.mp hs
    split at hs
    · cases hs; exact Or.inl ⟨rfl, fun _ => rfl⟩
    · cases hs
  | timerFire i =>
    obtain ⟨t, ht, hs⟩ := Option.bind_eq_some_iff.mp hs
    split at hs
    · cases hs
      split
      · rename_i r hr
        exact Or.inr (Or.inl ⟨r, _, .expire ht hr, rfl⟩)
      · exact Or.inl ⟨rfl, fun _ => rfl⟩
    · cases hs
  | tick ms => cases hs; exact Or.inl ⟨rfl, fun _ => rfl⟩
  | startLoop r =>
    obtain ⟨c, _, hs⟩ := Option.bind_eq_some_iff.mp hs
    split at hs
    · cases hs; exact Or.inr (Or.inl ⟨r, _, .startLoop, rfl⟩)
    · cases hs
  | killSession r =>
    obtain ⟨c, hc, hs⟩ := Option.bind_eq_some_iff.mp hs
    split at hs
    · rename_i hk
      cases hs; exact Or.inr (Or.inl ⟨r, _, .killSession hc hk, rfl⟩)
    · cases hs
  | read r chunk =>
    obtain ⟨c, _, hs⟩ := Option.bind_eq_some_iff.mp hs
    split at hs
    · cases hs; exact Or.inr (Or.inl ⟨r, _, .read, rfl⟩)
    · cases hs
  | eof r =>
    obtain ⟨c, _, hs⟩ := Option.bind_eq_some_iff.mp hs
    split at hs
    · cases hs; exact Or.inr (Or.inl ⟨r, _, .eof, rfl⟩)
    · cases hs
  | reapMark r =>
    obtain ⟨c, _, hs⟩ := Option.bind_eq_some_iff.mp hs
    split at hs
    · cases hs; exact Or.inr (Or.inl ⟨r, _, .reapMark, rfl⟩)
    · cases hs
  | reapRemove r =>
    obtain ⟨c, hc, hs⟩ := Option.bind_eq_some_iff.mp hs
    split at hs
    · rename_i hm
      cases hs; exact Or.inr (Or.inl ⟨r, _, .reapRemove hc hm, rfl⟩)
    · cases hs

end

/-- What a session keeps for its whole life. -/
def ident {T : Type} (p : PtySession T) := (p.name, p.generation, p.command, p.master, p.child, p.adopted)

theorem name_of_ident {T : Type} {p q : PtySession T} (h : ident p = ident q) : p.name = q.name := congrArg (·.1) h

theorem generation_of_ident {T : Type} {p q : PtySession T} (h : ident p = ident q) : p.generation = q.generation :=
  congrArg (·.2.1) h

theorem adopted_of_ident {T : Type} {p q : PtySession T} (h : ident p = ident q) : p.adopted = q.adopted :=
  congrArg (·.2.2.2.2.2) h

structure Evolves {T : Type} [Ghostty T] (s : State T) (a : Label) (r : Ref) (c c' : Cell T) : Prop where
  ident : ident c'.session = ident c.session
  terminal : c'.session.terminal = (a.fed r).foldl Terminal.feed c.session.terminal
  deadline : c'.session.closeDeadline = c.session.closeDeadline ∨
    (∃ name retention, a = .closeFor name retention ∧ s.ptys.get name = some r ∧
      c'.session.closeDeadline = some (s.expires c.session retention)) ∨
    (∃ name, a = .reopen name ∧ s.ptys.get name = some r ∧ c'.session.closeDeadline = none ∧
      c.session.closeDeadline.any (· ≤ s.unixMillis) = false)
  exited : c'.session.exited = c.session.exited ∨ (a = .killSession r ∧ c.killing = true) ∨ a = .reapMark r
  removal : c'.removal = c.removal ∨ (∃ name, a = .kill name ∧ s.ptys.get name = some r) ∨
    (∃ i t, a = .timerFire i ∧ s.timers[i]? = some t ∧ s.due t = some r) ∨ (a = .reapRemove r ∧ c.loop = .marked)
  gone : c.removal ≠ none → c'.removal ≠ none
  dead : c.session.exited = true → c'.session.exited = true

/-- Only a session that has exited is about to be removed by its reaper, and only a removed
one is about to be terminated. -/
structure CellOk {T : Type} (c : Cell T) : Prop where
  marked : c.loop = .marked → c.session.exited = true
  killing : c.killing = true → c.removal ≠ none

section
variable {T : Type} [Ghostty T] {s s' : State T} {a : Label} {r q : Nat} {c : Cell T} {f : Cell T → Cell T}

/-- Only a close of a session without a deadline moves it, and a reopen before it. -/
theorem Evolves.deadline_kept {c' : Cell T} (he : Evolves s a r c c')
    (hclose : ∀ name retention, a = .closeFor name retention → s.ptys.get name = some r →
      c.session.closeDeadline ≠ none)
    (hreopen : ∀ name d, a = .reopen name → s.ptys.get name = some r → c.session.closeDeadline = some d →
      ¬ s.unixMillis < d) :
    c'.session.closeDeadline = c.session.closeDeadline := by
  rcases he.deadline with heq | ⟨name, retention, ha, hget, heq⟩ | ⟨name, ha, hget, heq, hlate⟩
  · exact heq
  · cases hcd : c.session.closeDeadline with
    | none => exact absurd hcd (hclose name retention ha hget)
    | some d =>
      rw [heq, State.expires, hcd]
      rfl
  · cases hcd : c.session.closeDeadline with
    | none => exact heq
    | some d =>
      rw [hcd, Option.any_some, decide_eq_false_iff_not, Nat.not_le] at hlate
      exact absurd hlate (hreopen name d ha hget hcd)

theorem gone_orElse (why : Removal) {o : Option Removal} (h : o ≠ none) : (o <|> some why) ≠ none := by
  cases o with
  | none => exact absurd rfl h
  | some _ => nofun

theorem some_orElse (why : Removal) (o : Option Removal) : (o <|> some why) ≠ none := by
  cases o <;> nofun

namespace Effect

theorem evolves (h : Effect s a r f) (hc : s.cells[r]? = some c) : Evolves s a r c (f c) := by
  cases h with
  | kill hr => exact ⟨rfl, rfl, Or.inl rfl, Or.inl rfl, Or.inr (Or.inl ⟨_, rfl, hr⟩), gone_orElse _, id⟩
  | expire ht hd =>
    exact ⟨rfl, rfl, Or.inl rfl, Or.inl rfl, Or.inr (Or.inr (Or.inl ⟨_, _, rfl, ht, hd⟩)), gone_orElse _, id⟩
  | close hr hc₀ =>
    rw [hc] at hc₀
    cases hc₀
    exact ⟨rfl, rfl, Or.inr (Or.inl ⟨_, _, rfl, hr, rfl⟩), Or.inl rfl, Or.inl rfl, id, id⟩
  | reopen hr hlate =>
    rw [session_cell hc, Option.bind_some] at hlate
    exact ⟨rfl, rfl, Or.inr (Or.inr ⟨_, rfl, hr, rfl, hlate⟩), Or.inl rfl, Or.inl rfl, id, id⟩
  | startLoop => exact ⟨rfl, rfl, Or.inl rfl, Or.inl rfl, Or.inl rfl, id, id⟩
  | armClose => exact ⟨rfl, rfl, Or.inl rfl, Or.inl rfl, Or.inl rfl, id, id⟩
  | killSession hc₀ hk =>
    rw [hc] at hc₀
    cases hc₀
    exact ⟨rfl, rfl, Or.inl rfl, Or.inr (Or.inl ⟨rfl, hk⟩), Or.inl rfl, id, fun _ => rfl⟩
  | read =>
    refine ⟨rfl, ?_, Or.inl rfl, Or.inl rfl, Or.inl rfl, id, id⟩
    rw [Label.fed, if_pos rfl]
    rfl
  | eof => exact ⟨rfl, rfl, Or.inl rfl, Or.inl rfl, Or.inl rfl, id, id⟩
  | reapMark => exact ⟨rfl, rfl, Or.inl rfl, Or.inr (Or.inr rfl), Or.inl rfl, id, fun _ => rfl⟩
  | reapRemove hc₀ hm =>
    rw [hc] at hc₀
    cases hc₀
    exact ⟨rfl, rfl, Or.inl rfl, Or.inl rfl, Or.inr (Or.inr (Or.inr ⟨rfl, hm⟩)), gone_orElse _, id⟩

theorem cellOk (h : Effect s a r f) (hc : CellOk c) : CellOk (f c) := by
  cases h with
  | kill hr => exact ⟨hc.marked, fun _ => some_orElse _ _⟩
  | expire ht hd => exact ⟨hc.marked, fun _ => some_orElse _ _⟩
  | close hr hc₀ => exact ⟨hc.marked, hc.killing⟩
  | reopen hr hlate => exact ⟨hc.marked, hc.killing⟩
  | startLoop => exact ⟨nofun, hc.killing⟩
  | armClose => exact ⟨hc.marked, hc.killing⟩
  | killSession hc₀ hk => exact ⟨fun _ => rfl, nofun⟩
  | read => exact ⟨hc.marked, hc.killing⟩
  | eof => exact ⟨nofun, hc.killing⟩
  | reapMark => exact ⟨fun _ => rfl, hc.killing⟩
  | reapRemove hc₀ hm => exact ⟨nofun, fun hk => gone_orElse _ (hc.killing hk)⟩

theorem fed_other (h : Effect s a r f) (hne : q ≠ r) : a.fed q = [] := by
  cases h with
  | read => exact if_neg (Ne.symm hne)
  | _ => rfl

end Effect

theorem evolves_refl (hf : a.fed r = []) : Evolves s a r c c :=
  ⟨rfl, by rw [hf]; rfl, Or.inl rfl, Or.inl rfl, Or.inl rfl, id, id⟩

theorem evolves_of_step (hs : step s a = some s') (hc : s.cells[r]? = some c) :
    ∃ c', s'.cells[r]? = some c' ∧ Evolves s a r c c' := by
  rcases cells_of_step hs with ⟨hcells, hf⟩ | ⟨q, f, he, hcells⟩ | ⟨new, hcells, _, hf, _⟩
  · exact ⟨c, hcells ▸ hc, evolves_refl (hf r)⟩
  · by_cases hq : r = q
    · subst hq
      exact ⟨f c, by rw [hcells, modify_self hc], he.evolves hc⟩
    · exact ⟨c, by rw [hcells, modify_other hq, hc], evolves_refl (he.fed_other hq)⟩
  · refine ⟨c, ?_, evolves_refl (hf r)⟩
    rw [hcells, List.getElem?_append_left (List.getElem?_eq_some_iff.mp hc).1]
    exact hc

omit [Ghostty T] in
theorem generations_modify (hcells : s'.cells = (s.modify r f).cells)
    (hf : ∀ c, s.cells[r]? = some c → (f c).session.generation = c.session.generation) :
    generations s' = generations s := by
  unfold generations
  rw [hcells]
  refine List.ext_getElem? fun i => ?_
  rw [List.getElem?_map, List.getElem?_map]
  by_cases he : i = r
  · subst he
    cases hc : s.cells[i]? with
    | none => simp [State.modify, hc]
    | some c => rw [modify_self hc, Option.map_some, Option.map_some, hf c hc]
  · rw [modify_other he]

theorem generations_of_step (hs : step s a = some s') :
    generations s' = generations s ∨ generations s' = generations s ++ a.draws.reverse := by
  rcases cells_of_step hs with ⟨hcells, _⟩ | ⟨r, f, he, hcells⟩ | ⟨new, hcells, hgens, _⟩
  · exact Or.inl (by rw [generations, hcells]; rfl)
  · exact Or.inl (generations_modify hcells fun c hc => generation_of_ident (he.evolves hc).ident)
  · refine Or.inr ?_
    rw [generations, hcells, List.map_append, List.map_map, ← hgens]
    rfl

theorem old_of_step (hs : step s a = some s') (hn : a.draws = []) (h : s'.cells[r]? = some c) :
    ∃ c₀, s.cells[r]? = some c₀ := by
  have hlen : s'.cells.length = s.cells.length := by
    have hgens : generations s' = generations s := by
      rcases generations_of_step hs with heq | heq
      · exact heq
      · rw [heq, hn, List.reverse_nil, List.append_nil]
    have := congrArg List.length hgens
    rwa [generations, generations, List.length_map, List.length_map] at this
  have hlt : r < s.cells.length := hlen ▸ (List.getElem?_eq_some_iff.mp h).1
  exact ⟨_, List.getElem?_eq_getElem hlt⟩

theorem cellOk_step (hs : step s a = some s') (hi : ∀ c ∈ s.cells, CellOk c) : ∀ c ∈ s'.cells, CellOk c := by
  intro c' hc'
  rcases cells_of_step hs with ⟨hcells, _⟩ | ⟨r, f, he, hcells⟩ | ⟨new, hcells, _, _⟩
  · exact hi c' (hcells ▸ hc')
  · rw [hcells] at hc'
    obtain ⟨i, hc'⟩ := List.getElem?_of_mem hc'
    obtain ⟨c, hc, rfl⟩ := modify_cell hc'
    have hok := hi c (List.mem_of_getElem? hc)
    split
    · exact he.cellOk hok
    · exact hok
  · rw [hcells] at hc'
    rcases List.mem_append.mp hc' with hc' | hc'
    · exact hi c' hc'
    · obtain ⟨p, _, rfl⟩ := List.mem_map.mp hc'
      exact ⟨nofun, nofun⟩

/-! ## Timers -/

omit [Ghostty T] in
theorem mem_scheduleClose {t : Timer} {d : Nat} (h : t ∈ (s.scheduleClose r d).timers) :
    t ∈ s.timers ∨ ∃ c, s.cells[r]? = some c ∧ t = ⟨r, c.session.name, c.session.generation, d, none⟩ := by
  unfold State.scheduleClose at h
  split at h
  · rename_i p hp
    obtain ⟨c, hc, rfl⟩ := session_some hp
    rcases List.mem_append.mp h with h | h
    · exact Or.inl h
    · exact Or.inr ⟨c, hc, List.mem_singleton.mp h⟩
  · exact Or.inl h

/-- Where a timer comes from: it was there, it has just gone to sleep until its deadline at
the earliest, or it was armed for a session with the deadline that session has now. -/
theorem timer_of_step (hs : step s a = some s') {t' : Timer} (ht' : t' ∈ s'.timers) :
    t' ∈ s.timers ∨ (∃ t ∈ s.timers, t.wakeAt = none ∧
      t' = { t with wakeAt := some (s.clock + (t.deadline - s.unixMillis)) }) ∨
      ∃ r c', s'.cells[r]? = some c' ∧ c'.session.closeDeadline = some t'.deadline ∧
        t' = ⟨r, c'.session.name, c'.session.generation, t'.deadline, none⟩ := by
  cases a with
  | openTerm name command cols rows spawned generation =>
    cases hs
    rcases openTerm_cases s name command cols rows spawned generation with heq | ⟨_, _, _, _, _, _, heq⟩
    · rw [heq] at ht'; exact Or.inl ht'
    · rw [heq] at ht'; exact Or.inl ht'
  | get name =>
    obtain ⟨q, _, rfl⟩ := Option.map_eq_some_iff.mp hs
    exact Or.inl ht'
  | checkExisting i =>
    simp only [step, Option.ite_none_right_eq_some, Option.some.injEq] at hs
    obtain ⟨_, rfl⟩ := hs
    exact Or.inl ht'
  | kill name =>
    cases hs
    unfold State.kill at ht'
    split at ht'
    · exact Or.inl ht'
    · exact Or.inl ht'
  | closeFor name retention =>
    cases hs
    unfold State.closeFor at ht' ⊢
    split at ht'
    · rename_i q hq
      split at ht'
      · rename_i p hp
        rcases mem_scheduleClose ht' with ht' | ⟨c, hc, rfl⟩
        · exact Or.inl ht'
        · refine Or.inr (Or.inr ⟨q, c, ?_, ?_, rfl⟩)
          · rw [scheduleClose_cells]
            exact hc
          · obtain ⟨d, hd, rfl⟩ := modify_cell hc
            rw [if_pos rfl]
      · exact Or.inl ht'
    · exact Or.inl ht'
  | reopen name =>
    cases hs
    unfold State.reopen at ht'
    split at ht'
    · split at ht'
      · exact Or.inl ht'
      · exact Or.inl ht'
    · exact Or.inl ht'
  | adoptMany incoming =>
    cases hs
    rcases adoptMany_cases s incoming with ⟨e, heq⟩ | ⟨staged, _, _, _, heq⟩
    · rw [heq] at ht'; exact Or.inl ht'
    · rw [heq, extend_timers] at ht'
      exact Or.inl ht'
  | armClose q =>
    obtain ⟨d, hd, hs⟩ := Option.bind_eq_some_iff.mp hs
    split at hs
    · cases hs
      split at ht'
      · rename_i deadline hdl
        rcases mem_scheduleClose ht' with ht' | ⟨c, hc, rfl⟩
        · exact Or.inl ht'
        · refine Or.inr (Or.inr ⟨q, c, ?_, ?_, rfl⟩)
          · rw [scheduleClose_cells]
            exact hc
          · rw [modify_self hd] at hc
            cases hc
            exact hdl
      · exact Or.inl ht'
    · cases hs
  | timerSleep i =>
    obtain ⟨t, ht, hs⟩ := Option.bind_eq_some_iff.mp hs
    split at hs
    · rename_i hw
      cases hs
      rcases List.mem_or_eq_of_mem_set ht' with ht' | rfl
      · exact Or.inl ht'
      · exact Or.inr (Or.inl ⟨t, List.mem_of_getElem? ht, hw, rfl⟩)
    · cases hs
  | timerFire i =>
    obtain ⟨t, ht, hs⟩ := Option.bind_eq_some_iff.mp hs
    split at hs
    · cases hs
      split at ht'
      · exact Or.inl (List.mem_of_mem_eraseIdx ht')
      · exact Or.inl (List.mem_of_mem_eraseIdx ht')
    · cases hs
  | tick ms => cases hs; exact Or.inl ht'
  | startLoop q | killSession q | read q chunk | eof q | reapMark q | reapRemove q =>
    obtain ⟨d, _, hs⟩ := Option.bind_eq_some_iff.mp hs
    split at hs
    · cases hs; exact Or.inl ht'
    · cases hs

end

end Mux.Manager
