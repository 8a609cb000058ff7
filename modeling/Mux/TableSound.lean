import Mux.ManagerLemmas

/-!
# The session table

Every entry is under its session's own name, there are at most `maxPtys` of them, and a
session that nothing has removed is reachable by its name. The reaper removes its own
session only, and so does a close timer as long as no generation is drawn twice.
-/

namespace Mux.Manager

open Lib

structure TableInv {T : Type} (s : State T) : Prop where
  bounded : s.ptys.entries.length ≤ maxPtys
  key : ∀ k r, s.ptys.get k = some r → ∃ c, s.cells[r]? = some c ∧ c.session.name = k ∧ c.removal = none
  live : ∀ r c, s.cells[r]? = some c → c.removal = none → s.ptys.get c.session.name = some r

namespace TableInv

section
variable {T : Type} {s s' : State T} {r : Ref}

theorem congr (h : TableInv s) (hc : s'.cells = s.cells) (hp : s'.ptys = s.ptys) : TableInv s' :=
  ⟨by rw [hp]; exact h.bounded, by rw [hp, hc]; exact h.key, by rw [hp, hc]; exact h.live⟩

theorem modify (h : TableInv s) {f : Cell T → Cell T} (hname : ∀ c, (f c).session.name = c.session.name)
    (hrem : ∀ c, (f c).removal = c.removal) : TableInv (s.modify r f) := by
  refine ⟨h.bounded, fun k q hq => ?_, fun q c' hc' hn => ?_⟩
  · obtain ⟨c, hc, hk, hn⟩ := h.key k q hq
    by_cases he : q = r
    · subst he
      exact ⟨f c, modify_self hc, (hname c).trans hk, (hrem c).trans hn⟩
    · exact ⟨c, (modify_other he).trans hc, hk, hn⟩
  · obtain ⟨c, hc, rfl⟩ := modify_cell hc'
    by_cases he : r = q
    · rw [if_pos he] at hn ⊢
      rw [hname]
      exact h.live q c hc ((hrem c).symm.trans hn)
    · rw [if_neg he] at hn ⊢
      exact h.live q c hc hn

theorem install (h : TableInv s) {name : String} {p : PtySession T} (hname : p.name = name)
    (hnew : s.ptys.get name = none) (hlen : s.ptys.entries.length < maxPtys) : TableInv (s.install name p) := by
  refine ⟨?_, fun k q hq => ?_, fun q c hc hn => ?_⟩
  · rw [State.install, Table.length_insert hnew]
    exact hlen
  · by_cases hk : k = name
    · subst hk
      rw [State.install, Table.get_insert] at hq
      cases hq
      exact ⟨State.freshCell p, by simp [State.install], hname, rfl⟩
    · rw [State.install, Table.get_insert_ne hk] at hq
      obtain ⟨c, hc, hck, hn⟩ := h.key k q hq
      exact ⟨c, install_old hc, hck, hn⟩
  · rcases install_cell hc with hc | ⟨rfl, rfl⟩
    · have hlook := h.live q c hc hn
      have hk : c.session.name ≠ name := by
        intro he
        rw [he, hnew] at hlook
        cases hlook
      rw [State.install, Table.get_insert_ne hk]
      exact hlook
    · rw [State.install, State.freshCell, hname, Table.get_insert]

theorem erase (h : TableInv s) {name : String} {f : Cell T → Cell T} (hr : s.ptys.get name = some r)
    (hrem : ∀ c, (f c).removal ≠ none) :
    TableInv { s.modify r f with ptys := s.ptys.erase name } := by
  refine ⟨?_, fun k q hq => ?_, fun q c' hc' hn => ?_⟩
  · exact Nat.le_trans (Table.length_erase_le _ _) h.bounded
  · have hk : k ≠ name := by
      rintro rfl
      rw [Table.get_erase] at hq
      cases hq
    rw [Table.get_erase_ne hk] at hq
    obtain ⟨c, hc, hck, hn⟩ := h.key k q hq
    have hne : q ≠ r := by
      rintro rfl
      obtain ⟨c₀, hc₀, hck₀, _⟩ := h.key name q hr
      rw [hc] at hc₀
      cases hc₀
      exact hk (hck.symm.trans hck₀)
    exact ⟨c, (modify_other hne).trans hc, hck, hn⟩
  · obtain ⟨c, hc, rfl⟩ := modify_cell hc'
    by_cases he : r = q
    · rw [if_pos he] at hn
      exact absurd hn (hrem c)
    · rw [if_neg he] at hn ⊢
      have hlook := h.live q c hc hn
      have hk : c.session.name ≠ name := by
        intro hcn
        rw [hcn, hr] at hlook
        exact he (Option.some.inj hlook)
      rw [Table.get_erase_ne hk]
      exact hlook

theorem remove (h : TableInv s) {name : String} (why : Removal) (hr : s.ptys.get name = some r) :
    TableInv (s.remove name r why) :=
  h.erase hr (fun c => by cases c.removal <;> nofun)

theorem extend : ∀ {staged : List (Sigma fun _ : String => PtySession T)} {s : State T}, TableInv s →
    staged.NodupKeys → (∀ e ∈ staged, e.2.name = e.1 ∧ s.ptys.get e.1 = none) →
    s.ptys.entries.length + staged.length ≤ maxPtys → TableInv (s.extend staged)
  | [], _, h, _, _, _ => h
  | e :: staged, s, h, hn, hnew, hlen => by
    obtain ⟨hname, hlook⟩ := hnew e (by simp)
    rw [List.length_cons] at hlen
    obtain ⟨hne, hn⟩ := List.nodupKeys_cons.mp hn
    have hins : TableInv (s.install e.1 e.2) := h.install hname hlook (by omega)
    rw [extend_cons]
    refine extend hins hn (fun e' he' => ?_) ?_
    · obtain ⟨hname', hlook'⟩ := hnew e' (List.mem_cons_of_mem _ he')
      have hk : e'.1 ≠ e.1 := fun he => hne (he ▸ List.mem_keys_of_mem he')
      refine ⟨hname', ?_⟩
      rw [State.install, Table.get_insert_ne hk]
      exact hlook'
    · rw [State.install, Table.length_insert hlook]
      omega

theorem setDeadline (h : TableInv s) (deadline : Option Nat) : TableInv (s.setDeadline r deadline) :=
  h.modify (fun _ => rfl) (fun _ => rfl)

theorem kill (h : TableInv s) (name : String) : TableInv (s.kill name).2 := by
  unfold State.kill
  split
  · rename_i r hr
    exact h.remove .killed hr
  · exact h

theorem closeFor (h : TableInv s) (name : String) (retention : Nat) : TableInv (s.closeFor name retention).2 := by
  unfold State.closeFor
  split
  · split
    · exact (h.setDeadline _).congr (scheduleClose_cells _) (scheduleClose_ptys _)
    · exact h
  · exact h

theorem reopen (h : TableInv s) (name : String) : TableInv (s.reopen name).2 := by
  unfold State.reopen
  split
  · split
    · exact h
    · exact h.setDeadline none
  · exact h

theorem armClose (h : TableInv s) (hs : s.armClose r = some s') : TableInv s' := by
  obtain ⟨c, _, hs⟩ := Option.bind_eq_some_iff.mp hs
  split at hs
  · have hm : TableInv (s.modify r fun c => { c with arming := false }) := h.modify (fun _ => rfl) (fun _ => rfl)
    cases hs
    split
    · exact hm.congr (scheduleClose_cells _) (scheduleClose_ptys _)
    · exact hm
  · cases hs

theorem timerFire {i : Nat} (h : TableInv s) (hs : s.timerFire i = some s') : TableInv s' := by
  obtain ⟨t, _, hs⟩ := Option.bind_eq_some_iff.mp hs
  split at hs
  · have he : TableInv { s with timers := s.timers.eraseIdx i } := h.congr rfl rfl
    cases hs
    split
    · rename_i r hr
      exact he.remove .expired (due_some hr).1
    · exact he
  · cases hs

theorem reapRemove (h : TableInv s) (hs : s.reapRemove r = some s') : TableInv s' := by
  obtain ⟨c, hc, hs⟩ := Option.bind_eq_some_iff.mp hs
  split at hs
  · cases hs
    by_cases hr : s.ptys.get c.session.name = some r
    · simp only [if_pos hr]
      exact h.erase hr (fun c => by cases c.removal <;> nofun)
    · simp only [if_neg hr]
      have hrem : c.removal ≠ none := fun hn => hr (h.live r c hc hn)
      refine ⟨h.bounded, fun k q hq => ?_, fun q c' hc' hn => ?_⟩
      · obtain ⟨c₁, hc₁, hk, hn⟩ := h.key k q hq
        have hne : q ≠ r := by
          rintro rfl
          rw [hc] at hc₁
          cases hc₁
          exact hrem hn
        exact ⟨c₁, (modify_other hne).trans hc₁, hk, hn⟩
      · obtain ⟨c₁, hc₁, rfl⟩ := modify_cell hc'
        by_cases he : r = q
        · subst he
          rw [if_pos rfl] at hn
          cases hr₁ : c₁.removal <;> simp [hr₁] at hn
        · rw [if_neg he] at hn ⊢
          exact h.live q c₁ hc₁ hn
  · cases hs

variable [Ghostty T]

theorem openTerm (h : TableInv s) (name : String) (command : List String) (cols rows : UInt16)
    (spawned : Except String (PtyId × Pid)) (generation : Generation) :
    TableInv (s.openTerm name command cols rows spawned generation).2 := by
  rcases openTerm_cases s name command cols rows spawned generation with heq | ⟨terminal, master, child, hnew, hlen, _, heq⟩
  · rw [heq]; exact h
  · rw [heq]; exact h.install rfl hnew hlen

theorem adoptMany (h : TableInv s) (incoming : List Incoming) : TableInv (s.adoptMany incoming).2 := by
  rcases adoptMany_cases s incoming with ⟨e, heq⟩ | ⟨staged, hstage, hlen, hnew, heq⟩
  · rw [heq]; exact h
  · rw [heq]
    refine h.extend staged.nodupKeys (fun e he => ⟨?_, hnew e.1 (List.mem_keys_of_mem he)⟩) hlen
    rcases stage_get hstage (Table.mem_entries.mp he) with hk | ⟨i, _, terminal, hk, hp⟩
    · cases hk
    · rw [hp, hk]; rfl

theorem step {a : Label} (h : TableInv s) (hs : step s a = some s') : TableInv s' := by
  cases a with
  | openTerm name command cols rows spawned generation =>
    cases hs
    exact h.openTerm name command cols rows spawned generation
  | get name =>
    obtain ⟨r, _, rfl⟩ := Option.map_eq_some_iff.mp hs
    exact h.congr rfl rfl
  | checkExisting i =>
    simp only [Manager.step, Option.ite_none_right_eq_some, Option.some.injEq] at hs
    obtain ⟨_, rfl⟩ := hs
    exact h.congr rfl rfl
  | kill name => cases hs; exact h.kill name
  | closeFor name retention => cases hs; exact h.closeFor name retention
  | reopen name => cases hs; exact h.reopen name
  | adoptMany incoming => cases hs; exact h.adoptMany incoming
  | armClose r => exact h.armClose hs
  | timerFire i => exact h.timerFire hs
  | reapRemove r => exact h.reapRemove hs
  | timerSleep i =>
    obtain ⟨t, _, hs⟩ := Option.bind_eq_some_iff.mp hs
    split at hs
    · cases hs; exact h.congr rfl rfl
    · cases hs
  | tick ms => cases hs; exact h.congr rfl rfl
  | startLoop r | killSession r | read r chunk | eof r | reapMark r =>
    obtain ⟨c, _, hs⟩ := Option.bind_eq_some_iff.mp hs
    split at hs
    · cases hs; exact h.modify (fun _ => rfl) (fun _ => rfl)
    · cases hs

omit [Ghostty T] in
theorem new (clock : Nat) : TableInv (State.new clock : State T) := by
  refine ⟨Nat.zero_le _, fun k r hr => ?_, fun r c hc => ?_⟩
  · cases hr
  · rw [State.new, List.getElem?_nil] at hc
    cases hc

end

end TableInv

theorem table_inv {T : Type} [Ghostty T] {s : State T} {clock : Nat} {tr : List Label}
    (h : exec step (State.new clock) tr = some s) : TableInv s :=
  exec_inv (fun _ _ _ hs hi => TableInv.step hi hs) h (TableInv.new clock)

/-! ## Whose session a task removes -/

/-- No generation is drawn that a session of this daemon has, and none is drawn twice. -/
def Fresh {T : Type} (s : State T) (a : Label) : Prop := a.draws.Nodup ∧ ∀ g ∈ a.draws, g ∉ generations s

instance {T : Type} (s : State T) (a : Label) : Decidable (Fresh s a) :=
  decidable_of_iff (a.draws.Nodup ∧ (a.draws.all fun g => !(generations s).contains g) = true)
    (and_congr_right fun _ => by simp)

structure TimerInv {T : Type} (s : State T) : Prop where
  armedFor : ∀ t ∈ s.timers, ∃ c, s.cells[t.ref]? = some c ∧ c.session.name = t.name ∧
    c.session.generation = t.generation

section
variable {T : Type} {s s' : State T} {r q : Ref} {k : String}

theorem reapRemove_keeps (hs : s.reapRemove r = some s') (hk : s.ptys.get k = some q) (hne : q ≠ r) :
    s'.ptys.get k = some q := by
  obtain ⟨c, _, hs⟩ := Option.bind_eq_some_iff.mp hs
  split at hs
  · cases hs
    by_cases hr : s.ptys.get c.session.name = some r
    · have hkn : k ≠ c.session.name := by
        rintro rfl
        rw [hr] at hk
        exact hne (Option.some.inj hk).symm
      simp only [if_pos hr]
      rw [Table.get_erase_ne hkn]
      exact hk
    · simp only [if_neg hr]
      exact hk
  · cases hs

theorem ref_of_generation (hn : (generations s).Nodup) {c d : Cell T} (hc : s.cells[r]? = some c)
    (hd : s.cells[q]? = some d) (he : c.session.generation = d.session.generation) : r = q := by
  have hr : (generations s)[r]? = some c.session.generation := by rw [generations, List.getElem?_map, hc]; rfl
  have hq : (generations s)[q]? = some c.session.generation := by rw [generations, List.getElem?_map, hd, he]; rfl
  exact (List.getElem?_inj (List.getElem?_eq_some_iff.mp hr).1 hn).mp (hr.trans hq.symm)

theorem due_ref (hn : (generations s).Nodup) (hi : TimerInv s) {t : Timer} (ht : t ∈ s.timers)
    (hd : s.due t = some r) : r = t.ref := by
  obtain ⟨_, c, hc, hg, _⟩ := due_some hd
  obtain ⟨c', hc', _, hg'⟩ := hi.armedFor t ht
  exact ref_of_generation hn hc hc' (hg.trans hg'.symm)

theorem timerFire_keeps (hn : (generations s).Nodup) (hi : TimerInv s) {i : Nat} {t : Timer}
    (ht : s.timers[i]? = some t) (hs : s.timerFire i = some s') (hk : s.ptys.get k = some q) (hne : q ≠ t.ref) :
    s'.ptys.get k = some q := by
  obtain ⟨t', ht', hs⟩ := Option.bind_eq_some_iff.mp hs
  rw [ht] at ht'
  cases ht'
  split at hs
  · cases hs
    split
    · rename_i r hd
      have hd : s.due t = some r := hd
      have hr := due_ref hn hi (List.mem_of_getElem? ht) hd
      have hkn : k ≠ t.name := by
        rintro rfl
        rw [(due_some hd).1] at hk
        exact hne ((Option.some.inj hk).symm.trans hr)
      exact (Table.get_erase_ne hkn).trans hk
    · exact hk
  · cases hs

variable [Ghostty T]

theorem TimerInv.step {a : Label} (h : TimerInv s) (hs : step s a = some s') : TimerInv s' := by
  have hold : ∀ t ∈ s.timers, ∃ c, s'.cells[t.ref]? = some c ∧ c.session.name = t.name ∧
      c.session.generation = t.generation := by
    intro t ht
    obtain ⟨c, hc, hname, hgen⟩ := h.armedFor t ht
    obtain ⟨c', hc', he⟩ := evolves_of_step hs hc
    exact ⟨c', hc', (name_of_ident he.ident).trans hname, (generation_of_ident he.ident).trans hgen⟩
  refine ⟨fun t' ht' => ?_⟩
  rcases timer_of_step hs ht' with ht | ⟨t, ht, _, rfl⟩ | ⟨r, c', hc', _, ht⟩
  · exact hold t' ht
  · exact hold t ht
  · rw [ht]; exact ⟨c', hc', rfl, rfl⟩

theorem generations_nodup_step {a : Label} (hf : Fresh s a) (h : (generations s).Nodup)
    (hs : Manager.step s a = some s') : (generations s').Nodup := by
  rcases generations_of_step hs with heq | heq
  · rw [heq]; exact h
  · rw [heq]
    refine List.Nodup.append h (List.nodup_reverse.mpr hf.1) fun g hg hd => ?_
    exact hf.2 g (List.mem_reverse.mp hd) hg

/-- The table over every run of a daemon. A session leaves it only by a kill of its name, a
timer that finds it due, or its own reaper; the reaper of one session never removes another,
and neither does a timer while generations are drawn without repetition. -/
theorem session_table (clock : Nat) (tr : List Label) (h : exec step (State.new clock : State T) tr = some s) :
    TableInv s ∧
      (∀ pre a post s₁ s₂ r c₁ c₂, tr = pre ++ a :: post → exec step (State.new clock : State T) pre = some s₁ →
        step s₁ a = some s₂ → s₁.cells[r]? = some c₁ → s₂.cells[r]? = some c₂ → c₂.removal ≠ c₁.removal →
        (∃ name, a = .kill name ∧ s₁.ptys.get name = some r) ∨
          (∃ i t, a = .timerFire i ∧ s₁.timers[i]? = some t ∧ s₁.due t = some r) ∨ (a = .reapRemove r ∧ c₁.loop = .marked)) ∧
      (∀ pre r post s₁ s₂ k q, tr = pre ++ .reapRemove r :: post →
        exec step (State.new clock : State T) pre = some s₁ → step s₁ (.reapRemove r) = some s₂ →
        s₁.ptys.get k = some q → q ≠ r → s₂.ptys.get k = some q) ∧
      (Meets step Fresh (State.new clock : State T) tr → ∀ pre i post s₁ s₂ t k q, tr = pre ++ .timerFire i :: post →
        exec step (State.new clock : State T) pre = some s₁ → step s₁ (.timerFire i) = some s₂ →
        s₁.timers[i]? = some t → s₁.ptys.get k = some q → q ≠ t.ref → s₂.ptys.get k = some q) := by
  refine ⟨table_inv h, ?_, ?_, ?_⟩
  · intro pre a post s₁ s₂ r c₁ c₂ _ _ hs hc₁ hc₂ hne
    obtain ⟨c', hc', he⟩ := evolves_of_step hs hc₁
    rw [hc₂] at hc'
    cases hc'
    exact he.removal.resolve_left hne
  · intro pre r post s₁ s₂ k q _ _ hs hk hne
    exact reapRemove_keeps hs hk hne
  · rintro hm pre i post s₁ s₂ t k q rfl h₁ hs ht hk hne
    have hinv : (generations s₁).Nodup ∧ TimerInv s₁ :=
      exec_inv_of_meets (I := fun s => (generations s).Nodup ∧ TimerInv s)
        (fun _ _ _ hf hs hi => ⟨generations_nodup_step hf hi.1 hs, hi.2.step hs⟩) (meets_append.mp hm).1 h₁
        ⟨List.nodup_nil, ⟨nofun⟩⟩
    exact timerFire_keeps hinv.1 hinv.2 ht hs hk hne

end

/-- A terminal is closed and killed, its name is taken again, and the old session's timer
and reaper run after that. -/
def replacedRun : List Label :=
  [.openTerm "p1" [] 80 24 (.ok (0, 100)) 1, .startLoop 0, .closeFor "p1" 60000, .timerSleep 0, .kill "p1",
    .openTerm "p1" [] 80 24 (.ok (1, 101)) 2, .killSession 0, .eof 0, .reapMark 0, .closeFor "p1" 60000, .tick 60000,
    .timerFire 0, .reapRemove 0]

theorem session_table_replaced : ∃ s : State Echo, exec step (State.new 0) replacedRun = some s ∧
    Meets step Fresh (State.new 0 : State Echo) replacedRun ∧ TableInv s ∧ s.ptys.get "p1" = some 1 := by
  have hm : Meets step Fresh (State.new 0 : State Echo) replacedRun := by decide +kernel
  exact ⟨_, rfl, hm, (session_table 0 replacedRun rfl).1, by decide +kernel⟩

end Mux.Manager
