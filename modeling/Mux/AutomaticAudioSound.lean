import Mux.AutomaticAudio

/-!
# Every watched host has its helper

A helper that nobody has told to end is the one in the table of its host, so that a host has one at most, and none
when automatic audio is off. As long as it is on, every watched host has its helper or a retry that will start one,
and what is shown of a host is what its helper printed last.
-/

namespace Mux.AutomaticAudio

open Lib Subprocess

/-- What is shown while a helper runs. -/
def shown (m : Main) (id : Nat) : String := (m.said id).getLast?.getD connecting

structure Inv (s : State) : Prop where
  faithful : Faithful s.main
  captures : s.captures.length = s.main.streams.length
  ages : ∀ c ∈ s.captures, c.expected ≤ s.generation
  listed : ∀ (host : String) (id : Nat), s.streams.lookup host = some id →
    s.captures[id]? = some ⟨host, s.generation⟩ ∧ .exit id ∉ s.main.done ∧
      (∀ x, s.main.streams[id]? = some x → x.terminated = false) ∧ s.enabled = true ∧ host ∈ s.hosts
  current : ∀ (id : Nat) (host : String), s.captures[id]? = some ⟨host, s.generation⟩ → .exit id ∉ s.main.done →
    s.streams.lookup host = some id
  ended : ∀ (id : Nat) (c : Capture) (x : Stream), s.captures[id]? = some c → c.expected ≠ s.generation →
    s.main.streams[id]? = some x → x.terminated = true ∨ .exit id ∈ s.main.done
  retries : ∀ c ∈ s.retries, c.host ∈ s.hosts
  watched : ∀ (id : Nat) (c : Capture), s.captures[id]? = some c → c.host ∈ s.hosts
  said : ∀ (host : String) (id : Nat), s.streams.lookup host = some id →
    s.statuses.lookup host = some (shown s.main id)
  idle : ∀ (host status : String), s.statuses.lookup host = some status → s.enabled = true ∧ host ∈ s.hosts ∧
    (s.streams.lookup host = none → status = stopped ∨ status = notStarted)

theorem inv_init (enabled : Bool) : Inv (init enabled) where
  faithful := faithful_empty
  captures := rfl
  ages c hc := by cases hc
  listed host id h := by cases h
  current id host h := by simp [init] at h
  ended id c x h := by simp [init] at h
  retries c hc := by cases hc
  watched id c h := by simp [init] at h
  said host id h := by cases h
  idle host status h := by cases h

/-- The host has its helper, or somebody will try to start it. -/
def Covered (s : State) (host : String) : Prop :=
  (s.streams.lookup host).isSome = true ∨ (⟨host, s.generation⟩ : Capture) ∈ s.retries

/-! ## start -/

theorem start_hosts (s : State) (host : String) (launches : Bool) :
    (s.start host launches).hosts = s.hosts ∧ (s.start host launches).enabled = s.enabled ∧
      (s.start host launches).generation = s.generation := by
  unfold State.start
  by_cases hrun : (s.streams.lookup host).isSome = true
  · rw [if_pos hrun]
    exact ⟨rfl, rfl, rfl⟩
  · rw [if_neg hrun]
    cases launches <;> exact ⟨rfl, rfl, rfl⟩

theorem start_covers (s : State) (host : String) (launches : Bool) : Covered (s.start host launches) host := by
  unfold Covered
  rw [(start_hosts s host launches).2.2]
  unfold State.start
  by_cases hrun : (s.streams.lookup host).isSome = true
  · rw [if_pos hrun]
    exact .inl hrun
  · rw [if_neg hrun]
    cases launches with
    | true => exact .inl (by simp [State.setStatus])
    | false => exact .inr (by simp [State.retry, State.setStatus])

theorem start_keeps {s : State} {host : String} (other : String) (launches : Bool) (h : Covered s host) :
    Covered (s.start other launches) host := by
  by_cases hsame : host = other
  · rw [hsame]
    exact start_covers s other launches
  · unfold Covered at h ⊢
    rw [(start_hosts s other launches).2.2]
    unfold State.start
    by_cases hrun : (s.streams.lookup other).isSome = true
    · rw [if_pos hrun]
      exact h
    · rw [if_neg hrun]
      cases launches with
      | true =>
        rcases h with h | h
        · exact .inl (by simpa [State.setStatus, AList.lookup_insert_ne hsame] using h)
        · exact .inr h
      | false =>
        rcases h with h | h
        · exact .inl h
        · exact .inr (List.mem_append_left _ h)

/-- Nothing has been handed over of the stream that comes next. -/
theorem none_done {m : Main} (h : Faithful m) : .exit m.streams.length ∉ m.done ∧ m.said m.streams.length = [] := by
  have hnone : ∀ c ∈ m.done, c.id ≠ m.streams.length := by
    intro c hc
    have := h.known c (List.mem_append_left _ hc)
    omega
  refine ⟨fun hc => hnone _ hc rfl, ?_⟩
  unfold Main.said
  rw [List.filterMap_eq_nil_iff]
  intro c hc
  cases c with
  | line i t =>
    have hi : i ≠ m.streams.length := hnone _ hc
    simp [Callback.lineOf, hi]
  | exit i => rfl

theorem inv_launch {s : State} {host : String} (h : Inv s) (hhost : host ∈ s.hosts) (hen : s.enabled = true)
    (hfree : s.streams.lookup host = none) :
    Inv { s.setStatus host connecting with
      main := s.main.launch
      captures := s.captures ++ [{ host := host, expected := s.generation }]
      streams := s.streams.insert host s.main.streams.length } := by
  have hnew := none_done h.faithful
  have hne {other : String} {id : Nat} (hl : s.streams.lookup other = some id) : other ≠ host := by
    rintro rfl
    rw [hfree] at hl
    cases hl
  have hlookup (other : String) (id : Nat) :
      (s.streams.insert host s.main.streams.length).lookup other = some id ↔
        other = host ∧ id = s.main.streams.length ∨ s.streams.lookup other = some id := by
    by_cases hsame : other = host
    · subst hsame
      rw [AList.lookup_insert, hfree]
      simp [eq_comm]
    · rw [AList.lookup_insert_ne hsame]
      simp [hsame]
  refine
    { faithful := faithful_launch h.faithful
      captures := by simp [Main.launch, h.captures]
      ages := ?_
      listed := ?_
      current := ?_
      ended := ?_
      retries := h.retries
      watched := ?_
      said := ?_
      idle := ?_ }
  · intro c hc
    rcases List.mem_append.mp hc with hc | hc
    · exact h.ages c hc
    · obtain rfl := List.mem_singleton.mp hc
      exact Nat.le_refl _
  · intro other id hl
    rcases (hlookup other id).mp hl with ⟨rfl, rfl⟩ | hl
    · refine ⟨getElem?_snoc_some_iff.mpr (.inr ⟨h.captures.symm, rfl⟩), hnew.1, ?_, hen, hhost⟩
      intro x hx
      rcases getElem?_snoc_some_iff.mp hx with hx | ⟨_, rfl⟩
      · exact absurd (lt_of_getElem?_some hx) (Nat.lt_irrefl _)
      · rfl
    · obtain ⟨hc, he, ht, hen, hin⟩ := h.listed other id hl
      refine ⟨getElem?_snoc_some_iff.mpr (.inl hc), he, ?_, hen, hin⟩
      intro x hx
      rcases getElem?_snoc_some_iff.mp hx with hx | ⟨_, rfl⟩
      · exact ht x hx
      · rfl
  · intro id other hc he
    rw [hlookup]
    rcases getElem?_snoc_some_iff.mp hc with hc | ⟨hid, heq⟩
    · exact .inr (h.current id other hc he)
    · cases heq
      exact .inl ⟨rfl, by rw [hid, h.captures]⟩
  · intro id c x hc hold hx
    rcases getElem?_snoc_some_iff.mp hc with hc | ⟨_, rfl⟩
    · have hid : id < s.main.streams.length := h.captures ▸ lt_of_getElem?_some hc
      rcases getElem?_snoc_some_iff.mp hx with hx | ⟨hid', _⟩
      · exact h.ended id c x hc hold hx
      · omega
    · exact absurd rfl hold
  · intro id c hc
    rcases getElem?_snoc_some_iff.mp hc with hc | ⟨_, rfl⟩
    · exact h.watched id c hc
    · exact hhost
  · intro other id hl
    rcases (hlookup other id).mp hl with ⟨rfl, rfl⟩ | hl
    · have hsaid : s.main.launch.said s.main.streams.length = [] := hnew.2
      simp [State.setStatus, shown, hsaid]
    · have hshown : shown s.main.launch id = shown s.main id := rfl
      have := h.said other id hl
      simpa [State.setStatus, AList.lookup_insert_ne (hne hl), hshown] using this
  · intro other status hs
    by_cases hsame : other = host
    · subst hsame
      exact ⟨hen, hhost, fun hn => by simp at hn⟩
    · have hs' : s.statuses.lookup other = some status := by
        simpa [State.setStatus, AList.lookup_insert_ne hsame] using hs
      obtain ⟨_, hin, hidle⟩ := h.idle other status hs'
      refine ⟨hen, hin, ?_⟩
      intro hn
      rw [AList.lookup_insert_ne hsame] at hn
      exact hidle hn

/-- The status of a host without a helper. -/
theorem inv_failed {s : State} {host : String} {status : String} (h : Inv s) (hhost : host ∈ s.hosts)
    (hen : s.enabled = true) (hfree : s.streams.lookup host = none) (hstatus : status = stopped ∨ status = notStarted) :
    Inv ((s.setStatus host status).retry ⟨host, s.generation⟩) := by
  refine
    { h with
      retries := ?_
      said := ?_
      idle := ?_ }
  · intro c hc
    rcases List.mem_append.mp hc with hc | hc
    · exact h.retries c hc
    · obtain rfl := List.mem_singleton.mp hc
      exact hhost
  · intro other id hl
    have hne : other ≠ host := by
      rintro rfl
      have hl' : s.streams.lookup other = some id := hl
      rw [hfree] at hl'
      cases hl'
    have := h.said other id hl
    simpa [State.setStatus, State.retry, AList.lookup_insert_ne hne] using this
  · intro other text hs
    by_cases hsame : other = host
    · subst hsame
      have heq : status = text := by simpa [State.setStatus, State.retry] using hs
      exact ⟨hen, hhost, fun _ => heq ▸ hstatus⟩
    · have hs' : s.statuses.lookup other = some text := by
        simpa [State.setStatus, State.retry, AList.lookup_insert_ne hsame] using hs
      exact h.idle other text hs'

theorem setStatus_twice (s : State) (host a b : String) :
    (s.setStatus host a).setStatus host b = s.setStatus host b := by
  unfold State.setStatus
  simp

theorem inv_start {s : State} {host : String} (h : Inv s) (hhost : host ∈ s.hosts) (hen : s.enabled = true)
    (launches : Bool) : Inv (s.start host launches) := by
  unfold State.start
  by_cases hrun : (s.streams.lookup host).isSome = true
  · rw [if_pos hrun]
    exact h
  · have hfree : s.streams.lookup host = none := by simpa using hrun
    rw [if_neg hrun]
    cases launches with
    | true => exact inv_launch h hhost hen hfree
    | false =>
      simp only [Bool.false_eq_true, if_false, setStatus_twice]
      exact inv_failed h hhost hen hfree (.inr rfl)

/-! ## stop and the main thread -/

theorem inv_stop {s : State} (h : Inv s) (enabled : Bool) : Inv ({ s with enabled := enabled } : State).stop := by
  refine
    { faithful := faithful_terminate h.faithful _
      captures := by simp [State.stop, Main.terminate, h.captures]
      ages := fun c hc => Nat.le_succ_of_le (h.ages c hc)
      listed := fun host id hl => by cases hl
      current := ?_
      ended := ?_
      retries := h.retries
      watched := h.watched
      said := fun host id hl => by cases hl
      idle := fun host status hl => by cases hl }
  · intro id host hc
    have hage := h.ages _ (List.mem_of_getElem? hc)
    simp only [State.stop] at hage
    omega
  · intro id c y hc _ hy
    obtain ⟨x, hx, rfl⟩ := getElem?_terminate hy
    by_cases hdone : .exit id ∈ s.main.done
    · exact .inr hdone
    · refine .inl ?_
      by_cases hcurrent : c.expected = s.generation
      · -- It is in the table, and is told to end now.
        have hl := h.current id c.host (by rw [← hcurrent]; exact hc) hdone
        have hid : id ∈ s.streams.entries.map (·.2) := List.mem_map.mpr ⟨_, AList.mem_lookup_iff.mp hl, rfl⟩
        rw [if_pos hid]
      · rcases h.ended id c x hc hcurrent hx with ht | he
        · split
          · rfl
          · exact ht
        · exact absurd he hdone

theorem inv_read {s : State} {id : Nat} {data : Subprocess.Bytes} {m : Main} (h : Inv s)
    (hr : s.main.read id data = some m) :
    Inv { s with main := m } := by
  obtain ⟨hdone, hlength, hstreams⟩ := read_fields hr
  have hshown (id : Nat) : shown m id = shown s.main id := by rw [shown, Main.said, hdone, shown, Main.said]
  refine
    { h with
      faithful := faithful_read h.faithful hr
      captures := h.captures.trans hlength.symm
      listed := ?_
      current := ?_
      ended := ?_
      said := ?_ }
  · intro host id hl
    obtain ⟨hc, he, ht, hrest⟩ := h.listed host id hl
    refine ⟨hc, by rw [hdone]; exact he, ?_, hrest⟩
    intro x' hx'
    obtain ⟨x, hx, hsame⟩ := hstreams id x' hx'
    rw [hsame]
    exact ht x hx
  · intro id host hc he
    rw [hdone] at he
    exact h.current id host hc he
  · intro id c x' hc hold hx'
    obtain ⟨x, hx, hsame⟩ := hstreams id x' hx'
    rw [hdone, hsame]
    exact h.ended id c x hc hold hx
  · intro host id hl
    rw [hshown]
    exact h.said host id hl

/-- A callback has run; `id` of its stream is not that of any other. -/
theorem shown_other {m m' : Main} {c : Callback} {id : Nat} (hdone : m'.done = m.done ++ [c]) (hid : c.id ≠ id) :
    shown m' id = shown m id ∧ (.exit id ∉ m.done → .exit id ∉ m'.done) := by
  have hline : c.lineOf id = none := by
    cases c with
    | line i t => simpa [Callback.lineOf, Callback.id] using hid
    | exit i => rfl
  refine ⟨?_, ?_⟩
  · rw [shown, Main.said, hdone, List.filterMap_append, shown, Main.said]
    simp [hline]
  · intro he hin
    rw [hdone] at hin
    rcases List.mem_append.mp hin with hin | hin
    · exact he hin
    · rw [← List.mem_singleton.mp hin] at hid
      exact hid rfl

/-- What an old stream hands over changes nothing. -/
theorem inv_unheard {s : State} {m : Main} {c : Callback} {x : Capture} (h : Inv s) (hn : s.main.next = some (c, m))
    (hx : s.captures[c.id]? = some x) (hold : x.expected ≠ s.generation) : Inv { s with main := m } := by
  obtain ⟨hf, hstreams, hdone, _⟩ := faithful_next h.faithful hn
  have hne {id : Nat} {host : String} (hc : s.captures[id]? = some ⟨host, s.generation⟩) : c.id ≠ id := by
    intro heq
    rw [← heq, hx, Option.some.injEq] at hc
    exact hold (by rw [hc])
  refine
    { h with
      faithful := hf
      captures := by rw [h.captures, ← hstreams]
      listed := ?_
      current := ?_
      ended := ?_
      said := ?_ }
  · intro host id hl
    obtain ⟨hc, he, ht, hrest⟩ := h.listed host id hl
    refine ⟨hc, (shown_other hdone (hne hc)).2 he, ?_, hrest⟩
    intro y hy
    exact ht y (hstreams ▸ hy)
  · intro id host hc he
    refine h.current id host hc ?_
    intro hin
    exact he (by rw [hdone]; exact List.mem_append_left _ hin)
  · intro id y z hc hy hz
    rcases h.ended id y z hc hy (hstreams ▸ hz) with ht | he
    · exact .inl ht
    · exact .inr (by rw [hdone]; exact List.mem_append_left _ he)
  · intro host id hl
    rw [(shown_other hdone (hne (h.listed host id hl).1)).1]
    exact h.said host id hl

theorem stream_of_capture {s : State} {id : Nat} {x : Capture} (h : Inv s) (hx : s.captures[id]? = some x) :
    ∃ y, s.main.streams[id]? = some y :=
  ⟨_, List.getElem?_eq_getElem (h.captures ▸ lt_of_getElem?_some hx)⟩

theorem inv_line {s : State} {m : Main} {id : Nat} {t : String} {x : Capture} (h : Inv s)
    (hn : s.main.next = some (.line id t, m)) (hx : s.captures[id]? = some x) (hcurrent : x.expected = s.generation) :
    Inv (({ s with main := m } : State).setStatus x.host t) := by
  obtain ⟨hf, hstreams, hdone, hqueue⟩ := faithful_next h.faithful hn
  obtain ⟨y, hy⟩ := stream_of_capture h hx
  have hlisted := h.current id x.host (by rw [← hcurrent]; exact hx) (h.faithful.no_line_after hy [] hqueue)
  obtain ⟨_, hexit, hterminated, hen, hhost⟩ := h.listed x.host id hlisted
  -- Another host has another stream.
  have hne {other : String} {j : Nat} (ho : other ≠ x.host) (hl : s.streams.lookup other = some j) : id ≠ j := by
    rintro rfl
    have hc := (h.listed other id hl).1
    rw [hx, Option.some.injEq] at hc
    exact ho (by rw [hc])
  have hkeep {j : Nat} (he : .exit j ∉ s.main.done) : .exit j ∉ m.done := by
    rw [hdone]
    intro hin
    rcases List.mem_append.mp hin with hin | hin
    · exact he hin
    · cases List.mem_singleton.mp hin
  refine
    { faithful := hf
      captures := h.captures.trans (congrArg List.length hstreams.symm)
      ages := h.ages
      listed := ?_
      current := ?_
      ended := ?_
      retries := h.retries
      watched := h.watched
      said := ?_
      idle := ?_ }
  · intro other j hl
    obtain ⟨hc, he, ht, hrest⟩ := h.listed other j hl
    refine ⟨hc, hkeep he, ?_, hrest⟩
    intro z hz
    exact ht z (hstreams ▸ hz)
  · intro j other hc he
    refine h.current j other hc ?_
    intro hin
    exact he (by rw [State.setStatus, hdone]; exact List.mem_append_left _ hin)
  · intro j c z hc hold hz
    rcases h.ended j c z hc hold (hstreams ▸ hz) with ht | he
    · exact .inl ht
    · exact .inr (by rw [State.setStatus, hdone]; exact List.mem_append_left _ he)
  · intro other j hl
    by_cases ho : other = x.host
    · subst ho
      have hj : id = j := Option.some.inj (hlisted.symm.trans hl)
      subst hj
      have hshown : shown m id = t := by
        rw [shown, Main.said, hdone, List.filterMap_append]
        simp [Callback.lineOf]
      simp [State.setStatus, hshown]
    · have hsame : shown m j = shown s.main j := (shown_other hdone (hne ho hl)).1
      have := h.said other j hl
      simpa [State.setStatus, AList.lookup_insert_ne ho, hsame] using this
  · intro other status hs
    by_cases ho : other = x.host
    · subst ho
      exact ⟨hen, hhost, fun hnone => by rw [State.setStatus, hlisted] at hnone; cases hnone⟩
    · have hs' : s.statuses.lookup other = some status := by
        simpa [State.setStatus, AList.lookup_insert_ne ho] using hs
      exact h.idle other status hs'

theorem inv_exit {s : State} {m : Main} {id : Nat} {x : Capture} (h : Inv s) (hn : s.main.next = some (.exit id, m))
    (hx : s.captures[id]? = some x) (hcurrent : x.expected = s.generation) :
    Inv ((({ s with main := m, streams := s.streams.erase x.host } : State).setStatus x.host stopped).retry x) := by
  obtain ⟨hf, hstreams, hdone, hqueue⟩ := faithful_next h.faithful hn
  obtain ⟨y, hy⟩ := stream_of_capture h hx
  have hlisted := h.current id x.host (by rw [← hcurrent]; exact hx) (h.faithful.exit_not_done hy hqueue)
  obtain ⟨_, hexit, hterminated, hen, hhost⟩ := h.listed x.host id hlisted
  have hne {other : String} {j : Nat} (ho : other ≠ x.host) (hl : s.streams.lookup other = some j) : id ≠ j := by
    rintro rfl
    have hc := (h.listed other id hl).1
    rw [hx, Option.some.injEq] at hc
    exact ho (by rw [hc])
  have herase {other : String} {j : Nat} (hl : (s.streams.erase x.host).lookup other = some j) :
      other ≠ x.host ∧ s.streams.lookup other = some j := by
    by_cases ho : other = x.host
    · subst ho
      rw [AList.lookup_erase] at hl
      cases hl
    · rw [AList.lookup_erase_ne ho] at hl
      exact ⟨ho, hl⟩
  have hmore {j : Nat} (he : .exit j ∈ s.main.done) : .exit j ∈ m.done := by
    rw [hdone]
    exact List.mem_append_left _ he
  have hself : .exit id ∈ m.done := by
    rw [hdone]
    exact List.mem_append_right _ (List.mem_singleton.mpr rfl)
  refine
    { faithful := hf
      captures := h.captures.trans (congrArg List.length hstreams.symm)
      ages := h.ages
      listed := ?_
      current := ?_
      ended := ?_
      retries := ?_
      watched := h.watched
      said := ?_
      idle := ?_ }
  · intro other j hl
    obtain ⟨ho, hl⟩ := herase hl
    obtain ⟨hc, he, ht, hrest⟩ := h.listed other j hl
    refine ⟨hc, (shown_other hdone (hne ho hl)).2 he, ?_, hrest⟩
    intro z hz
    exact ht z (hstreams ▸ hz)
  · intro j other hc he
    have hj := h.current j other hc (fun hin => he (hmore hin))
    have ho : other ≠ x.host := by
      rintro rfl
      have hjid : id = j := Option.some.inj (hlisted.symm.trans hj)
      exact he (hjid ▸ hself)
    exact (AList.lookup_erase_ne ho).trans hj
  · intro j c z hc hold hz
    rcases h.ended j c z hc hold (hstreams ▸ hz) with ht | he
    · exact .inl ht
    · exact .inr (hmore he)
  · intro c hc
    rcases List.mem_append.mp hc with hc | hc
    · exact h.retries c hc
    · obtain rfl := List.mem_singleton.mp hc
      exact hhost
  · intro other j hl
    obtain ⟨ho, hl⟩ := herase hl
    have hsame := (shown_other hdone (hne ho hl)).1
    have := h.said other j hl
    simpa [State.setStatus, State.retry, AList.lookup_insert_ne ho, hsame] using this
  · intro other status hs
    by_cases ho : other = x.host
    · subst ho
      have heq : stopped = status := by simpa [State.setStatus, State.retry] using hs
      exact ⟨hen, hhost, fun _ => .inl heq.symm⟩
    · have hs' : s.statuses.lookup other = some status := by
        simpa [State.setStatus, State.retry, AList.lookup_insert_ne ho] using hs
      obtain ⟨_, hin, hidle⟩ := h.idle other status hs'
      refine ⟨hen, hin, ?_⟩
      intro hnone
      exact hidle ((AList.lookup_erase_ne ho).symm.trans hnone)

theorem inv_main {s : State} {m : Main} {c : Callback} {x : Capture} (h : Inv s) (hn : s.main.next = some (c, m))
    (hx : s.captures[c.id]? = some x) : Inv (({ s with main := m } : State).run x c) := by
  by_cases hcurrent : x.expected = s.generation
  · cases c with
    | line id t =>
      simp only [State.run, hcurrent, if_true]
      exact inv_line h hn hx hcurrent
    | exit id =>
      simp only [State.run, hcurrent, if_true]
      exact inv_exit h hn hx hcurrent
  · have hne : ¬s.generation = x.expected := fun heq => hcurrent heq.symm
    cases c with
    | line id t =>
      simp only [State.run, hne, if_false]
      exact inv_unheard h hn hx hcurrent
    | exit id =>
      simp only [State.run, hne, if_false]
      exact inv_unheard h hn hx hcurrent

/-! ## Runs -/

theorem inv_foldl {s : State} (launches : String → Bool) (hosts : List String) (h : Inv s) (hen : s.enabled = true)
    (hhosts : ∀ host ∈ hosts, host ∈ s.hosts) :
    Inv (hosts.foldl (fun s host => s.start host (launches host)) s) := by
  induction hosts generalizing s with
  | nil => exact h
  | cons host hosts ih =>
    obtain ⟨hsame, henabled, _⟩ := start_hosts s host (launches host)
    apply ih (inv_start h (hhosts host List.mem_cons_self) hen (launches host)) (henabled.trans hen)
    intro other ho
    rw [hsame]
    exact hhosts other (List.mem_cons_of_mem _ ho)

theorem inv_watched {s : State} (h : Inv s) (host : String) :
    Inv { s with hosts := if host ∈ s.hosts then s.hosts else s.hosts ++ [host] } := by
  have hmore {other : String} (ho : other ∈ s.hosts) :
      other ∈ if host ∈ s.hosts then s.hosts else s.hosts ++ [host] := by
    split
    · exact ho
    · exact List.mem_append_left _ ho
  refine { h with listed := ?_, retries := ?_, watched := ?_, idle := ?_ }
  · intro other id hl
    obtain ⟨hc, he, ht, hen, hin⟩ := h.listed other id hl
    exact ⟨hc, he, ht, hen, hmore hin⟩
  · exact fun c hc => hmore (h.retries c hc)
  · exact fun id c hc => hmore (h.watched id c hc)
  · intro other status hs
    obtain ⟨hen, hin, hidle⟩ := h.idle other status hs
    exact ⟨hen, hmore hin, hidle⟩

theorem mem_watched (s : State) (host : String) : host ∈ if host ∈ s.hosts then s.hosts else s.hosts ++ [host] := by
  split
  · assumption
  · simp

theorem inv_step {s s' : State} {l : Label} (h : Inv s) (hs : step s l = some s') : Inv s' := by
  cases l with
  | watch host launches =>
    cases hs
    have hw := inv_watched h host
    unfold State.watch
    dsimp only
    split
    · rename_i hen
      exact inv_start hw (mem_watched s host) hen launches
    · exact hw
  | setEnabled enabled launches =>
    cases hs
    have hstop := inv_stop h enabled
    unfold State.setEnabled
    cases enabled with
    | true => exact inv_foldl launches _ hstop rfl fun _ => id
    | false => exact hstop
  | stop =>
    cases hs
    exact inv_stop h s.enabled
  | read id data =>
    obtain ⟨m, hm, rfl⟩ := Option.map_eq_some_iff.mp hs
    exact inv_read h hm
  | main =>
    obtain ⟨⟨c, m⟩, hn, hs⟩ := Option.bind_eq_some_iff.mp hs
    obtain ⟨x, hx, rfl⟩ := Option.map_eq_some_iff.mp hs
    exact inv_main h hn hx
  | fire i launches =>
    obtain ⟨c, hc, rfl⟩ := Option.map_eq_some_iff.mp hs
    have hrest : Inv { s with retries := s.retries.eraseIdx i } :=
      { h with retries := fun x hx => h.retries x ((List.eraseIdx_sublist _ _).subset hx) }
    unfold State.fire
    split
    · rename_i hgo
      exact inv_start hrest (h.retries c (List.mem_of_getElem? hc)) hgo.2 launches
    · exact hrest

/-- Every watched host is looked after, as long as automatic audio is on. -/
def AllCovered (s : State) : Prop := s.enabled = true → ∀ host ∈ s.hosts, Covered s host

theorem covered_foldl {s : State} (launches : String → Bool) (hosts : List String) (host : String)
    (h : Covered s host ∨ host ∈ hosts) :
    Covered (hosts.foldl (fun s host => s.start host (launches host)) s) host := by
  induction hosts generalizing s with
  | nil =>
    rcases h with h | h
    · exact h
    · cases h
  | cons other hosts ih =>
    apply ih
    rcases h with h | h
    · exact .inl (start_keeps other (launches other) h)
    · rcases List.mem_cons.mp h with rfl | h
      · exact .inl (start_covers s host (launches host))
      · exact .inr h

theorem foldl_hosts (s : State) (launches : String → Bool) (hosts : List String) :
    (hosts.foldl (fun s host => s.start host (launches host)) s).hosts = s.hosts := by
  induction hosts generalizing s with
  | nil => rfl
  | cons host hosts ih => rw [List.foldl_cons, ih, (start_hosts s host (launches host)).1]

theorem covered_step {s s' : State} {l : Label} (hl : l ≠ .stop) (h : AllCovered s) (hs : step s l = some s') :
    AllCovered s' := by
  cases l with
  | watch host launches =>
    cases hs
    unfold State.watch
    cases hen : s.enabled with
    | false =>
      intro hen'
      rw [if_neg (by simp)] at hen'
      cases hen'
    | true =>
      intro _ other ho
      rw [if_pos rfl] at ho ⊢
      rw [(start_hosts _ host launches).1] at ho
      by_cases hsame : other = host
      · subst hsame
        exact start_covers _ other launches
      · apply start_keeps
        have hin : other ∈ s.hosts := by
          split at ho
          · exact ho
          · rcases List.mem_append.mp ho with ho | ho
            · exact ho
            · exact absurd (List.mem_singleton.mp ho) hsame
        exact h hen other hin
  | setEnabled enabled launches =>
    cases hs
    unfold State.setEnabled
    cases enabled with
    | true =>
      intro _ host hh
      rw [if_pos rfl] at hh ⊢
      rw [foldl_hosts] at hh
      exact covered_foldl launches _ host (.inr hh)
    | false =>
      intro hen
      cases hen
  | stop => exact absurd rfl hl
  | read id data =>
    obtain ⟨m, _, rfl⟩ := Option.map_eq_some_iff.mp hs
    exact h
  | main =>
    obtain ⟨⟨c, m⟩, _, hs⟩ := Option.bind_eq_some_iff.mp hs
    obtain ⟨x, _, rfl⟩ := Option.map_eq_some_iff.mp hs
    cases c with
    | line id t =>
      simp only [State.run]
      split
      · exact h
      · exact h
    | exit id =>
      simp only [State.run]
      split
      · rename_i hgen
        intro hen host hh
        by_cases hsame : host = x.host
        · refine .inr ?_
          have hx : (⟨host, s.generation⟩ : Capture) = x := by
            rw [hsame, hgen]
          simp [State.retry, State.setStatus, hx]
        · rcases h hen host hh with hrun | hretry
          · exact .inl (by simpa [State.retry, State.setStatus, AList.lookup_erase_ne hsame] using hrun)
          · exact .inr (List.mem_append_left _ hretry)
      · exact h
  | fire i launches =>
    obtain ⟨c, hc, rfl⟩ := Option.map_eq_some_iff.mp hs
    unfold State.fire
    split
    · rename_i hgo
      intro _ host hh
      rw [(start_hosts _ c.host launches).1] at hh
      by_cases hsame : host = c.host
      · rw [hsame]
        exact start_covers _ c.host launches
      · apply start_keeps
        rcases h hgo.2 host hh with hrun | hretry
        · exact .inl hrun
        · refine .inr ?_
          obtain ⟨j, hj⟩ := List.getElem?_of_mem hretry
          have hij : j ≠ i := by
            rintro rfl
            rw [hc, Option.some.injEq] at hj
            exact hsame (by rw [hj])
          exact List.mem_eraseIdx_iff_getElem?.mpr ⟨j, hij, hj⟩
    · rename_i hno
      intro hen host hh
      rcases h hen host hh with hrun | hretry
      · exact .inl hrun
      · refine .inr ?_
        obtain ⟨j, hj⟩ := List.getElem?_of_mem hretry
        have hij : j ≠ i := by
          rintro rfl
          rw [hc, Option.some.injEq] at hj
          exact hno ⟨by rw [hj], hen⟩
        exact List.mem_eraseIdx_iff_getElem?.mpr ⟨j, hij, hj⟩

/-- A helper that was not told to end and whose end has not been heard is the one of its host, of a watched host with
automatic audio on. Unless the app has stopped it all, every watched host then has its helper or a retry. What is
shown for a host that has a helper is the last complete line it printed that the main thread has come to. -/
theorem helpers_are_supervised {enabled : Bool} {ls : List Label} {s : State}
    (hrun : exec step (init enabled) ls = some s) :
    (∀ (id : Nat) (c : Capture) (x : Stream), s.captures[id]? = some c → s.main.streams[id]? = some x →
      x.terminated = false → .exit id ∉ s.main.done →
        s.streams.lookup c.host = some id ∧ s.enabled = true ∧ c.host ∈ s.hosts) ∧
    ((∀ l ∈ ls, l ≠ .stop) → s.enabled = true → ∀ host ∈ s.hosts, Covered s host) ∧
    (∀ (host : String) (id : Nat), s.streams.lookup host = some id → s.statuses.lookup host = some (shown s.main id)) ∧
    (∀ (id : Nat) (x : Stream), s.main.streams[id]? = some x →
      s.main.said id <+: (closedParts Subprocess.endsLine x.output).map text ∧
      (.exit id ∈ s.main.done → s.main.said id = (closedParts Subprocess.endsLine x.output).map text ∧ x.ended = true)) := by
  have hinv : Inv s := exec_inv (fun _ _ _ hs hi => inv_step hi hs) hrun (inv_init enabled)
  refine ⟨?_, ?_, hinv.said, ?_⟩
  · intro id c x hc hx ht he
    by_cases hgen : c.expected = s.generation
    · have hl := hinv.current id c.host (by rw [← hgen]; exact hc) he
      obtain ⟨_, _, _, hen, hin⟩ := hinv.listed c.host id hl
      exact ⟨hl, hen, hin⟩
    · rcases hinv.ended id c x hc hgen hx with hterminated | hdone
      · rw [ht] at hterminated
        cases hterminated
      · exact absurd hdone he
  · intro hstop
    have hmeets : Meets step (fun _ l => l ≠ .stop) (init enabled) ls := meets_of_mem fun l hl _ => hstop l hl
    refine exec_inv_of_meets (I := AllCovered) (fun _ _ _ hl hs hi => covered_step hl hi hs) hmeets hrun ?_
    intro _ host hh
    cases hh
  · intro id x hx
    exact ⟨hinv.faithful.said_lines hx, hinv.faithful.said_all hx⟩

/-- A helper prints a line in two pieces and ends. -/
def oneLine : List Label :=
  [.watch "host" true, .read 0 [79], .read 0 [75, 10], .main, .read 0 [], .main]

theorem helpers_are_supervised_one_line :
    ∃ s, exec step (init true) oneLine = some s ∧ s.statuses.lookup "host" = some stopped ∧ Covered s "host" ∧
      s.main.said 0 = ["OK"] := by
  obtain ⟨s, hs⟩ := Option.isSome_iff_exists.mp (show (exec step (init true) oneLine).isSome = true by decide +kernel)
  have hstate : (exec step (init true) oneLine).map (fun s => (s.enabled, s.hosts, s.statuses.lookup "host")) =
      some (true, ["host"], some stopped) := by
    decide +kernel
  have hmain : (exec step (init true) oneLine).map (fun s => s.main) =
      some ⟨[⟨[], true, false, [79, 75, 10]⟩], [], [.line 0 (text [79, 75]), .exit 0]⟩ := by
    decide +kernel
  rw [hs, Option.map_some, Option.some.injEq] at hstate hmain
  simp only [Prod.mk.injEq] at hstate
  obtain ⟨hen, hhosts, hstatus⟩ := hstate
  obtain ⟨_, hcovered, _, hlines⟩ := helpers_are_supervised hs
  have hx : s.main.streams[0]? = some ⟨[], true, false, [79, 75, 10]⟩ := by rw [hmain]; rfl
  have hsaid := ((hlines 0 _ hx).2 (by rw [hmain]; simp)).1
  refine ⟨s, hs, hstatus, hcovered ?_ hen "host" (by simp [hhosts]), ?_⟩
  · intro l hl
    simp only [oneLine, List.mem_cons, List.not_mem_nil, or_false] at hl
    rcases hl with rfl | rfl | rfl | rfl | rfl | rfl <;> simp
  · rw [hsaid]
    decide +kernel

end Mux.AutomaticAudio
