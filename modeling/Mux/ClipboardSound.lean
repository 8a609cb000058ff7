import Mux.Clipboard
import Mux.Lib.Count

/-!
# Nothing passes the clipboard unasked

Every ask of the core is answered once as long as its pane is there, and with a confirmation only after somebody has
accepted the sheet that showed it; what is handed over then is what the core had asked about. A pane has one sheet at
a time.
-/

namespace Mux.Clipboard

open Lib

/-! ## What is kept -/

/-- How often an ask is waiting or answered. -/
def State.pending (s : State) (job : Job) : Nat := s.queue.count job + (s.sheets.map (·.job)).count job

def State.answered (s : State) (k : Nat) : Nat := (s.answers.map (·.1)).count k

/-- The sheet shows the job it decides. -/
def State.Shows (s : State) (sheet : Sheet) : Prop := s.prompt sheet.job = some (sheet.view, sheet.prompt)

/-- `taken` are jobs that are neither with the main thread nor on a sheet at the moment. -/
structure Inv (taken : List Job) (s : State) : Prop where
  active : ∀ v, s.active v = true ↔ v ∈ s.sheets.map (·.view)
  apart : (s.sheets.map (·.view)).Nodup
  shows : ∀ sheet ∈ s.sheets ++ s.approved, s.Shows sheet
  queued : ∀ job ∈ s.queue, (s.prompt job).isSome = true
  viewed : ∀ job v p, s.prompt job = some (v, p) → v < s.views.length
  known : ∀ x ∈ s.answers, x.1 < s.asks.length
  once : ∀ k a, s.asks[k]? = some a → taken.count (.ask k) + s.pending (.ask k) + s.answered k = 1 ∨
    taken.count (.ask k) + s.pending (.ask k) + s.answered k = 0 ∧ s.surface a.view = false
  answers : ∀ k cs av c r, (k, Answer.complete cs av c r) ∈ s.answers →
    ∃ sheet ∈ s.approved, sheet.job = .ask k ∧ ∃ a, s.asks[k]? = some a ∧ cs = a.confirm.contents ∧
      av = a.confirm.available ∧ (r = true → a.confirm.canRemember = true)
  written : ∀ k location cs, (some k, location, cs) ∈ s.written →
    ∃ sheet ∈ s.approved, sheet.job = .write k ∧ ∃ w, s.writes[k]? = some w ∧ location = w.location ∧ cs = [w.item]
  texts : ∀ w ∈ s.writes, w.item.string = some w.text

theorem inv_init : Inv [] init where
  active v := by simp [State.active, init]
  apart := .nil
  shows sheet hs := by cases hs
  queued job hj := by cases hj
  viewed job v p h := by cases job <;> simp [State.prompt, init] at h
  known x hx := by cases hx
  once k a ha := by simp [init] at ha
  answers k cs av c r h := by cases h
  written k location cs h := by cases h
  texts w hw := by cases hw

/-! ## Views -/

theorem active_setActive {s : State} {v : Nat} {b : Bool} (hv : v < s.views.length) (u : Nat) :
    (s.setActive v b).active u = if u = v then b else s.active u := by
  unfold State.setActive State.active
  rw [List.getElem?_modify]
  by_cases hu : v = u
  · subst hu
    simp [List.getElem?_eq_getElem hv]
  · simp [hu, Ne.symm hu]

theorem surface_setActive (s : State) (v : Nat) (b : Bool) (u : Nat) : (s.setActive v b).surface u = s.surface u := by
  unfold State.setActive State.surface
  rw [List.getElem?_modify]
  cases s.views[u]? with
  | none => rfl
  | some x =>
    by_cases hu : v = u <;> simp [hu]

theorem lt_of_surface {s : State} {v : Nat} (h : s.surface v = true) : v < s.views.length := by
  unfold State.surface at h
  cases hx : s.views[v]? with
  | none => simp [hx] at h
  | some x => exact lt_of_getElem?_some hx

/-! ## Decisions -/

/-- A job is decided; a sheet was accepted for it if the decision is yes. -/
theorem inv_decide {s : State} {job : Job} {confirmed remember : Bool} (h : Inv [job] s)
    (happroved : confirmed = true → ∃ sheet ∈ s.approved, sheet.job = job ∧
      (remember = true → sheet.prompt.canRemember = true)) : Inv [] (s.decide job confirmed remember) := by
  cases job with
  | write k =>
    have hsame : Inv [] s := { h with once := by simpa using h.once }
    cases hw : s.writes[k]? with
    | none =>
      simp only [State.decide, hw]
      exact hsame
    | some w =>
      simp only [State.decide, hw]
      split
      · rename_i hc
        refine { hsame with written := ?_ }
        intro j location cs hmem
        rcases List.mem_append.mp hmem with hmem | hmem
        · exact h.written j location cs hmem
        · cases List.mem_singleton.mp hmem
          obtain ⟨sheet, hsheet, hjob, _⟩ := happroved hc
          exact ⟨sheet, hsheet, hjob, w, hw, rfl, rfl⟩
      · exact hsame
  | ask k =>
    cases ha : s.asks[k]? with
    | none =>
      simp only [State.decide, ha]
      refine { h with once := ?_ }
      intro j a hj
      have hne : k ≠ j := by
        rintro rfl
        rw [ha] at hj
        cases hj
      simpa [hne] using h.once j a hj
    | some a =>
      simp only [State.decide, ha]
      split
      · -- The pane is there: this is the answer.
        refine { h with known := ?_, once := ?_, answers := ?_ }
        · intro x hx
          rcases List.mem_append.mp hx with hx | hx
          · exact h.known x hx
          · obtain rfl := List.mem_singleton.mp hx
            exact (List.getElem?_eq_some_iff.mp ha).1
        · intro j b hj
          have honce := h.once j b hj
          have hanswered (x : Answer) : (s.answer k x).answered j = s.answered j + if k = j then 1 else 0 := by
            simp [State.answered, State.answer, List.count_cons]
          have hpending (x : Answer) : (s.answer k x).pending (.ask j) = s.pending (.ask j) := rfl
          have hsurface (x : Answer) : (s.answer k x).surface b.view = s.surface b.view := rfl
          rw [hanswered, hpending, hsurface]
          by_cases hkj : k = j
          · subst hkj
            simp only [List.count_cons_self, List.count_nil, if_true] at honce ⊢
            refine .inl ?_
            omega
          · simpa [hkj] using honce
        · intro j cs av c r hmem
          rcases List.mem_append.mp hmem with hmem | hmem
          · exact h.answers j cs av c r hmem
          · have heq := List.mem_singleton.mp hmem
            cases hc : confirmed with
            | false => simp [hc] at heq
            | true =>
              simp only [hc, if_true, Prod.mk.injEq, Answer.complete.injEq] at heq
              obtain ⟨rfl, rfl, rfl, rfl, rfl⟩ := heq
              obtain ⟨sheet, hsheet, hjob, hremember⟩ := happroved hc
              refine ⟨sheet, hsheet, hjob, a, ha, rfl, rfl, ?_⟩
              intro hr
              have hshows := h.shows sheet (List.mem_append_right _ hsheet)
              rw [State.Shows, hjob, State.prompt, ha, Option.map_some, Option.some.injEq, Prod.mk.injEq] at hshows
              rw [← hremember hr, ← hshows.2]
              rfl
      · -- The pane is gone, and with it whoever waits for the answer.
        rename_i hsurface
        refine { h with once := ?_ }
        intro j b hj
        by_cases hkj : k = j
        · subst hkj
          rw [ha, Option.some.injEq] at hj
          subst hj
          have honce := h.once k a ha
          simp only [List.count_cons_self, List.count_nil] at honce ⊢
          exact .inr ⟨by omega, by simpa using hsurface⟩
        · simpa [hkj] using h.once j b hj

theorem inv_present {s : State} {job : Job} {v : Nat} {p : ClipboardPrompt} (h : Inv [job] s)
    (hp : s.prompt job = some (v, p)) : Inv [] (s.presentClipboardConfirmation v p job) := by
  unfold State.presentClipboardConfirmation
  split
  · exact inv_decide h (by simp)
  · rename_i hactive
    have hv := h.viewed job v p hp
    have hnew : v ∉ s.sheets.map (·.view) := fun hin => hactive ((h.active v).mpr hin)
    refine { h with active := ?_, apart := ?_, shows := ?_, viewed := ?_, once := ?_ }
    · intro u
      rw [active_setActive (s := { s with sheets := s.sheets ++ [⟨v, job, p⟩] }) hv]
      simp only [State.setActive, List.map_append, List.map_cons, List.map_nil, List.mem_append, List.mem_singleton]
      by_cases hu : u = v
      · simp [hu]
      · simp only [hu, if_false, or_false]
        exact h.active u
    · simp only [State.setActive, List.map_append, List.map_cons, List.map_nil]
      exact List.nodup_append.mpr ⟨h.apart, by simp, by
        intro a ha b hb
        rintro rfl
        exact hnew (List.mem_singleton.mp hb ▸ ha)⟩
    · intro sheet hsheet
      rcases List.mem_append.mp hsheet with hsheet | hsheet
      · rcases List.mem_append.mp hsheet with hsheet | hsheet
        · exact h.shows sheet (List.mem_append_left _ hsheet)
        · obtain rfl := List.mem_singleton.mp hsheet
          exact hp
      · exact h.shows sheet (List.mem_append_right _ hsheet)
    · intro j u q hj
      simp only [State.setActive, List.length_modify]
      exact h.viewed j u q hj
    · intro k a ha
      have honce := h.once k a ha
      rw [surface_setActive]
      have hcount : State.pending (State.setActive { s with sheets := s.sheets ++ [⟨v, job, p⟩] } v true) (.ask k) =
          s.pending (.ask k) + [job].count (.ask k) := by
        simp only [State.pending, State.setActive, List.map_append, List.map_cons, List.map_nil, List.count_append]
        omega
      rw [hcount]
      have hrest : State.answered (State.setActive { s with sheets := s.sheets ++ [⟨v, job, p⟩] } v true) k =
          s.answered k := rfl
      rw [hrest]
      rcases honce with honce | ⟨honce, hgone⟩
      · refine .inl ?_
        simp only [List.count_nil]
        omega
      · refine .inr ⟨?_, hgone⟩
        simp only [List.count_nil]
        omega

theorem inv_main {s : State} {job : Job} {queue : List Job} {v : Nat} {p : ClipboardPrompt} (h : Inv [] s)
    (hq : s.queue = job :: queue) (hp : s.prompt job = some (v, p)) :
    Inv [] (({ s with queue := queue } : State).presentClipboardConfirmation v p job) := by
  refine inv_present { h with queued := ?_, once := ?_ } hp
  · intro j hj
    exact h.queued j (by rw [hq]; exact List.mem_cons_of_mem _ hj)
  · intro k a ha
    have honce := h.once k a ha
    have hcount : s.pending (.ask k) = State.pending { s with queue := queue } (.ask k) + [job].count (.ask k) := by
      simp only [State.pending, hq, List.count_cons, List.count_nil]
      omega
    rw [hcount] at honce
    rcases honce with honce | ⟨honce, hgone⟩
    · refine .inl ?_
      simp only [List.count_nil] at honce
      change _ + _ + s.answered k = 1
      omega
    · refine .inr ⟨?_, hgone⟩
      simp only [List.count_nil] at honce
      change _ + _ + s.answered k = 0
      omega

/-! ## Sheets -/

theorem inv_finish {s : State} {i : Nat} {sheet : Sheet} (h : Inv [] s) (hs : s.sheets[i]? = some sheet)
    (accept suppress : Bool) :
    Inv [] (({ s with sheets := s.sheets.eraseIdx i } : State).finish sheet accept suppress) := by
  have hshows := h.shows sheet (List.mem_append_left _ (List.mem_of_getElem? hs))
  have hv := h.viewed sheet.job sheet.view sheet.prompt hshows
  unfold State.finish
  refine inv_decide ?_ ?_
  · refine
      { active := ?_
        apart := ?_
        shows := ?_
        queued := h.queued
        viewed := ?_
        known := h.known
        once := ?_
        answers := ?_
        written := ?_
        texts := h.texts }
    · intro u
      have hactive := active_setActive (s := { s with sheets := s.sheets.eraseIdx i }) (b := false) hv u
      have hmem := mem_map_eraseIdx h.apart hs u
      change (State.setActive { s with sheets := s.sheets.eraseIdx i } sheet.view false).active u = true ↔
        u ∈ (s.sheets.eraseIdx i).map (·.view)
      rw [hactive, hmem]
      by_cases hu : u = sheet.view
      · simp [hu]
      · simp only [hu, if_false, ne_eq, not_false_eq_true, and_true]
        exact h.active u
    · exact h.apart.sublist ((List.eraseIdx_sublist _ _).map _)
    · intro x hx
      rcases List.mem_append.mp hx with hx | hx
      · exact h.shows x (List.mem_append_left _ ((List.eraseIdx_sublist _ _).subset hx))
      · cases accept with
        | false => exact h.shows x (List.mem_append_right _ hx)
        | true =>
          rcases List.mem_append.mp hx with hx | hx
          · exact h.shows x (List.mem_append_right _ hx)
          · obtain rfl := List.mem_singleton.mp hx
            exact hshows
    · intro j u q hj
      simp only [State.setActive, List.length_modify]
      exact h.viewed j u q hj
    · intro k a ha
      have honce := h.once k a ha
      have hcount := count_map_eraseIdx (f := fun x : Sheet => x.job) hs (.ask k)
      have hsurface := surface_setActive { s with sheets := s.sheets.eraseIdx i } sheet.view false a.view
      change
        [sheet.job].count (.ask k) +
            (s.queue.count (.ask k) + ((s.sheets.eraseIdx i).map (·.job)).count (.ask k)) + s.answered k = 1 ∨
        [sheet.job].count (.ask k) +
            (s.queue.count (.ask k) + ((s.sheets.eraseIdx i).map (·.job)).count (.ask k)) + s.answered k = 0 ∧
          (State.setActive { s with sheets := s.sheets.eraseIdx i } sheet.view false).surface a.view = false
      rw [hsurface]
      unfold State.pending at honce
      simp only [List.count_nil] at honce
      rcases honce with honce | ⟨honce, hgone⟩
      · exact .inl (by omega)
      · exact .inr ⟨by omega, hgone⟩
    · intro k cs av c r hmem
      obtain ⟨x, hx, hrest⟩ := h.answers k cs av c r hmem
      refine ⟨x, ?_, hrest⟩
      cases accept with
      | false => exact hx
      | true => exact List.mem_append_left _ hx
    · intro k location cs hmem
      obtain ⟨x, hx, hrest⟩ := h.written k location cs hmem
      refine ⟨x, ?_, hrest⟩
      cases accept with
      | false => exact hx
      | true => exact List.mem_append_left _ hx
  · intro hc
    subst hc
    refine ⟨sheet, List.mem_append_right _ (List.mem_singleton.mpr rfl), rfl, ?_⟩
    intro hr
    exact (Bool.and_eq_true_iff.mp hr).1

/-! ## Panes -/

theorem inv_view {s : State} (h : Inv [] s) :
    Inv [] { s with views := s.views ++ [{ surface := true, clipboardConfirmationActive := false }] } := by
  have hsheet (v : Nat) (hv : v ∈ s.sheets.map (·.view)) : v < s.views.length := by
    obtain ⟨sheet, hsheet, rfl⟩ := List.mem_map.mp hv
    exact h.viewed _ _ _ (h.shows sheet (List.mem_append_left _ hsheet))
  refine { h with active := ?_, viewed := ?_, once := ?_ }
  · intro v
    by_cases hv : v < s.views.length
    · have hactive := h.active v
      unfold State.active at hactive ⊢
      rwa [List.getElem?_append_left hv]
    · refine iff_of_false ?_ fun hin => hv (hsheet v hin)
      unfold State.active
      rw [List.getElem?_append_right (Nat.not_lt.mp hv)]
      cases v - s.views.length <;> simp
  · intro job v p hj
    have hv := h.viewed job v p hj
    rw [List.length_append]
    exact Nat.lt_add_right _ hv
  · intro k a ha
    refine (h.once k a ha).imp id fun ⟨honce, hgone⟩ => ⟨honce, ?_⟩
    have hv : a.view < s.views.length := by
      refine h.viewed (.ask k) a.view a.confirm.prompt ?_
      rw [State.prompt, ha, Option.map_some]
    unfold State.surface at hgone ⊢
    rwa [List.getElem?_append_left hv]

theorem inv_destroySurface {s : State} (h : Inv [] s) (v : Nat) :
    Inv [] { s with views := s.views.modify v fun x => { x with surface := false } } := by
  refine { h with active := ?_, viewed := ?_, once := ?_ }
  · intro u
    rw [← h.active u]
    unfold State.active
    rw [List.getElem?_modify]
    cases s.views[u]? with
    | none => rfl
    | some x =>
      by_cases hu : v = u <;> simp [hu]
  · intro job u p hj
    rw [List.length_modify]
    exact h.viewed job u p hj
  · intro k a ha
    refine (h.once k a ha).imp id fun ⟨honce, hgone⟩ => ⟨honce, ?_⟩
    unfold State.surface at hgone ⊢
    rw [List.getElem?_modify]
    cases hx : s.views[a.view]? with
    | none => rfl
    | some x =>
      rw [hx] at hgone
      by_cases hu : v = a.view
      · simp [hu]
      · simpa [hu] using hgone

/-! ## Calls of the core -/

theorem prompt_of_prefix {s t : State} {job : Job} {x : Nat × ClipboardPrompt} (hasks : s.asks <+: t.asks)
    (hwrites : s.writes <+: t.writes) (h : s.prompt job = some x) : t.prompt job = some x := by
  cases job with
  | ask k =>
    obtain ⟨a, ha, hx⟩ := Option.map_eq_some_iff.mp h
    refine Option.map_eq_some_iff.mpr ⟨a, ?_, hx⟩
    obtain ⟨rest, hrest⟩ := hasks
    rw [← hrest, List.getElem?_append_left (lt_of_getElem?_some ha), ha]
  | write k =>
    obtain ⟨w, hw, hx⟩ := Option.map_eq_some_iff.mp h
    refine Option.map_eq_some_iff.mpr ⟨w, ?_, hx⟩
    obtain ⟨rest, hrest⟩ := hwrites
    rw [← hrest, List.getElem?_append_left (lt_of_getElem?_some hw), hw]

theorem lt_of_prompt {s : State} {k : Nat} {x : Nat × ClipboardPrompt} (h : s.prompt (.ask k) = some x) :
    k < s.asks.length := by
  obtain ⟨a, ha, _⟩ := Option.map_eq_some_iff.mp h
  exact lt_of_getElem?_some ha

/-- The number of the next ask is not in use. -/
theorem fresh {taken : List Job} {s : State} (h : Inv taken s) :
    s.pending (.ask s.asks.length) = 0 ∧ s.answered s.asks.length = 0 := by
  have hqueue : s.queue.count (.ask s.asks.length) = 0 := by
    refine List.count_eq_zero.mpr fun hin => ?_
    obtain ⟨x, hx⟩ := Option.isSome_iff_exists.mp (h.queued _ hin)
    exact Nat.lt_irrefl _ (lt_of_prompt hx)
  have hsheets : (s.sheets.map (·.job)).count (.ask s.asks.length) = 0 := by
    refine List.count_eq_zero.mpr fun hin => ?_
    obtain ⟨sheet, hsheet, hjob⟩ := List.mem_map.mp hin
    have hshows := h.shows sheet (List.mem_append_left _ hsheet)
    rw [State.Shows, hjob] at hshows
    exact Nat.lt_irrefl _ (lt_of_prompt hshows)
  refine ⟨by rw [State.pending, hqueue, hsheets], List.count_eq_zero.mpr fun hin => ?_⟩
  obtain ⟨x, hx, hk⟩ := List.mem_map.mp hin
  exact Nat.lt_irrefl _ (hk ▸ h.known x hx)

theorem inv_ask {s : State} {a : Ask} (h : Inv [] s) (hsurface : s.surface a.view = true) :
    Inv [.ask s.asks.length] { s with asks := s.asks ++ [a] } := by
  have hold {job : Job} {x : Nat × ClipboardPrompt} (hj : s.prompt job = some x) :
      State.prompt { s with asks := s.asks ++ [a] } job = some x :=
    prompt_of_prefix (List.prefix_append _ _) List.prefix_rfl hj
  refine { h with shows := ?_, queued := ?_, viewed := ?_, known := ?_, once := ?_, answers := ?_ }
  · intro sheet hsheet
    exact hold (h.shows sheet hsheet)
  · intro job hj
    obtain ⟨x, hx⟩ := Option.isSome_iff_exists.mp (h.queued job hj)
    rw [hold hx, Option.isSome_some]
  · intro job v p hj
    cases job with
    | write k => exact h.viewed (.write k) v p hj
    | ask k =>
      by_cases hk : k < s.asks.length
      · refine h.viewed (.ask k) v p ?_
        rwa [State.prompt, List.getElem?_append_left hk] at hj
      · -- The new one: its pane has a surface, so it is there.
        obtain ⟨b, hb, hx⟩ := Option.map_eq_some_iff.mp hj
        have hkeq : k = s.asks.length := by
          have := lt_of_getElem?_some hb
          rw [List.length_append, List.length_singleton] at this
          omega
        subst hkeq
        rw [List.getElem?_concat_length, Option.some.injEq] at hb
        subst hb
        rw [Prod.mk.injEq] at hx
        exact hx.1 ▸ lt_of_surface hsurface
  · intro x hx
    rw [List.length_append]
    exact Nat.lt_add_right _ (h.known x hx)
  · intro k b hb
    by_cases hk : k < s.asks.length
    · rw [List.getElem?_append_left hk] at hb
      have hne : [Job.ask s.asks.length].count (.ask k) = 0 := by
        rw [List.count_singleton, beq_eq_false_iff_ne.mpr (by simp; omega)]
        rfl
      have honce := h.once k b hb
      rw [hne]
      exact honce
    · have hkeq : k = s.asks.length := by
        have := lt_of_getElem?_some hb
        rw [List.length_append, List.length_singleton] at this
        omega
      subst hkeq
      obtain ⟨hpending, hanswered⟩ := fresh h
      refine .inl ?_
      rw [List.count_singleton_self]
      change 1 + s.pending _ + s.answered _ = 1
      rw [hpending, hanswered]
  · intro k cs av c r hmem
    obtain ⟨sheet, hsheet, hjob, b, hb, hrest⟩ := h.answers k cs av c r hmem
    refine ⟨sheet, hsheet, hjob, b, ?_, hrest⟩
    rw [List.getElem?_append_left (lt_of_getElem?_some hb), hb]

theorem inv_write {s : State} {w : Write} (h : Inv [] s) (hv : w.view < s.views.length)
    (htext : w.item.string = some w.text) :
    Inv [.write s.writes.length] { s with writes := s.writes ++ [w] } := by
  have hold {job : Job} {x : Nat × ClipboardPrompt} (hj : s.prompt job = some x) :
      State.prompt { s with writes := s.writes ++ [w] } job = some x :=
    prompt_of_prefix (s := s) List.prefix_rfl (List.prefix_append _ _) hj
  refine { h with shows := ?_, queued := ?_, viewed := ?_, once := ?_, written := ?_, texts := ?_ }
  · intro sheet hsheet
    exact hold (h.shows sheet hsheet)
  · intro job hj
    obtain ⟨x, hx⟩ := Option.isSome_iff_exists.mp (h.queued job hj)
    rw [hold hx, Option.isSome_some]
  · intro job v p hj
    cases job with
    | ask k => exact h.viewed (.ask k) v p hj
    | write k =>
      obtain ⟨x, hx, hview⟩ := Option.map_eq_some_iff.mp hj
      rcases List.mem_append.mp (List.mem_of_getElem? hx) with hin | hin
      · obtain ⟨j, hj⟩ := List.getElem?_of_mem hin
        have := h.viewed (.write j) x.view _ (by rw [State.prompt, hj, Option.map_some])
        rw [Prod.mk.injEq] at hview
        exact hview.1 ▸ this
      · cases List.mem_singleton.mp hin
        rw [Prod.mk.injEq] at hview
        exact hview.1 ▸ hv
  · intro k a ha
    have hne : [Job.write s.writes.length].count (.ask k) = 0 := by simp
    rw [hne]
    exact h.once k a ha
  · intro k location cs hmem
    obtain ⟨sheet, hsheet, hjob, x, hx, hrest⟩ := h.written k location cs hmem
    refine ⟨sheet, hsheet, hjob, x, ?_, hrest⟩
    rw [List.getElem?_append_left (lt_of_getElem?_some hx), hx]
  · intro x hx
    rcases List.mem_append.mp hx with hx | hx
    · exact h.texts x hx
    · cases List.mem_singleton.mp hx
      exact htext

/-- A job goes to the main thread. -/
theorem inv_queue {s : State} {job : Job} (h : Inv [job] s) (hp : (s.prompt job).isSome = true) :
    Inv [] { s with queue := s.queue ++ [job] } := by
  refine { h with queued := ?_, once := ?_ }
  · intro j hj
    rcases List.mem_append.mp hj with hj | hj
    · exact h.queued j hj
    · cases List.mem_singleton.mp hj
      exact hp
  · intro k a ha
    have honce := h.once k a ha
    have hpending : State.pending { s with queue := s.queue ++ [job] } (.ask k) =
        [job].count (.ask k) + s.pending (.ask k) := by
      simp only [State.pending, List.count_append]
      omega
    rw [hpending, List.count_nil, Nat.zero_add]
    exact honce

theorem inv_confirmRead {s : State} (h : Inv [] s) (v : Nat) (confirm : Option Confirm) :
    Inv [] (s.confirmReadClipboard v confirm) := by
  unfold State.confirmReadClipboard
  split
  · rename_i hsurface
    cases confirm with
    | none =>
      -- A null pointer is refused on the spot.
      let c : Confirm := { contents := [], available := [], name := none, canRemember := false, request := .paste }
      have hask := inv_ask (a := { view := v, confirm := c }) h hsurface
      have hdecide : Inv [] (State.decide { s with asks := s.asks ++ [⟨v, c⟩] } (.ask s.asks.length) false false) :=
        inv_decide hask (by simp)
      simp only [State.decide, List.getElem?_concat_length] at hdecide
      rwa [if_pos (by exact hsurface)] at hdecide
    | some c =>
      have hask := inv_ask (a := { view := v, confirm := c }) h hsurface
      exact inv_queue hask (by simp [State.prompt])
  · exact h

theorem inv_writeClipboard {s : State} (h : Inv [] s) {v : Nat} (hv : v < s.views.length) (location : Location)
    (items : List Content) (confirm : Bool) : Inv [] (s.writeClipboard v location items confirm) := by
  unfold State.writeClipboard
  split
  · split
    · -- What the policy allows is written at once, and is nobody's job.
      refine { h with written := ?_ }
      intro k loc cs hmem
      rcases List.mem_append.mp hmem with hmem | hmem
      · exact h.written k loc cs hmem
      · cases List.mem_singleton.mp hmem
    · split
      · exact h
      · split
        · exact h
        · rename_i textPlain _ _ text htext
          have hwrite := inv_write (w := { view := v, location := location, item := textPlain, text := text })
            h hv htext
          exact inv_queue hwrite (by simp [State.prompt])
  · exact h

theorem inv_step {s s' : State} {label : Label} (hs : step s label = some s') (h : Inv [] s) : Inv [] s' := by
  cases label with
  | view =>
    cases hs
    exact inv_view h
  | destroySurface v =>
    cases hs
    exact inv_destroySurface h v
  | confirmRead v confirm =>
    cases hs
    exact inv_confirmRead h v confirm
  | write v location items confirm =>
    rw [step, Option.ite_none_right_eq_some] at hs
    obtain ⟨hv, hs⟩ := hs
    cases hs
    exact inv_writeClipboard h hv location items confirm
  | main =>
    cases hq : s.queue with
    | nil => simp [step, hq] at hs
    | cons job queue =>
      simp only [step, hq] at hs
      obtain ⟨⟨v, p⟩, hp, hs⟩ := Option.map_eq_some_iff.mp hs
      exact hs ▸ inv_main h hq hp
  | respond i accept suppress =>
    obtain ⟨sheet, hsheet, hs⟩ := Option.map_eq_some_iff.mp hs
    exact hs ▸ inv_finish h hsheet accept suppress

theorem inv_run {run : List Label} {s : State} (h : exec step init run = some s) : Inv [] s :=
  exec_inv (fun _ _ _ hs hi => inv_step hs hi) h inv_init

/-! ## Asked first -/

/-- In every run an ask is on its way to an answer or has one, never two, and it loses its place only with its pane.
What is handed over for it was on a sheet that was accepted, and so was the text that a confirmed write puts on the
pasteboard. A pane has one sheet at a time. -/
theorem nothing_passes_unasked {run : List Label} {s : State} (h : exec step init run = some s) :
    (∀ k a, s.asks[k]? = some a → s.pending (.ask k) + s.answered k ≤ 1 ∧
      (s.surface a.view = true → s.pending (.ask k) + s.answered k = 1)) ∧
    (∀ k cs av c r, (k, Answer.complete cs av c r) ∈ s.answers → ∃ sheet ∈ s.approved, sheet.job = .ask k ∧
      ∃ a, s.asks[k]? = some a ∧ sheet.view = a.view ∧ sheet.prompt = a.confirm.prompt ∧
        cs = a.confirm.contents ∧ av = a.confirm.available ∧ (r = true → a.confirm.canRemember = true)) ∧
    (∀ k location cs, (some k, location, cs) ∈ s.written → ∃ sheet ∈ s.approved, sheet.job = .write k ∧
      ∃ w, s.writes[k]? = some w ∧ sheet.view = w.view ∧ w.item.string = some sheet.prompt.display ∧
        location = w.location ∧ cs = [w.item]) ∧
    (s.sheets.map (·.view)).Nodup := by
  have hinv := inv_run h
  refine ⟨?_, ?_, ?_, hinv.apart⟩
  · intro k a ha
    have honce := hinv.once k a ha
    rw [List.count_nil, Nat.zero_add] at honce
    rcases honce with honce | ⟨honce, hgone⟩
    · exact ⟨Nat.le_of_eq honce, fun _ => honce⟩
    · refine ⟨by omega, fun hsurface => ?_⟩
      rw [hgone] at hsurface
      cases hsurface
  · intro k cs av c r hmem
    obtain ⟨sheet, hsheet, hjob, a, ha, hrest⟩ := hinv.answers k cs av c r hmem
    have hshows := hinv.shows sheet (List.mem_append_right _ hsheet)
    rw [State.Shows, hjob, State.prompt, ha, Option.map_some, Option.some.injEq, Prod.mk.injEq] at hshows
    exact ⟨sheet, hsheet, hjob, a, ha, hshows.1.symm, hshows.2.symm, hrest⟩
  · intro k location cs hmem
    obtain ⟨sheet, hsheet, hjob, w, hw, hrest⟩ := hinv.written k location cs hmem
    have hshows := hinv.shows sheet (List.mem_append_right _ hsheet)
    rw [State.Shows, hjob, State.prompt, hw, Option.map_some, Option.some.injEq, Prod.mk.injEq] at hshows
    refine ⟨sheet, hsheet, hjob, w, hw, hshows.1.symm, ?_, hrest⟩
    rw [← hshows.2]
    exact hinv.texts w (List.mem_of_getElem? hw)

def hello : Content where
  mime := "text/plain"
  data := [104, 105]

/-- While a read is asked about, a write finds the sheet in its way; a second one comes after it. -/
def readThenWrite : List Label :=
  [.view, .confirmRead 0 (some ⟨[hello], ["text/plain"], some "vim", true, .osc52Read⟩),
    .write 0 .standard [hello] true, .main, .main, .respond 0 true true, .write 0 .selection [hello] true, .main,
    .respond 0 true true]

theorem nothing_passes_unasked_read_then_write :
    ∃ s, exec step init readThenWrite = some s ∧
      s.answers = [(0, .complete [hello] ["text/plain"] true true)] ∧
      s.written = [(some 1, .selection, [hello])] ∧
      (∃ sheet ∈ s.approved, sheet.job = .ask 0) ∧ ∃ sheet ∈ s.approved, sheet.job = .write 1 := by
  obtain ⟨s, hs⟩ := Option.isSome_iff_exists.mp (show (exec step init readThenWrite).isSome = true by decide +kernel)
  have hstate : (exec step init readThenWrite).map (fun s => (s.answers, s.written)) =
      some ([(0, .complete [hello] ["text/plain"] true true)], [(some 1, .selection, [hello])]) := by
    decide +kernel
  rw [hs, Option.map_some, Option.some.injEq, Prod.mk.injEq] at hstate
  obtain ⟨hanswers, hwritten⟩ := hstate
  obtain ⟨_, hcomplete, hconfirmed, _⟩ := nothing_passes_unasked hs
  refine ⟨s, hs, hanswers, hwritten, ?_, ?_⟩
  · obtain ⟨sheet, hsheet, hjob, _⟩ := hcomplete 0 _ _ _ _ (by rw [hanswers]; exact .head _)
    exact ⟨sheet, hsheet, hjob⟩
  · obtain ⟨sheet, hsheet, hjob, _⟩ := hconfirmed 1 _ _ (by rw [hwritten]; exact .head _)
    exact ⟨sheet, hsheet, hjob⟩

end Mux.Clipboard
