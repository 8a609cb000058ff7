import Mux.AudioLeaseInv

/-!
# Route leases hold

The users of a route are its live leases, a pane has one open route, and a route that a lease
still uses does not expire under it.
-/

namespace Mux.AudioLease

open Lib

/-! ## The task of a route -/

theorem checkStep_frame (r : Route) (c : Check) (a b d e : Bool) :
    (r.checkStep c a b d e).users = r.users ∧ (r.checkStep c a b d e).name = r.name ∧
      (r.checkStep c a b d e).opened = r.opened ∧ (r.checkStep c a b d e).serving = r.serving ∧
      (r.checkStep c a b d e).permit = r.permit := by
  cases c <;> simp only [Route.checkStep] <;> split <;> exact ⟨rfl, rfl, rfl, rfl, rfl⟩

theorem RouteOk.check {s : State} {k p : Nat} {r : Route} {m : Permit} {c : Check} {ripe : Bool} (hi : Inv s)
    (hk : s.registry.routes[k]? = some r) (hc : r.check = some c) (hp : r.permit = some p)
    (hm : s.permits[p]? = some m) :
    RouteOk s k (r.checkStep c (s.connected m.provider) m.valid m.claimed ripe) := by
  have h := hi.routes hk
  have he : r.expired = none := by
    cases hx : r.expired with
    | none => rfl
    | some reason =>
      have := h.done (by simp [hx])
      rw [hc] at this
      cases this
  obtain ⟨_, _, _, _, hpermit⟩ := checkStep_frame r c (s.connected m.provider) m.valid m.claimed ripe
  have hsame : ∀ q m', r.permit = some q → s.permits[q]? = some m' → m' = m := by
    intro q m' hq hm'
    rw [hp] at hq
    cases hq
    rw [hm] at hm'
    exact (Option.some.inj hm').symm
  -- a check that goes on has nothing to say but what it has read
  have hgoes : ∀ c', (c' = .unclaimed → m.valid = false) → RouteOk s k { r with check := some c' } := by
    intro c' hc'
    refine ⟨h.permit_lt, ?_, ?_, ?_, ?_, ?_, ?_⟩
    · intro h0
      rw [show r.permit = none from h0] at hp
      cases hp
    · intro h0
      exact absurd he h0
    · intro h0 q m' hq hm'
      rw [hsame q m' hq hm']
      exact hc' (Option.some.inj h0)
    all_goals
      intro h0
      rw [show r.expired = _ from h0] at he
      cases he
  have hends : RouteOk s k { r with check := none } := by
    refine ⟨h.permit_lt, ?_, fun _ => rfl, ?_, ?_, ?_, ?_⟩
    · intro h0
      rw [show r.permit = none from h0] at hp
      cases hp
    · intro h0
      cases h0
    all_goals
      intro h0
      rw [show r.expired = _ from h0] at he
      cases he
  have hnone : ∀ x : Route, x.permit = r.permit → x.permit = none → x.check = none ∧ x.expired = none := by
    intro x hx h0
    rw [hx, hp] at h0
    cases h0
  cases c with
  | connected =>
    by_cases hconn : s.connected m.provider = true
    · simp only [Route.checkStep, hconn, if_true]
      exact hgoes _ (by simp)
    · simp only [Route.checkStep, hconn]
      refine ⟨h.permit_lt, hnone _ rfl, fun _ => rfl, by simp, ?_, by simp, by simp⟩
      intro _ q m' hq hm'
      obtain rfl := hsame q m' hq hm'
      have hlt := (hi.world.phases hm').1
      refine ⟨_, List.getElem?_eq_getElem hlt, ?_⟩
      simpa [State.connected, List.getElem?_eq_getElem hlt] using hconn
  | valid =>
    by_cases hv : m.valid = true
    · simp only [Route.checkStep, hv, if_true]
      exact hgoes _ (by simp)
    · simp only [Route.checkStep, hv]
      exact hgoes _ fun _ => by simpa using hv
  | unclaimed =>
    by_cases hcl : m.claimed = true
    · simp only [Route.checkStep, hcl, if_true]
      exact hgoes _ (by simp)
    · simp only [Route.checkStep, hcl]
      refine ⟨h.permit_lt, hnone _ rfl, fun _ => rfl, by simp, by simp, ?_, by simp⟩
      intro _ q m' hq hm'
      obtain rfl := hsame q m' hq hm'
      exact ⟨h.unclaimed hc q m' hq hm', by simpa using hcl⟩
  | claimed =>
    by_cases hcl : m.claimed = true
    · simp only [Route.checkStep, hcl, if_true]
      exact hgoes _ (by simp)
    · simp only [Route.checkStep, hcl]
      exact hends
  | users =>
    by_cases hu : r.users ≠ 0
    · simp only [Route.checkStep, if_pos hu]
      exact hends
    · simp only [Route.checkStep, if_neg hu]
      exact hgoes _ (by simp)
  | elapsed =>
    by_cases hr : ripe = true
    · simp only [Route.checkStep, hr, if_true]
      exact hgoes _ (by simp)
    · simp only [Route.checkStep, hr]
      exact hends
  | lock =>
    by_cases hu : r.users ≠ 0
    · simp only [Route.checkStep, if_pos hu]
      exact hends
    · simp only [Route.checkStep, if_neg hu]
      refine ⟨h.permit_lt, hnone _ rfl, fun _ => rfl, by simp, by simp, by simp, fun _ => ⟨rfl, ?_⟩⟩
      have := hi.registry.users hk
      omega

/-- What the task of a route does to it: nothing but the check, the receiver and its own `Arc`. -/
theorem stepRoute_spec {s : State} {k : Nat} {r r' : Route} {a : RouteAct} (hi : Inv s)
    (hk : s.registry.routes[k]? = some r) (h : s.stepRoute r a = some r') :
    RouteOk s k r' ∧ r'.users = r.users ∧ r'.name = r.name ∧ (r'.opened = true → r.opened = true ∧ r'.serving = true) ∧
      r'.permit = r.permit := by
  have hok := hi.routes hk
  cases a with
  | begin =>
    simp only [State.stepRoute] at h
    split at h
    · rename_i hc
      simp only [Bool.and_eq_true, Option.isNone_iff_eq_none] at hc
      cases h
      refine ⟨⟨hok.permit_lt, ?_, ?_, by simp, ?_, ?_, ?_⟩, rfl, rfl, fun ho => ⟨ho, (hi.registry.opened hk ho).1⟩, rfl⟩
      · intro h0
        rw [show r.permit = none from h0] at hc
        exact absurd hc.1.1.2 (by simp)
      · intro h0
        exact absurd hc.2 h0
      all_goals
        intro h0
        rw [show r.expired = _ from h0] at hc
        exact absurd hc.2 (by simp)
    · cases h
  | check ripe =>
    simp only [State.stepRoute] at h
    split at h
    · rename_i c m hc hm
      cases h
      obtain ⟨p, hp, hm⟩ := Option.bind_eq_some_iff.mp hm
      obtain ⟨hu, hn, ho, hs, hpm⟩ := checkStep_frame r c (s.connected m.provider) m.valid m.claimed ripe
      refine ⟨RouteOk.check hi hk hc hp hm, hu, hn, ?_, hpm⟩
      intro ho'
      rw [ho] at ho'
      exact ⟨ho', hs.trans (hi.registry.opened hk ho').1⟩
    · cases h
  | close =>
    simp only [State.stepRoute] at h
    split at h
    · cases h
      exact ⟨hok.mono (.refl s) rfl rfl rfl rfl fun _ => Nat.le_refl _, rfl, rfl, by simp, rfl⟩
    · cases h
  | release =>
    simp only [State.stepRoute] at h
    split at h
    · rename_i hc
      cases h
      refine ⟨hok.mono (.refl s) rfl rfl rfl rfl fun _ => Nat.le_refl _, rfl, rfl, ?_, rfl⟩
      intro ho
      simp [show r.opened = true from ho] at hc
    · cases h

theorem Inv.setRoute {s : State} {k : Nat} {r r' : Route} (h : Inv s) (hk : s.registry.routes[k]? = some r)
    (hok : RouteOk s k r') (hu : r'.users = r.users) (hn : r'.name = r.name)
    (ho : r'.opened = true → r.opened = true ∧ r'.serving = true) :
    Inv { s with registry := s.registry.setRoute k r' } where
  registry := h.registry.setRoute hk hu hn ho
  world := h.world
  routes := by
    intro j x hj
    rcases (getElem?_set_some_iff (lt_of_getElem?_some hk)).mp hj with ⟨rfl, rfl⟩ | ⟨_, hj⟩
    · exact ⟨hok.permit_lt, hok.plain, hok.done, hok.unclaimed, hok.revoked, hok.abandoned, hok.idle⟩
    · have hx := h.routes hj
      exact ⟨hx.permit_lt, hx.plain, hx.done, hx.unclaimed, hx.revoked, hx.abandoned, hx.idle⟩
  grants := h.grants

/-! ## Steps -/

theorem World.mono {tasks : List Task} {permits : List Permit} {n n' : Nat} (h : World tasks permits n)
    (hn : n ≤ n') :
    World tasks permits n' where
  phases := fun hp => ⟨Nat.lt_of_lt_of_le (h.phases hp).1 hn, (h.phases hp).2⟩
  named := h.named
  gates := fun ht hl => Nat.lt_of_lt_of_le (h.gates ht hl) hn

theorem World.call {tasks : List Task} {permits : List Permit} {n : Nat} {x : Task} (h : World tasks permits n)
    (hx : x.pc = .begin) : World (tasks ++ [x]) permits n where
  phases := by
    intro p m hp
    obtain ⟨hn, y, hy, hph⟩ := h.phases hp
    exact ⟨hn, y, getElem?_snoc_some_iff.mpr (Or.inl hy), hph⟩
  named := by
    intro t p y ht hy
    rcases getElem?_snoc_some_iff.mp ht with ht | ⟨_, rfl⟩
    · exact h.named ht hy
    · rw [hx] at hy
      cases hy
  gates := by
    intro t y ht hy
    rcases getElem?_snoc_some_iff.mp ht with ht | ⟨_, rfl⟩
    · exact h.gates ht hy
    · rw [hx] at hy
      cases hy

theorem Inv.init : Inv init where
  registry := ⟨by simp [AudioLease.init], by simp [AudioLease.init], by simp [AudioLease.init]⟩
  world := ⟨by simp [AudioLease.init], by simp [AudioLease.init], by simp [AudioLease.init]⟩
  routes := by simp [AudioLease.init]
  grants := by simp [AudioLease.init]

theorem step_inv {s s' : State} {a : Label} (hi : Inv s) (h : step s a = some s') : Inv s' ∧ Later s s' := by
  cases a with
  | enable on =>
    cases h
    have hr : Registry.Inv { s.registry with enabled := on } :=
      ⟨hi.registry.users, hi.registry.inRange, hi.registry.opened⟩
    exact ⟨hi.moves hr (Registry.Moves.refl s.registry) hi.world (.refl s) fun _ hp => Or.inl hp, .refl s⟩
  | connect =>
    cases h
    have hl : Later s { s with providers := s.providers ++ [{ connected := true, gate := none }] } :=
      ⟨.refl _, fun i x hx => ⟨x, getElem?_snoc_some_iff.mpr (Or.inl hx), id⟩⟩
    refine ⟨hi.moves hi.registry (.refl _) (World.mono hi.world ?_) hl fun _ hp => Or.inl hp, hl⟩
    simp
  | disconnect i =>
    cases h
    have hl : Later s { s with providers := s.providers.modify i fun p => { p with connected := false } } :=
      ⟨.refl _, .modify i fun _ _ => rfl⟩
    refine ⟨hi.moves hi.registry (.refl _) (World.mono hi.world ?_) hl fun _ hp => Or.inl hp, hl⟩
    simp
  | acquire name attachment provider =>
    cases h
    exact ⟨hi.moves hi.registry (.refl _) (World.call hi.world rfl) (.refl s) fun _ hp => Or.inl hp, .refl s⟩
  | task t a =>
    obtain ⟨x, hx, h⟩ := Option.bind_eq_some_iff.mp h
    obtain ⟨hw, hl, hg, hr⟩ := stepTask_spec hi.world hx h
    have hgrants : ∀ p ∈ s'.grants, p ∈ s.grants ∨ p < s'.permits.length := fun p hp => Or.inl (hg ▸ hp)
    rcases hr with hr | ⟨_, _, _, _, k, hj⟩
    · exact ⟨hi.moves (hr ▸ hi.registry) (hr ▸ .refl _) hw hl hgrants, hl⟩
    · obtain ⟨hri, hm⟩ := hi.registry.join hj
      exact ⟨hi.moves hri hm hw hl hgrants, hl⟩
  | grant p =>
    obtain ⟨m, hm, h⟩ := Option.bind_eq_some_iff.mp h
    split at h
    · cases h
      refine ⟨hi.moves hi.registry (.refl _) hi.world (.refl s) ?_, .refl s⟩
      intro q hq
      rcases List.mem_append.mp hq with hq | hq
      · exact Or.inl hq
      · simp only [List.mem_singleton] at hq
        subst hq
        exact Or.inr (lt_of_getElem?_some hm)
    · cases h
  | serve i =>
    obtain ⟨p, hp, h⟩ := Option.bind_eq_some_iff.mp h
    obtain ⟨m, hm, h⟩ := Option.bind_eq_some_iff.mp h
    obtain ⟨g, hg, rfl⟩ := Option.map_eq_some_iff.mp h
    obtain ⟨hri, heq⟩ := hi.registry.open hg
    refine ⟨hi.insert hri heq rfl rfl rfl (fun q hq => List.mem_of_mem_eraseIdx hq) ?_ rfl rfl, .refl s⟩
    intro q hq
    obtain rfl := Option.some.inj hq
    exact lt_of_getElem?_some hm
  | share name attachment =>
    obtain ⟨g, hg, rfl⟩ := Option.map_eq_some_iff.mp h
    obtain ⟨hri, heq⟩ := hi.registry.open hg
    exact ⟨hi.insert hri heq rfl rfl rfl (fun q hq => hq) (by simp [Route.new]) rfl rfl, .refl s⟩
  | route k a =>
    obtain ⟨r, hr, h⟩ := Option.bind_eq_some_iff.mp h
    obtain ⟨r', hr', rfl⟩ := Option.map_eq_some_iff.mp h
    obtain ⟨hok, hu, hn, ho, _⟩ := stepRoute_spec hi hr hr'
    exact ⟨hi.setRoute hr hok hu hn ho, .refl s⟩
  | dropLease i =>
    obtain ⟨l, _, h⟩ := Option.bind_eq_some_iff.mp h
    split at h
    · obtain ⟨g, hg, rfl⟩ := Option.map_eq_some_iff.mp h
      obtain ⟨hri, hm⟩ := hi.registry.drop hg
      exact ⟨hi.moves hri hm hi.world (.refl s) fun _ hp => Or.inl hp, .refl s⟩
    · cases h

theorem inv_of_run {as : List Label} {s : State} (h : exec step init as = some s) : Inv s :=
  exec_inv (fun _ _ _ hs hi => (step_inv hi hs).1) h Inv.init

def Label.checks (k : Nat) : Label → Bool
  | .route j (.check _) => j == k
  | _ => false

/-- Only the route's own task moves its check. -/
theorem step_route {s s' : State} {a : Label} {k : Nat} {r : Route} (hi : Inv s) (h : step s a = some s')
    (hk : s.registry.routes[k]? = some r) :
    ∃ r', s'.registry.routes[k]? = some r' ∧ r'.permit = r.permit ∧
      (r'.check = r.check ∧ r'.expired = r.expired ∧ a.checks k = false ∨
        ∃ act, a = .route k act ∧ s.stepRoute r act = some r') := by
  have hmoves : s.registry.Moves s'.registry → a.checks k = false →
      ∃ r', s'.registry.routes[k]? = some r' ∧ r'.permit = r.permit ∧
        (r'.check = r.check ∧ r'.expired = r.expired ∧ a.checks k = false ∨
          ∃ act, a = .route k act ∧ s.stepRoute r act = some r') := by
    intro hm hc
    obtain ⟨r', hr', heq⟩ := hm.forward hk
    exact ⟨r', hr', by rw [heq], Or.inl ⟨by rw [heq], by rw [heq], hc⟩⟩
  have hsnoc : ∀ x, (s.registry.routes ++ [x])[k]? = some r :=
    fun x => getElem?_snoc_some_iff.mpr (Or.inl hk)
  cases a with
  | enable on =>
    cases h
    exact hmoves (Registry.Moves.refl s.registry) rfl
  | connect =>
    cases h
    exact hmoves (.refl _) rfl
  | disconnect i =>
    cases h
    exact hmoves (.refl _) rfl
  | acquire name attachment provider =>
    cases h
    exact hmoves (.refl _) rfl
  | task t a =>
    obtain ⟨x, hx, h⟩ := Option.bind_eq_some_iff.mp h
    rcases (stepTask_spec hi.world hx h).registry with hr | ⟨_, _, _, _, j, hj⟩
    · exact hmoves (hr ▸ .refl _) rfl
    · exact hmoves (hi.registry.join hj).2 rfl
  | grant p =>
    obtain ⟨m, _, h⟩ := Option.bind_eq_some_iff.mp h
    split at h
    · cases h
      exact hmoves (.refl _) rfl
    · cases h
  | serve i =>
    obtain ⟨p, _, h⟩ := Option.bind_eq_some_iff.mp h
    obtain ⟨m, _, h⟩ := Option.bind_eq_some_iff.mp h
    obtain ⟨g, hg, rfl⟩ := Option.map_eq_some_iff.mp h
    obtain ⟨_, rfl⟩ := hi.registry.open hg
    exact ⟨r, hsnoc _, rfl, Or.inl ⟨rfl, rfl, rfl⟩⟩
  | share name attachment =>
    obtain ⟨g, hg, rfl⟩ := Option.map_eq_some_iff.mp h
    obtain ⟨_, rfl⟩ := hi.registry.open hg
    exact ⟨r, hsnoc _, rfl, Or.inl ⟨rfl, rfl, rfl⟩⟩
  | route j act =>
    obtain ⟨x, hx, h⟩ := Option.bind_eq_some_iff.mp h
    obtain ⟨x', hx', rfl⟩ := Option.map_eq_some_iff.mp h
    by_cases hj : j = k
    · subst hj
      rw [hk] at hx
      obtain rfl := Option.some.inj hx
      exact ⟨x', getElem?_set_self_some hk, (stepRoute_spec hi hk hx').2.2.2.2, Or.inr ⟨act, rfl, hx'⟩⟩
    · refine ⟨r, getElem?_set_other (Ne.symm hj) hk, rfl, Or.inl ⟨rfl, rfl, ?_⟩⟩
      cases act <;> simp [Label.checks, hj]
  | dropLease i =>
    obtain ⟨l, _, h⟩ := Option.bind_eq_some_iff.mp h
    split at h
    · obtain ⟨g, hg, rfl⟩ := Option.map_eq_some_iff.mp h
      exact hmoves (hi.registry.drop hg).2 rfl
    · cases h

/-! ## Expired routes -/

theorem step_expired {s s' : State} {a : Label} {k : Nat} {r : Route} {reason : Reason} (hi : Inv s)
    (h : step s a = some s') (hk : s.registry.routes[k]? = some r) (he : r.expired = some reason) :
    ∃ r', s'.registry.routes[k]? = some r' ∧ r'.expired = some reason := by
  have hdone : r.check = none := (hi.routes hk).done (by simp [he])
  obtain ⟨r', hr', _, ⟨_, hsame, _⟩ | ⟨act, rfl, hact⟩⟩ := step_route hi h hk
  · exact ⟨r', hr', hsame.trans he⟩
  · refine ⟨r', hr', ?_⟩
    cases act with
    | begin => simp [State.stepRoute, he] at hact
    | check ripe => simp [State.stepRoute, hdone] at hact
    | close =>
      simp only [State.stepRoute] at hact
      split at hact
      · cases hact
        exact he
      · cases hact
    | release =>
      simp only [State.stepRoute] at hact
      split at hact
      · cases hact
        exact he
      · cases hact

theorem run_expired {as : List Label} {s s' : State} {k : Nat} {r : Route} {reason : Reason} (hi : Inv s)
    (h : exec step s as = some s') (hk : s.registry.routes[k]? = some r) (he : r.expired = some reason) :
    Inv s' ∧ ∃ r', s'.registry.routes[k]? = some r' ∧ r'.expired = some reason := by
  refine exec_inv (I := fun s => Inv s ∧ ∃ r', s.registry.routes[k]? = some r' ∧ r'.expired = some reason) ?_ h
    ⟨hi, r, hk, he⟩
  intro s a s' hs ⟨hi, r, hk, he⟩
  exact ⟨(step_inv hi hs).1, step_expired hi hs hk he⟩

/-- A check of a route whose acquisition is over cannot return false: it is at one of its first loads, with
`n` of them left, or has returned true. -/
def Doomed (s : State) (k n : Nat) : Prop :=
  ∃ r p m, s.registry.routes[k]? = some r ∧ r.permit = some p ∧ s.permits[p]? = some m ∧ m.valid = false ∧
    m.claimed = false ∧ (r.expired ≠ none ∨ r.check = some .connected ∧ 3 ≤ n ∨ r.check = some .valid ∧ 2 ≤ n ∨
      r.check = some .unclaimed ∧ 1 ≤ n)

theorem step_doomed {s s' : State} {a : Label} {k n : Nat} (hi : Inv s) (h : step s a = some s') (hd : Doomed s k n) :
    Doomed s' k (n - if a.checks k then 1 else 0) := by
  obtain ⟨r, p, m, hk, hp, hm, hv, hc, hrest⟩ := hd
  obtain ⟨m', hm', hlater⟩ := (step_inv hi h).2.1 p m hm
  obtain ⟨hv', hc'⟩ := hlater.2.2 hv
  by_cases he : r.expired = none
  · obtain ⟨r', hr', hp', ⟨hcheck, _, hno⟩ | ⟨act, rfl, hact⟩⟩ := step_route hi h hk
    · refine ⟨r', p, m', hr', hp'.trans hp, hm', hv', hc'.trans hc, Or.inr ?_⟩
      simp only [hno, hcheck]
      rcases hrest with h0 | h0
      · exact absurd he h0
      · simpa using h0
    · refine ⟨r', p, m', hr', hp'.trans hp, hm', hv', hc'.trans hc, ?_⟩
      have hrest : r.check = some .connected ∧ 3 ≤ n ∨ r.check = some .valid ∧ 2 ≤ n ∨ r.check = some .unclaimed ∧ 1 ≤ n :=
        hrest.resolve_left fun h0 => h0 he
      have hsome : r.check ≠ none := by
        rcases hrest with ⟨h0, _⟩ | ⟨h0, _⟩ | ⟨h0, _⟩ <;> simp [h0]
      cases act with
      | begin => simp [State.stepRoute, hsome] at hact
      | close => simp [State.stepRoute, hsome] at hact
      | release =>
        simp only [State.stepRoute] at hact
        split at hact
        · cases hact
          exact Or.inr hrest
        · cases hact
      | check ripe =>
        simp only [Label.checks, beq_self_eq_true, if_true]
        rcases hrest with ⟨h0, hn⟩ | ⟨h0, hn⟩ | ⟨h0, hn⟩
        · simp only [State.stepRoute, h0, hp, Option.bind_some, hm, Option.some.injEq] at hact
          subst hact
          by_cases hconn : s.connected m.provider = true
          · exact Or.inr (Or.inr (Or.inl ⟨by simp [Route.checkStep, hconn], by omega⟩))
          · exact Or.inl (by simp [Route.checkStep, hconn])
        · simp only [State.stepRoute, h0, hp, Option.bind_some, hm, Option.some.injEq] at hact
          subst hact
          exact Or.inr (Or.inr (Or.inr ⟨by simp [Route.checkStep, hv], by omega⟩))
        · simp only [State.stepRoute, h0, hp, Option.bind_some, hm, Option.some.injEq] at hact
          subst hact
          exact Or.inl (by simp [Route.checkStep, hc])
  · obtain ⟨reason, he⟩ := Option.ne_none_iff_exists'.mp he
    obtain ⟨r', hr', he'⟩ := step_expired hi h hk he
    obtain ⟨r'', hr'', hp'', _⟩ := step_route hi h hk
    rw [hr'] at hr''
    obtain rfl := Option.some.inj hr''
    exact ⟨r', p, m', hr', hp''.trans hp, hm', hv', hc'.trans hc, Or.inl (by simp [he'])⟩

theorem run_doomed {k : Nat} : ∀ {as : List Label} {s s' : State} {n : Nat}, Inv s → exec step s as = some s' →
    Doomed s k n → Doomed s' k (n - as.countP (Label.checks k))
  | [], s, s', n, _, h, hd => by
    cases h
    simpa using hd
  | a :: as, s, s', n, hi, h, hd => by
    obtain ⟨t, ht, h⟩ := exec_cons_some.mp h
    have := run_doomed (step_inv hi ht).1 h (step_doomed hi ht hd)
    rwa [List.countP_cons, Nat.add_comm, ← Nat.sub_sub]

/-! ## The law of leases -/

structure LeaseLaw (s : State) : Prop where
  users : ∀ k r, s.registry.routes[k]? = some r → r.users = s.registry.live k
  oneOpen : ∀ (j k : Nat) (r q : Route), s.registry.routes[j]? = some r → s.registry.routes[k]? = some q → r.name = q.name →
    r.opened = true → q.opened = true → j = k
  kept : ∀ k r p m, s.registry.routes[k]? = some r → r.permit = some p → s.permits[p]? = some m → m.claimed = true →
    s.connected m.provider = true → 0 < s.registry.live k → r.expired = none
  idle : ∀ k r, s.registry.routes[k]? = some r → r.expired = some .idle → ∀ bs s', exec step s bs = some s' →
    s'.registry.live k = 0 ∧ ∀ name attachment activate t g, s'.registry.join name attachment activate t ≠ some (k, g)
  failed : ∀ k r p m x, s.registry.routes[k]? = some r → r.permit = some p → s.permits[p]? = some m →
    s.tasks[m.task]? = some x → x.pc = .failed (some p) → r.check = some .connected → ∀ bs s', exec step s bs = some s' →
    3 ≤ bs.countP (Label.checks k) → ∃ r', s'.registry.routes[k]? = some r' ∧ r'.expired ≠ none

theorem Inv.kept {s : State} (hi : Inv s) {k p : Nat} {r : Route} {m : Permit} (hk : s.registry.routes[k]? = some r)
    (hp : r.permit = some p) (hm : s.permits[p]? = some m) (hc : m.claimed = true)
    (hconn : s.connected m.provider = true)
    (hlive : 0 < s.registry.live k) : r.expired = none := by
  have hok := hi.routes hk
  cases he : r.expired with
  | none => rfl
  | some reason =>
    exfalso
    cases reason with
    | revoked =>
      obtain ⟨x, hx, hxc⟩ := hok.revoked he p m hp hm
      simp [State.connected, hx, hxc] at hconn
    | abandoned =>
      rw [(hok.abandoned he p m hp hm).2] at hc
      cases hc
    | idle =>
      have := (hok.idle he).2
      omega

theorem Inv.idle {s : State} (hi : Inv s) {k : Nat} {r : Route} (hk : s.registry.routes[k]? = some r)
    (he : r.expired = some .idle) : s.registry.live k = 0 ∧
      ∀ name attachment activate t g, s.registry.join name attachment activate t ≠ some (k, g) := by
  obtain ⟨hacc, hlive⟩ := (hi.routes hk).idle he
  refine ⟨hlive, ?_⟩
  intro name attachment activate t g hj
  obtain ⟨x, hx, hxacc, _⟩ := Registry.join_some hj
  rw [hk] at hx
  obtain rfl := Option.some.inj hx
  rw [hacc] at hxacc
  cases hxacc

theorem Inv.failed {s : State} (hi : Inv s) {p : Nat} {m : Permit} {x : Task} (hm : s.permits[p]? = some m)
    (hx : s.tasks[m.task]? = some x) (hpc : x.pc = .failed (some p)) : m.valid = false ∧ m.claimed = false := by
  obtain ⟨_, y, hy, hph⟩ := hi.world.phases hm
  rw [hx] at hy
  obtain rfl := Option.some.inj hy
  rw [hpc] at hph
  exact hph.2

theorem leases_hold {as : List Label} {s : State} (h : exec step init as = some s) : LeaseLaw s := by
  have hi := inv_of_run h
  refine ⟨fun k r hk => hi.registry.users hk, ?_, ?_, ?_, ?_⟩
  · intro j k r q hj hk hname hr hq
    have h1 := (hi.registry.opened hj hr).2
    have h2 := (hi.registry.opened hk hq).2
    rw [hname, h2] at h1
    exact (Option.some.inj h1).symm
  · intro k r p m hk hp hm hc hconn hlive
    exact hi.kept hk hp hm hc hconn hlive
  · intro k r hk he bs s' hs
    obtain ⟨hi', r', hk', he'⟩ := run_expired hi hs hk he
    exact hi'.idle hk' he'
  · intro k r p m x hk hp hm hx hpc hcheck bs s' hs hcount
    obtain ⟨hv, hc⟩ := hi.failed hm hx hpc
    have hd : Doomed s k 3 := ⟨r, p, m, hk, hp, hm, hv, hc, Or.inr (Or.inl ⟨hcheck, Nat.le_refl 3⟩)⟩
    obtain ⟨r', _, _, hk', _, _, _, _, hrest⟩ := run_doomed hi hs hd
    refine ⟨r', hk', ?_⟩
    rcases hrest with h0 | h0 | h0 | h0
    · exact h0
    all_goals
      exfalso
      omega

/-- A device acquires a route and is still using it; a second acquisition is given up and its route is found expired. -/
def leaseRun : List Label :=
  [.enable true, .connect, .acquire "p" 5 0, .task 0 .first, .task 0 .lock, .task 0 .again, .grant 0, .serve 0,
    .task 0 .reply, .task 0 .activate, .task 0 .claim, .task 0 .finish, .acquire "q" 6 0, .task 1 .first,
    .task 1 .lock, .task 1 .again, .grant 1, .task 1 .abort, .serve 0, .route 1 .begin]

def leaseChecks : List Label := List.replicate 3 (.route 1 (.check false))

theorem leases_hold_acquired :
    ∃ s, exec step init leaseRun = some s ∧ s.registry.live 0 = 1 ∧ LeaseLaw s ∧
      ∃ s', exec step s leaseChecks = some s' ∧ ∃ r, s'.registry.routes[1]? = some r ∧ r.expired ≠ none := by
  have hs : exec step init leaseRun = some ((exec step init leaseRun).get (by decide)) := (Option.some_get _).symm
  have hlaw := leases_hold hs
  refine ⟨_, hs, by decide, hlaw, _, rfl, ?_⟩
  exact hlaw.failed 1 _ 1 _ _ rfl rfl rfl rfl rfl rfl leaseChecks _ rfl (by decide)

end Mux.AudioLease
