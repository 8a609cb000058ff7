import Mux.AudioLease

/-!
# The invariant of route leases

Of the registry: the users of a route are its live leases. Of a permit: its flags follow from
where its call of `acquire` is. Of a route: what a check under way has seen, and why it expired.
-/

namespace Mux.AudioLease

open Lib

/-! ## The registry -/

structure Registry.Inv (g : Registry) : Prop where
  users : ∀ {k r}, g.routes[k]? = some r → r.users = g.live k
  inRange : ∀ l ∈ g.leases, l.route < g.routes.length
  opened : ∀ {k r}, g.routes[k]? = some r → r.opened = true → r.serving = true ∧ g.lookup r.name = some k

theorem Registry.Inv.setRoute {g : Registry} {k : Nat} {r r' : Route} (h : g.Inv) (hk : g.routes[k]? = some r)
    (hu : r'.users = r.users) (hn : r'.name = r.name)
    (ho : r'.opened = true → r.opened = true ∧ r'.serving = true) : (g.setRoute k r').Inv := by
  have hlt := lt_of_getElem?_some hk
  refine ⟨?_, ?_, ?_⟩
  · intro j x hj
    rcases (getElem?_set_some_iff hlt).mp hj with ⟨rfl, rfl⟩ | ⟨_, hj⟩
    · exact hu.trans (h.users hk)
    · exact h.users hj
  · intro l hl
    simpa [Registry.setRoute] using h.inRange l hl
  · intro j x hj hx
    rcases (getElem?_set_some_iff hlt).mp hj with ⟨rfl, rfl⟩ | ⟨_, hj⟩
    · exact ⟨(ho hx).2, hn ▸ (h.opened hk (ho hx).1).2⟩
    · exact h.opened hj hx

theorem Registry.Inv.live_new {g : Registry} (h : g.Inv) : g.live g.routes.length = 0 := by
  refine List.countP_eq_zero.mpr ?_
  intro l hl
  have := h.inRange l hl
  simp only [beq_iff_eq]
  omega

theorem Registry.Inv.insert {g : Registry} {r : Route} (h : g.Inv) (hu : r.users = 0) (hs : r.serving = true)
    (hn : ∀ (k : Nat) (x : Route), g.routes[k]? = some x → x.opened = true → x.name ≠ r.name) : (g.insert r).Inv := by
  refine ⟨?_, ?_, ?_⟩
  · intro k x hk
    rcases getElem?_snoc_some_iff.mp hk with hk | ⟨rfl, rfl⟩
    · exact h.users hk
    · exact hu.trans h.live_new.symm
  · intro l hl
    have := h.inRange l hl
    simp only [Registry.insert, List.length_append, List.length_singleton]
    omega
  · intro k x hk hx
    have hserving : x.serving = true := by
      rcases getElem?_snoc_some_iff.mp hk with hk | ⟨_, rfl⟩
      · exact (h.opened hk hx).1
      · exact hs
    refine ⟨hserving, ?_⟩
    suffices hf : (g.insert r).names.find? (fun n => n.1 == x.name) = some (x.name, k) by
      simp only [Registry.lookup, hf, Option.map_some]
    refine find?_filter_of_some ?_ ?_
    · -- the entry of an open route of another name is still the first of its name
      rcases getElem?_snoc_some_iff.mp hk with hk | ⟨rfl, rfl⟩
      · obtain ⟨n, hfind, hnk⟩ := Option.map_eq_some_iff.mp (h.opened hk hx).2
        have hname : n.1 = x.name := by simpa using List.find?_some hfind
        have hne := hn k x hk hx
        have hfind' : (g.names.filter fun n => n.1 != r.name).find? (fun n => n.1 == x.name) = some n :=
          find?_filter_of_some hfind (by simp [hname, hne])
        rw [List.find?_append, hfind', Option.some_or]
        exact congrArg some (Prod.ext hname hnk)
      · have hnone : (g.names.filter fun n => n.1 != r.name).find? (fun n => n.1 == r.name) = none := by
          refine List.find?_eq_none.mpr ?_
          intro n hn'
          simpa using (List.mem_filter.mp hn').2
        rw [List.find?_append, hnone]
        simp
    · simp only [Registry.alive, Bool.or_eq_true]
      refine Or.inl ?_
      rw [show (g.routes ++ [r])[k]? = some x from hk]
      exact hserving

theorem Registry.open_some {g g' : Registry} {name : String} {attachment : Nat} {permit : Option Nat}
    (h : g.open name attachment permit = some g') :
    g' = g.insert (.new name attachment permit) ∧ ∀ k, g.upgrade name = some k → g.isOpen k = false := by
  unfold Registry.open at h
  by_cases he : (!g.enabled) = true
  · rw [if_pos he] at h
    cases h
  · rw [if_neg he] at h
    by_cases hu : (g.upgrade name).any g.isOpen = true
    · rw [if_pos hu] at h
      cases h
    · rw [if_neg hu] at h
      refine ⟨(Option.some.inj h).symm, ?_⟩
      intro k hk
      simpa [hk] using hu

theorem Registry.Inv.open {g g' : Registry} {name : String} {attachment : Nat} {permit : Option Nat} (hi : g.Inv)
    (h : g.open name attachment permit = some g') : g'.Inv ∧ g' = g.insert (.new name attachment permit) := by
  obtain ⟨rfl, hu⟩ := Registry.open_some h
  refine ⟨hi.insert rfl rfl ?_, rfl⟩
  intro k x hk hx hname
  obtain ⟨hs, hl⟩ := hi.opened hk hx
  have hup : g.upgrade name = some k := by
    have hname : x.name = name := hname
    simp only [Registry.upgrade, ← hname, hl]
    simp [Registry.alive, hk, hs]
  have := hu k hup
  simp [Registry.isOpen, hk, hx] at this

theorem Registry.join_some {g g' : Registry} {name : String} {attachment t k : Nat} {activate : Bool}
    (h : g.join name attachment activate t = some (k, g')) :
    ∃ r, g.routes[k]? = some r ∧ r.accepting = true ∧
      g' = (g.setRoute k { r with ready := r.ready || activate, users := r.users + 1 }).setLeases
        (g.leases ++ [{ route := k, task := t }]) := by
  unfold Registry.join at h
  split at h
  · cases h
  · rename_i j _
    split at h
    · cases h
    · rename_i r hr
      by_cases hc : (decide (r.attachment ≠ attachment) || !r.accepting || !r.opened) = true
      · rw [if_pos hc] at h
        cases h
      · rw [if_neg hc] at h
        by_cases ha : (!activate && !r.ready) = true
        · rw [if_pos ha] at h
          cases h
        · rw [if_neg ha] at h
          simp only [Option.some.injEq, Prod.mk.injEq] at h
          obtain ⟨rfl, rfl⟩ := h
          simp only [Bool.or_eq_true, not_or, Bool.not_eq_true, Bool.not_eq_false'] at hc
          exact ⟨r, hr, hc.1.2, rfl⟩

theorem Registry.drop_some {g g' : Registry} {i : Nat} (h : g.drop i = some g') :
    ∃ l r, g.leases[i]? = some l ∧ g.routes[l.route]? = some r ∧
      g' = (g.setRoute l.route { r with users := r.users - 1 }).setLeases (g.leases.eraseIdx i) := by
  unfold Registry.drop at h
  split at h
  · cases h
  · rename_i l hl
    split at h
    · cases h
    · rename_i r hr
      exact ⟨l, r, hl, hr, (Option.some.inj h).symm⟩

/-- What a join and a drop leave alone: a closed route takes no lease. -/
def Registry.Moves (g g' : Registry) : Prop :=
  g'.routes.length = g.routes.length ∧ ∀ (k : Nat) (r' : Route), g'.routes[k]? = some r' → ∃ r, g.routes[k]? = some r ∧
    r' = { r with ready := r'.ready, users := r'.users } ∧ (r.accepting = false → g'.live k ≤ g.live k)

theorem Registry.Inv.join {g g' : Registry} {name : String} {attachment t k : Nat} {activate : Bool} (hi : g.Inv)
    (h : g.join name attachment activate t = some (k, g')) : g'.Inv ∧ g.Moves g' := by
  obtain ⟨r, hr, hacc, rfl⟩ := Registry.join_some h
  have hlt := lt_of_getElem?_some hr
  have hlive : ∀ j, ((g.setRoute k { r with ready := r.ready || activate, users := r.users + 1 }).setLeases
      (g.leases ++ [{ route := k, task := t }])).live j = g.live j + if k == j then 1 else 0 := by
    intro j
    simp [Registry.live, Registry.setLeases, List.countP_append, List.countP_singleton]
  refine ⟨⟨?_, ?_, ?_⟩, List.length_set .., ?_⟩
  · intro j x hj
    rw [hlive]
    rcases (getElem?_set_some_iff hlt).mp hj with ⟨rfl, rfl⟩ | ⟨hne, hj⟩
    · simp [hi.users hr]
    · simp [hi.users hj, Ne.symm hne]
  · intro l hl
    simp only [Registry.setLeases, Registry.setRoute, List.length_set]
    rcases List.mem_append.mp hl with hl | hl
    · exact hi.inRange l hl
    · simp only [List.mem_singleton] at hl
      exact hl ▸ hlt
  · intro j x hj hx
    rcases (getElem?_set_some_iff hlt).mp hj with ⟨rfl, rfl⟩ | ⟨_, hj⟩
    · have ho : r.serving = true ∧ _ := hi.opened hr hx
      exact ho
    · exact hi.opened hj hx
  · intro j x hj
    rcases (getElem?_set_some_iff hlt).mp hj with ⟨rfl, rfl⟩ | ⟨hne, hj⟩
    · exact ⟨r, hr, rfl, fun hc => by rw [hacc] at hc; cases hc⟩
    · refine ⟨x, hj, rfl, fun _ => ?_⟩
      rw [hlive]
      simp [Ne.symm hne]

theorem Registry.Inv.drop {g g' : Registry} {i : Nat} (hi : g.Inv) (h : g.drop i = some g') :
    g'.Inv ∧ g.Moves g' := by
  obtain ⟨l, r, hl, hr, rfl⟩ := Registry.drop_some h
  have hlt := lt_of_getElem?_some hr
  have hlive : ∀ j, ((g.setRoute l.route { r with users := r.users - 1 }).setLeases
      (g.leases.eraseIdx i)).live j + (if l.route == j then 1 else 0) = g.live j :=
    fun j => countP_eraseIdx hl
  refine ⟨⟨?_, ?_, ?_⟩, List.length_set .., ?_⟩
  · intro j x hj
    have hj' := hlive j
    rcases (getElem?_set_some_iff hlt).mp hj with ⟨rfl, rfl⟩ | ⟨hne, hj⟩
    · have := hi.users hr
      simp only [beq_self_eq_true, if_true] at hj'
      simp only
      omega
    · have := hi.users hj
      simp only [beq_iff_eq, Ne.symm hne, if_false] at hj'
      omega
  · intro m hm
    simp only [Registry.setLeases, Registry.setRoute, List.length_set]
    exact hi.inRange m (List.mem_of_mem_eraseIdx hm)
  · intro j x hj hx
    rcases (getElem?_set_some_iff hlt).mp hj with ⟨rfl, rfl⟩ | ⟨_, hj⟩
    · have ho : r.serving = true ∧ _ := hi.opened hr hx
      exact ho
    · exact hi.opened hj hx
  · intro j x hj
    have hle : ((g.setRoute l.route { r with users := r.users - 1 }).setLeases (g.leases.eraseIdx i)).live j ≤
        g.live j := by
      have := hlive j
      omega
    rcases (getElem?_set_some_iff hlt).mp hj with ⟨rfl, rfl⟩ | ⟨_, hj⟩
    · exact ⟨r, hr, rfl, fun _ => hle⟩
    · exact ⟨x, hj, rfl, fun _ => hle⟩

theorem Registry.Moves.refl (g : Registry) : g.Moves g := ⟨rfl, fun _ r hr => ⟨r, hr, rfl, fun _ => Nat.le_refl _⟩⟩

theorem Registry.Moves.forward {g g' : Registry} (h : g.Moves g') {k : Nat} {r : Route} (hk : g.routes[k]? = some r) :
    ∃ r', g'.routes[k]? = some r' ∧ r' = { r with ready := r'.ready, users := r'.users } := by
  have hlt : k < g'.routes.length := h.1 ▸ lt_of_getElem?_some hk
  obtain ⟨x, hx, heq, _⟩ := h.2 k g'.routes[k] (List.getElem?_eq_getElem hlt)
  rw [hk] at hx
  exact ⟨g'.routes[k], List.getElem?_eq_getElem hlt, Option.some.inj hx ▸ heq⟩

/-! ## Permits and the calls of acquire -/

def Pc.permit? : Pc → Option Nat
  | .requesting p => some p
  | .ready p => some p
  | .joined p => some p
  | .claimed p => some p
  | _ => none

/-- The flags of permit `p` while its call of `acquire` is at `pc`. -/
def Phase (p : Nat) (m : Permit) : Pc → Prop
  | .requesting q => q = p ∧ m.valid = true ∧ m.claimed = false
  | .ready q => q = p ∧ m.valid = true ∧ m.claimed = false
  | .joined q => q = p ∧ m.valid = true ∧ m.claimed = false
  | .claimed q => q = p ∧ m.valid = true ∧ m.claimed = true
  | .returned => m.valid = false ∧ m.claimed = true
  | .failed (some q) => q = p ∧ m.valid = false ∧ m.claimed = false
  | _ => False

/-- A call that has not made its permit. -/
def Pc.Early (pc : Pc) : Prop := pc = .begin ∨ pc = .gate ∨ pc = .locked

structure World (tasks : List Task) (permits : List Permit) (providers : Nat) : Prop where
  phases : ∀ {p : Nat} {m : Permit}, permits[p]? = some m →
    m.provider < providers ∧ ∃ x : Task, tasks[m.task]? = some x ∧ Phase p m x.pc
  named : ∀ {t p : Nat} {x : Task}, tasks[t]? = some x → x.pc.permit? = some p →
    ∃ m : Permit, permits[p]? = some m ∧ m.task = t
  gates : ∀ {t : Nat} {x : Task}, tasks[t]? = some x → x.pc = .locked → x.provider < providers

/-- A permit that is no longer valid stays so and is claimed or not for good. -/
def Permit.Later (m m' : Permit) : Prop :=
  m'.provider = m.provider ∧ m'.task = m.task ∧ (m.valid = false → m'.valid = false ∧ m'.claimed = m.claimed)

def PermitsLater (ps ps' : List Permit) : Prop :=
  ∀ (p : Nat) (m : Permit), ps[p]? = some m → ∃ m', ps'[p]? = some m' ∧ m.Later m'

theorem Permit.Later.refl (m : Permit) : m.Later m := ⟨rfl, rfl, fun h => ⟨h, rfl⟩⟩

theorem PermitsLater.refl (ps : List Permit) : PermitsLater ps ps := fun _ m h => ⟨m, h, .refl m⟩

theorem not_phase_of_early {p : Nat} {m : Permit} {pc : Pc} (h : pc.Early) : ¬ Phase p m pc := by
  rcases h with rfl | rfl | rfl <;> exact id

theorem World.early {tasks : List Task} {permits : List Permit} {n t : Nat} {x : Task} {pc : Pc}
    (h : World tasks permits n) (ht : tasks[t]? = some x) (he : x.pc.Early) (hpc : pc.permit? = none)
    (hl : pc = .locked → x.provider < n) : World (tasks.set t { x with pc := pc }) permits n := by
  have hlt := lt_of_getElem?_some ht
  refine ⟨?_, ?_, ?_⟩
  · intro p m hp
    obtain ⟨hn, y, hy, hph⟩ := h.phases hp
    have hne : m.task ≠ t := by
      intro heq
      rw [heq, ht] at hy
      cases hy
      exact not_phase_of_early he hph
    exact ⟨hn, y, getElem?_set_other hne hy, hph⟩
  · intro u p y hu hy
    rcases (getElem?_set_some_iff hlt).mp hu with ⟨rfl, rfl⟩ | ⟨_, hu⟩
    · rw [hpc] at hy
      cases hy
    · exact h.named hu hy
  · intro u y hu hy
    rcases (getElem?_set_some_iff hlt).mp hu with ⟨rfl, rfl⟩ | ⟨_, hu⟩
    · exact hl hy
    · exact h.gates hu hy

theorem World.request {tasks : List Task} {permits : List Permit} {n t : Nat} {x : Task}
    (h : World tasks permits n) (ht : tasks[t]? = some x) (hl : x.pc = .locked) :
    World (tasks.set t { x with pc := .requesting permits.length }) (permits ++ [x.permit t]) n := by
  have hlt := lt_of_getElem?_some ht
  refine ⟨?_, ?_, ?_⟩
  · intro p m hp
    rcases getElem?_snoc_some_iff.mp hp with hp | ⟨rfl, rfl⟩
    · obtain ⟨hn, y, hy, hph⟩ := h.phases hp
      have hne : m.task ≠ t := by
        intro heq
        rw [heq, ht] at hy
        cases hy
        exact not_phase_of_early (Or.inr (Or.inr hl)) hph
      exact ⟨hn, y, getElem?_set_other hne hy, hph⟩
    · exact ⟨h.gates ht hl, _, getElem?_set_self_some ht, rfl, rfl, rfl⟩
  · intro u p y hu hy
    rcases (getElem?_set_some_iff hlt).mp hu with ⟨rfl, rfl⟩ | ⟨_, hu⟩
    · obtain rfl := Option.some.inj hy
      exact ⟨x.permit u, getElem?_snoc_some_iff.mpr (Or.inr ⟨rfl, rfl⟩), rfl⟩
    · obtain ⟨m, hm, hmt⟩ := h.named hu hy
      exact ⟨m, getElem?_snoc_some_iff.mpr (Or.inl hm), hmt⟩
  · intro u y hu hy
    rcases (getElem?_set_some_iff hlt).mp hu with ⟨rfl, rfl⟩ | ⟨_, hu⟩
    · cases hy
    · exact h.gates hu hy

theorem phase_eq {p q : Nat} {m : Permit} {pc : Pc} (h : Phase q m pc) (hp : pc.permit? = some p) : q = p := by
  cases pc <;> simp_all [Phase, Pc.permit?]

/-- The call that owns permit `p` goes from one place to the next and stores its flags. -/
theorem World.advance {tasks : List Task} {permits : List Permit} {n t p : Nat} {x : Task} {c : Pc}
    {f : Permit → Permit}
    (h : World tasks permits n) (ht : tasks[t]? = some x) (hp : x.pc.permit? = some p)
    (hpc : c.permit? = none ∨ c.permit? = some p) (hl : c ≠ .locked)
    (hf : ∀ m, Phase p m x.pc → Phase p (f m) c ∧ m.Later (f m)) :
    World (tasks.set t { x with pc := c }) (permits.modify p f) n ∧ PermitsLater permits (permits.modify p f) := by
  have hlt := lt_of_getElem?_some ht
  obtain ⟨m₀, hm₀, hmt₀⟩ := h.named ht hp
  have hph₀ : Phase p m₀ x.pc := by
    obtain ⟨_, y, hy, hph⟩ := h.phases hm₀
    rw [hmt₀, ht] at hy
    cases hy
    exact hph
  refine ⟨⟨?_, ?_, ?_⟩, ?_⟩
  · intro q m hq
    obtain ⟨m', hm', rfl⟩ := getElem?_modify_some_iff.mp hq
    obtain ⟨hn, y, hy, hph⟩ := h.phases hm'
    by_cases hqp : p = q
    · subst hqp
      rw [hm₀] at hm'
      cases hm'
      obtain ⟨hphf, hprov, htask, _⟩ := hf m₀ hph₀
      simp only [if_true]
      refine ⟨hprov ▸ hn, { x with pc := c }, ?_, hphf⟩
      rw [htask, hmt₀]
      exact getElem?_set_self_some ht
    · simp only [hqp, if_false]
      have hne : m'.task ≠ t := by
        intro heq
        rw [heq, ht] at hy
        cases hy
        exact hqp (phase_eq hph hp).symm
      exact ⟨hn, y, getElem?_set_other hne hy, hph⟩
  · intro u q y hu hy
    have hmem : ∃ m, permits[q]? = some m ∧ m.task = u := by
      rcases (getElem?_set_some_iff hlt).mp hu with ⟨rfl, rfl⟩ | ⟨_, hu⟩
      · rcases hpc with hpc | hpc
        · rw [hpc] at hy
          cases hy
        · rw [hpc] at hy
          obtain rfl := Option.some.inj hy
          exact ⟨m₀, hm₀, hmt₀⟩
      · exact h.named hu hy
    obtain ⟨m, hm, hmu⟩ := hmem
    by_cases hqp : p = q
    · subst hqp
      rw [hm₀] at hm
      cases hm
      exact ⟨f m₀, getElem?_modify_some_iff.mpr ⟨m₀, hm₀, by simp⟩, ((hf m₀ hph₀).2.2.1).trans hmu⟩
    · exact ⟨m, getElem?_modify_some_iff.mpr ⟨m, hm, by simp [hqp]⟩, hmu⟩
  · intro u y hu hy
    rcases (getElem?_set_some_iff hlt).mp hu with ⟨rfl, rfl⟩ | ⟨_, hu⟩
    · exact absurd hy hl
    · exact h.gates hu hy
  · intro q m hm
    by_cases hqp : p = q
    · subst hqp
      rw [hm₀] at hm
      cases hm
      exact ⟨f m₀, getElem?_modify_some_iff.mpr ⟨m₀, hm₀, by simp⟩, (hf m₀ hph₀).2⟩
    · exact ⟨m, getElem?_modify_some_iff.mpr ⟨m, hm, by simp [hqp]⟩, .refl m⟩

/-- A provider that has disconnected stays so. -/
def ProvidersLater (ps ps' : List Provider) : Prop :=
  ∀ (i : Nat) (x : Provider), ps[i]? = some x → ∃ x' : Provider, ps'[i]? = some x' ∧ (x.connected = false → x'.connected = false)

theorem ProvidersLater.refl (ps : List Provider) : ProvidersLater ps ps := fun _ x h => ⟨x, h, id⟩

theorem ProvidersLater.modify {ps : List Provider} (i : Nat) {f : Provider → Provider}
    (hf : ∀ x, x.connected = false → (f x).connected = false) : ProvidersLater ps (ps.modify i f) := by
  intro j x hj
  by_cases hij : i = j
  · exact ⟨f x, getElem?_modify_some_iff.mpr ⟨x, hj, by simp [hij]⟩, hf x⟩
  · exact ⟨x, getElem?_modify_some_iff.mpr ⟨x, hj, by simp [hij]⟩, id⟩

theorem ProvidersLater.gate (ps : List Provider) (i : Nat) (holder : Option Nat) :
    ProvidersLater ps (ps.modify i fun p => { p with gate := holder }) := .modify i fun _ h => h

def Later (s s' : State) : Prop := PermitsLater s.permits s'.permits ∧ ProvidersLater s.providers s'.providers

theorem Later.refl (s : State) : Later s s := ⟨.refl _, .refl _⟩

def State.World (s : State) : Prop := AudioLease.World s.tasks s.permits s.providers.length

/-- What a step of `acquire` does to the rest. -/
structure TaskStep (s s' : State) : Prop where
  world : s'.World
  later : Later s s'
  grants : s'.grants = s.grants
  registry : s'.registry = s.registry ∨
    ∃ name attachment activate t k, s.registry.join name attachment activate t = some (k, s'.registry)

theorem stepTask_spec {s s' : State} {t : Nat} {x : Task} {a : Act} (hw : s.World) (ht : s.tasks[t]? = some x)
    (h : s.stepTask t x a = some s') : TaskStep s s' := by
  have hgate : ∀ holder tasks permits, AudioLease.World tasks permits s.providers.length →
      AudioLease.World tasks permits (s.providers.modify x.provider fun p => { p with gate := holder }).length := by
    intro holder tasks permits hw'
    rwa [List.length_modify]
  have hfree := fun holder => ProvidersLater.gate s.providers x.provider holder
  have hearly : ∀ pc, x.pc.Early → pc.permit? = none → (pc = .locked → x.provider < s.providers.length) →
      AudioLease.World (s.tasks.set t { x with pc := pc }) s.permits s.providers.length :=
    fun pc he hpc hl => World.early hw ht he hpc hl
  have hkeep : ∀ p pc, x.pc.permit? = some p → pc.permit? = some p → pc ≠ .locked →
      (∀ m, Phase p m x.pc → Phase p m pc) →
      AudioLease.World (s.tasks.set t { x with pc := pc }) s.permits s.providers.length := by
    intro p pc hp hpc hl hf
    have := (World.advance (f := id) hw ht hp (Or.inr hpc) hl fun m hm => ⟨hf m hm, .refl m⟩).1
    rwa [List.modify_id] at this
  unfold State.stepTask at h
  split at h
  · rename_i hpc
    have he : x.pc.Early := Or.inl hpc
    split at h
    · rename_i k g hj
      cases h
      exact ⟨hearly _ he rfl (by simp), .refl s, rfl, Or.inr ⟨_, _, _, _, k, hj⟩⟩
    · cases h
      exact ⟨hearly _ he rfl (by simp), .refl s, rfl, Or.inl rfl⟩
  · rename_i hpc
    split at h
    · rename_i _ _ hprov
      cases h
      exact ⟨hgate _ _ _ (hearly _ (Or.inr (Or.inl hpc)) rfl fun _ => lt_of_getElem?_some hprov), ⟨.refl _, hfree _⟩, rfl,
        Or.inl rfl⟩
    · cases h
  · rename_i hpc
    have he : x.pc.Early := Or.inr (Or.inr hpc)
    split at h
    · rename_i k g hj
      cases h
      exact ⟨hgate _ _ _ (hearly _ he rfl (by simp)), ⟨.refl _, hfree _⟩, rfl, Or.inr ⟨_, _, _, _, k, hj⟩⟩
    · cases h
      refine ⟨World.request hw ht hpc, ⟨?_, .refl _⟩, rfl, Or.inl rfl⟩
      exact fun p m hp => ⟨m, getElem?_snoc_some_iff.mpr (Or.inl hp), .refl m⟩
  · rename_i p hpc
    cases h
    exact ⟨hkeep p _ (by rw [hpc]; rfl) rfl (by simp) (by rw [hpc]; exact fun m hm => hm), .refl s, rfl, Or.inl rfl⟩
  · rename_i p hpc
    split at h
    · rename_i k g hj
      cases h
      exact ⟨hkeep p _ (by rw [hpc]; rfl) rfl (by simp) (by rw [hpc]; exact fun m hm => hm), .refl s, rfl,
        Or.inr ⟨_, _, _, _, k, hj⟩⟩
    · cases h
  · rename_i p hpc
    cases h
    obtain ⟨hw', hl⟩ := World.advance (f := fun m => { m with claimed := true }) (c := .claimed p) hw ht
      (by rw [hpc]; rfl) (Or.inr rfl) (by simp) (by
        rw [hpc]
        intro m hm
        exact ⟨⟨rfl, hm.2.1, rfl⟩, rfl, rfl, fun hv => by rw [hm.2.1] at hv; cases hv⟩)
    exact ⟨hw', ⟨hl, .refl _⟩, rfl, Or.inl rfl⟩
  · rename_i p hpc
    cases h
    obtain ⟨hw', hl⟩ := World.advance (f := fun m => { m with valid := false }) (c := .returned) hw ht
      (by rw [hpc]; rfl) (Or.inl rfl) (by simp) (by
        rw [hpc]
        intro m hm
        exact ⟨⟨rfl, hm.2.2⟩, rfl, rfl, fun _ => ⟨rfl, rfl⟩⟩)
    exact ⟨hgate _ _ _ hw', ⟨hl, hfree _⟩, rfl, Or.inl rfl⟩
  · rename_i hpc
    cases h
    exact ⟨hearly _ (Or.inl hpc) rfl (by simp), .refl s, rfl, Or.inl rfl⟩
  · rename_i hpc
    cases h
    exact ⟨hearly _ (Or.inr (Or.inl hpc)) rfl (by simp), .refl s, rfl, Or.inl rfl⟩
  · rename_i hpc
    cases h
    exact ⟨hgate _ _ _ (hearly _ (Or.inr (Or.inr hpc)) rfl (by simp)), ⟨.refl _, hfree _⟩, rfl, Or.inl rfl⟩
  · rename_i p hpc
    cases h
    obtain ⟨hw', hl⟩ := World.advance (f := fun m => { m with valid := false }) (c := .failed (some p)) hw ht
      (by rw [hpc]; rfl) (Or.inl rfl) (by simp) (by
        rw [hpc]
        intro m hm
        exact ⟨⟨rfl, rfl, hm.2.2⟩, rfl, rfl, fun _ => ⟨rfl, rfl⟩⟩)
    exact ⟨hgate _ _ _ hw', ⟨hl, hfree _⟩, rfl, Or.inl rfl⟩
  · rename_i p hpc
    cases h
    obtain ⟨hw', hl⟩ := World.advance (f := fun m => { m with valid := false }) (c := .failed (some p)) hw ht
      (by rw [hpc]; rfl) (Or.inl rfl) (by simp) (by
        rw [hpc]
        intro m hm
        exact ⟨⟨rfl, rfl, hm.2.2⟩, rfl, rfl, fun _ => ⟨rfl, rfl⟩⟩)
    exact ⟨hgate _ _ _ hw', ⟨hl, hfree _⟩, rfl, Or.inl rfl⟩
  · cases h

/-! ## Checks -/

/-- What a check under way has seen, and why a route has expired. -/
structure RouteOk (s : State) (k : Nat) (r : Route) : Prop where
  permit_lt : ∀ p, r.permit = some p → p < s.permits.length
  plain : r.permit = none → r.check = none ∧ r.expired = none
  done : r.expired ≠ none → r.check = none
  unclaimed : r.check = some .unclaimed → ∀ p m, r.permit = some p → s.permits[p]? = some m → m.valid = false
  revoked : r.expired = some .revoked → ∀ p m, r.permit = some p → s.permits[p]? = some m →
    ∃ x, s.providers[m.provider]? = some x ∧ x.connected = false
  abandoned : r.expired = some .abandoned → ∀ p m, r.permit = some p → s.permits[p]? = some m →
    m.valid = false ∧ m.claimed = false
  idle : r.expired = some .idle → r.accepting = false ∧ s.registry.live k = 0

structure Inv (s : State) : Prop where
  registry : s.registry.Inv
  world : s.World
  routes : ∀ {k r}, s.registry.routes[k]? = some r → RouteOk s k r
  grants : ∀ p ∈ s.grants, p < s.permits.length

theorem PermitsLater.back {ps ps' : List Permit} (h : PermitsLater ps ps') {p : Nat} {m' : Permit}
    (hp : p < ps.length)
    (hm : ps'[p]? = some m') : ∃ m, ps[p]? = some m ∧ m.Later m' := by
  obtain ⟨x, hx, hl⟩ := h p ps[p] (List.getElem?_eq_getElem hp)
  rw [hm] at hx
  exact ⟨ps[p], List.getElem?_eq_getElem hp, Option.some.inj hx ▸ hl⟩

theorem PermitsLater.length_le {ps ps' : List Permit} (h : PermitsLater ps ps') : ps.length ≤ ps'.length := by
  by_cases h0 : ps.length = 0
  · omega
  · have hlt : ps.length - 1 < ps.length := by omega
    obtain ⟨x, hx, _⟩ := h (ps.length - 1) _ (List.getElem?_eq_getElem hlt)
    have := lt_of_getElem?_some hx
    omega

theorem RouteOk.mono {s s' : State} {k : Nat} {r r' : Route} (h : RouteOk s k r) (hl : Later s s')
    (hp : r'.permit = r.permit) (hc : r'.check = r.check) (he : r'.expired = r.expired)
    (ha : r'.accepting = r.accepting)
    (hlive : r.accepting = false → s'.registry.live k ≤ s.registry.live k) : RouteOk s' k r' where
  permit_lt := fun p hpp => Nat.lt_of_lt_of_le (h.permit_lt p (hp ▸ hpp)) hl.1.length_le
  plain := fun h0 => hc ▸ he ▸ h.plain (hp ▸ h0)
  done := fun h0 => hc ▸ h.done (he ▸ h0)
  unclaimed := by
    intro h0 p m' hpp hm'
    rw [hp] at hpp
    obtain ⟨m, hm, hml⟩ := hl.1.back (h.permit_lt p hpp) hm'
    exact (hml.2.2 (h.unclaimed (hc ▸ h0) p m hpp hm)).1
  revoked := by
    intro h0 p m' hpp hm'
    rw [hp] at hpp
    obtain ⟨m, hm, hml⟩ := hl.1.back (h.permit_lt p hpp) hm'
    obtain ⟨x, hx, hxc⟩ := h.revoked (he ▸ h0) p m hpp hm
    obtain ⟨x', hx', hxc'⟩ := hl.2 _ x hx
    exact ⟨x', hml.1 ▸ hx', hxc' hxc⟩
  abandoned := by
    intro h0 p m' hpp hm'
    rw [hp] at hpp
    obtain ⟨m, hm, hml⟩ := hl.1.back (h.permit_lt p hpp) hm'
    obtain ⟨hv, hcl⟩ := h.abandoned (he ▸ h0) p m hpp hm
    exact ⟨(hml.2.2 hv).1, (hml.2.2 hv).2.trans hcl⟩
  idle := by
    intro h0
    obtain ⟨hacc, hz⟩ := h.idle (he ▸ h0)
    have := hlive hacc
    exact ⟨ha ▸ hacc, by omega⟩

/-- A step after which the routes are the same but for their users. -/
theorem Inv.moves {s s' : State} (h : Inv s) (hr : s'.registry.Inv) (hm : s.registry.Moves s'.registry)
    (hw : s'.World)
    (hl : Later s s') (hg : ∀ p ∈ s'.grants, p ∈ s.grants ∨ p < s'.permits.length) : Inv s' where
  registry := hr
  world := hw
  routes := by
    intro k r' hk
    obtain ⟨r, hr, heq, hlive⟩ := hm.2 k r' hk
    refine (h.routes hr).mono hl ?_ ?_ ?_ ?_ hlive <;> rw [heq]
  grants := by
    intro p hp
    rcases hg p hp with hp | hp
    · exact Nat.lt_of_lt_of_le (h.grants p hp) hl.1.length_le
    · exact hp

theorem Inv.insert {s s' : State} {r : Route} (h : Inv s) (hr : s'.registry.Inv)
    (hi : s'.registry = s.registry.insert r)
    (hp : s'.permits = s.permits) (hv : s'.providers = s.providers) (ht : s'.tasks = s.tasks)
    (hg : ∀ p ∈ s'.grants, p ∈ s.grants) (hpermit : ∀ p, r.permit = some p → p < s.permits.length)
    (hc : r.check = none) (he : r.expired = none) : Inv s' where
  registry := hr
  world := by
    have := h.world
    unfold State.World at this ⊢
    rwa [hp, hv, ht]
  routes := by
    have hl : Later s s' := by
      unfold Later
      rw [hp, hv]
      exact ⟨.refl _, .refl _⟩
    intro k r' hk
    rw [hi] at hk
    rcases getElem?_snoc_some_iff.mp hk with hk | ⟨_, rfl⟩
    · refine (h.routes hk).mono hl rfl rfl rfl rfl fun _ => ?_
      rw [hi]
      exact Nat.le_refl _
    · refine ⟨fun p hpp => hp ▸ hpermit p hpp, fun _ => ⟨hc, he⟩, fun _ => hc, ?_, ?_, ?_, ?_⟩
      · intro h0
        rw [hc] at h0
        cases h0
      all_goals
        intro h0
        rw [he] at h0
        cases h0
  grants := fun p hpp => hp ▸ h.grants p (hg p hpp)

end Mux.AudioLease
