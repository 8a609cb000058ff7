import Mux.Broker

/-!
# Which connection a relay closes and uses

A connection leaves the cache only when it is closed, so a connection that a relay holds and
that is still alive is the cached one. Looking the cache up again is harmless as long as it
has no other live connection by then.
-/

namespace Mux.Broker

open Lib State

/-- What a relay's step from `m` to `m'` may do to connections. -/
structure Own (m : State) (k : Nat) (m' : State) : Prop where
  /-- It closes the connection on which its open failed, or one it has dialled itself in vain. -/
  closes : ∀ e, m.alive e = true → m'.alive e = false →
    ∃ r, m.relays[k]? = some r ∧ (r.phase = .evicting e ∨ r.phase = .dialed e)
  evicts : ∀ r c, m.relays[k]? = some r → r.phase = .evicting c → m'.alive c = false
  bridges : ∀ r c d, m'.relays[k]? = some r → r.phase = .bridging c d → d = c

/-- Every step of every relay of the run is about the relay's own connection. -/
def ConnectionIdentity (as : List Label) : Prop :=
  ∀ as₁ k answer as₂ m m', as = as₁ ++ .go k answer :: as₂ → exec step start as₁ = some m →
    step m (.go k answer) = some m' → Own m k m'

/-- The connection of a relay that is about to look the cache up again. -/
def Phase.again? : Phase → Option Nat
  | .evicting c | .audioLooking c => some c
  | _ => none

def State.unreplaced (s : State) (c : Nat) : Bool :=
  match s.cached with
  | some d => d == c || !s.alive d
  | none => true

/-- When a relay looks the cache up again, it has no live connection but the relay's own. -/
def Unreplaced (s : State) : Label → Prop
  | .go k _ => ∀ r ∈ s.relays[k]?, ∀ c ∈ r.phase.again?, s.unreplaced c = true
  | _ => True

instance (s : State) : ∀ a, Decidable (Unreplaced s a)
  | .go k _ => inferInstanceAs (Decidable (∀ r ∈ s.relays[k]?, ∀ c ∈ r.phase.again?, s.unreplaced c = true))
  | .relay _ | .drop _ | .die _ => inferInstanceAs (Decidable True)

/-! ## A held connection that lives is the cached one -/

def Phase.held? : Phase → Option Nat
  | .opening c | .evicting c | .streaming c | .audioLooking c | .bridging c _ => some c
  | _ => none

structure Inv (s : State) : Prop where
  known : ∀ (k : Nat) (r : Relay) (c : Nat), s.relays[k]? = some r → r.phase.held? = some c → c < s.conns.length
  dialed : ∀ (k : Nat) (r : Relay) (n : Nat), s.relays[k]? = some r → r.phase = .dialed n → n < s.conns.length
  cached : ∀ c, s.cached = some c → c < s.conns.length
  held : ∀ (k : Nat) (r : Relay) (c : Nat), s.relays[k]? = some r → r.phase.held? = some c → s.alive c = true →
    s.cached = some c

theorem inv_start : Inv start := by
  constructor <;> simp [start]

theorem alive_close {s : State} {c : Nat} (e : Nat) : (s.close c).alive e = (s.alive e && e != c) := by
  unfold State.alive State.close
  simp only [List.getElem?_set]
  by_cases h : c = e
  · subst h
    by_cases hlt : c < s.conns.length <;> simp [hlt]
  · simp [h, Ne.symm h]

/-- A relay that goes to a phase that fits the rest, which no relay's phase speaks against. -/
theorem Inv.put {s : State} {k : Nat} {r : Relay} {p : Phase} {cached : Option Nat} {conns : List Bool}
    (h : Inv s) (hk : s.relays[k]? = some r)
    (hlen : s.conns.length ≤ conns.length) (hcached : ∀ c, cached = some c → c < conns.length)
    (hothers : ∀ c, c < s.conns.length → (⟨cached, conns, []⟩ : State).alive c = true →
      s.alive c = true ∧ (s.cached = some c → cached = some c))
    (hknown : ∀ c, p.held? = some c → c < conns.length) (hdialed : ∀ n, p = .dialed n → n < conns.length)
    (hheld : ∀ c, p.held? = some c → (⟨cached, conns, []⟩ : State).alive c = true → cached = some c) :
    Inv { s with cached := cached, conns := conns, relays := s.relays.set k { r with phase := p } } where
  known := by
    intro j q c hj hq
    rcases (getElem?_set_some_iff (lt_of_getElem?_some hk)).mp hj with ⟨-, rfl⟩ | ⟨-, hj⟩
    · exact hknown c hq
    · exact Nat.lt_of_lt_of_le (h.known j q c hj hq) hlen
  dialed := by
    intro j q n hj hq
    rcases (getElem?_set_some_iff (lt_of_getElem?_some hk)).mp hj with ⟨-, rfl⟩ | ⟨-, hj⟩
    · exact hdialed n hq
    · exact Nat.lt_of_lt_of_le (h.dialed j q n hj hq) hlen
  cached := hcached
  held := by
    intro j q c hj hq ha
    rcases (getElem?_set_some_iff (lt_of_getElem?_some hk)).mp hj with ⟨-, rfl⟩ | ⟨-, hj⟩
    · exact hheld c hq ha
    · obtain ⟨ha', hc⟩ := hothers c (h.known j q c hj hq) ha
      exact hc (h.held j q c hj hq ha')

namespace Inv
variable {s s' : State} {k : Nat} {r : Relay} {p : Phase}

/-- A step that changes neither the cache nor a connection. -/
theorem move (h : Inv s) (hk : s.relays[k]? = some r) (hp : ∀ c, p.held? = some c → r.phase.held? = some c)
    (hd : ∀ n, p ≠ .dialed n) : Inv (s.goTo k r p) :=
  h.put hk (Nat.le_refl _) h.cached (fun _ _ ha => ⟨ha, id⟩) (fun c hc => h.known k r c hk (hp c hc))
    (fun n hn => absurd hn (hd n)) (fun c hc ha => h.held k r c hk (hp c hc) ha)

/-- After `live` a relay goes on with what it has found, or without. -/
theorem live (h : Inv s) (hk : s.relays[k]? = some r) (hp : ∀ c, p.held? = some c → r.phase.held? = some c ∨ s.live.1 = some c)
    (hd : ∀ n, p ≠ .dialed n) : Inv (s.live.2.goTo k r p) := by
  unfold State.live at hp ⊢
  cases hc : s.cached with
  | none =>
    simp only [hc] at hp ⊢
    exact h.move hk (fun c hcp => (hp c hcp).resolve_right (by simp)) hd
  | some d =>
    simp only [hc] at hp ⊢
    cases ha : s.alive d with
    | true =>
      simp only [ha, if_true] at hp ⊢
      refine h.put hk (Nat.le_refl _) (by rw [hc]; exact fun c hcd => h.cached c (hc.trans hcd))
        (fun _ _ ha => ⟨ha, fun h => h⟩) (fun c hcp => ?_) (fun n hn => absurd hn (hd n)) (fun c hcp hac => ?_)
      · rcases hp c hcp with hh | hh
        · exact h.known k r c hk hh
        · cases hh
          exact h.cached d hc
      · rcases hp c hcp with hh | hh
        · exact h.held k r c hk hh hac
        · cases hh
          exact hc
    | false =>
      simp only [ha, Bool.false_eq_true, if_false] at hp ⊢
      have hdead : ∀ c, s.alive c = true → s.cached ≠ some c := by
        intro c hac hcc
        rw [hc] at hcc
        cases hcc
        rw [ha] at hac
        cases hac
      refine h.put hk (Nat.le_refl _) (fun c hcn => by cases hcn) (fun c _ hac => ⟨hac, fun hcc => absurd hcc (hdead c hac)⟩)
        (fun c hcp => ?_) (fun n hn => absurd hn (hd n)) (fun c hcp hac => ?_)
      · exact h.known k r c hk ((hp c hcp).resolve_right (by simp))
      · exact absurd (h.held k r c hk ((hp c hcp).resolve_right (by simp)) hac) (hdead c hac)

theorem dial (h : Inv s) (hk : s.relays[k]? = some r) :
    Inv ({ s with conns := s.conns ++ [true] }.goTo k r (.dialed s.conns.length)) := by
  refine h.put hk (by simp) (fun c hc => ?_) (fun c hlt ha => ⟨?_, id⟩) (fun c hc => by cases hc) (fun n hn => ?_)
    (fun c hc => by cases hc)
  · have := h.cached c hc
    simp only [List.length_append, List.length_singleton]
    omega
  · simpa [State.alive, List.getElem?_append_left hlt] using ha
  · cases hn
    simp

theorem insert (h : Inv s) (hk : s.relays[k]? = some r) {n : Nat} (hn : r.phase = .dialed n) :
    Inv ((s.insert n).2.goTo k r (.opening (s.insert n).1)) := by
  have hlt := h.dialed k r n hk hn
  -- The connection goes into the cache: it has no live one that another relay could hold.
  have hnew : (∀ d, s.cached = some d → s.alive d = false) →
      Inv ({ s with cached := some n }.goTo k r (.opening n)) := by
    intro hdead
    refine h.put hk (Nat.le_refl _) (fun c hc => by cases hc; exact hlt) (fun c _ ha => ⟨ha, fun hc => ?_⟩)
      (fun c hc => by cases hc; exact hlt) (fun m hm => by cases hm) (fun c hc _ => by cases hc; rfl)
    have hac : s.alive c = true := ha
    rw [hdead c hc] at hac
    cases hac
  unfold State.insert
  cases hc : s.cached with
  | none => exact hnew (fun d hd => by rw [hc] at hd; cases hd)
  | some e =>
    cases ha : s.alive e with
    | true =>
      simp only [ha, if_true]
      refine h.put hk (by simp [State.close]) (fun c hcc => ?_) (fun c _ hac => ?_) (fun c hcc => ?_) (fun m hm => by cases hm)
        (fun c hcc _ => ?_)
      · have := h.cached c hcc
        simpa [State.close] using this
      · have hac : (s.close n).alive c = true := hac
        rw [alive_close, Bool.and_eq_true] at hac
        exact ⟨hac.1, fun h => h⟩
      · cases hcc
        have := h.cached e hc
        simpa [State.close] using this
      · cases hcc
        exact hc
    | false =>
      simp only [ha, Bool.false_eq_true, if_false]
      exact hnew (fun d hd => by rw [hc] at hd; cases hd; exact ha)

theorem evict (h : Inv s) (hk : s.relays[k]? = some r) : Inv (s.evict.goTo k r .ended) := by
  unfold State.evict
  cases hc : s.cached with
  | none => exact h.move hk (fun c hcp => by cases hcp) (by simp)
  | some e =>
    refine h.put hk (by simp [State.close]) (fun c hcc => by cases hcc) (fun c _ hac => ?_) (fun c hcc => by cases hcc)
      (fun m hm => by cases hm) (fun c hcc => by cases hcc)
    have hac : (s.close e).alive c = true := hac
    rw [alive_close, Bool.and_eq_true, bne_iff_ne] at hac
    exact ⟨hac.1, fun hcc => absurd (Option.some.inj (hcc.symm.trans hc)) hac.2⟩

theorem go {answer : Answer} (h : Inv s) (hk : s.relays[k]? = some r) (hs : go s k r answer = some s') : Inv s' := by
  obtain ⟨audio, phase⟩ := r
  cases phase with
  | looking =>
    cases hl : s.live with
    | mk found s₁ =>
      have hs₁ : s₁ = s.live.2 := by rw [hl]
      cases found with
      | some c =>
        simp only [Broker.go, hl] at hs
        cases hs
        rw [hs₁]
        exact h.live hk (fun e he => .inr (by rw [hl]; exact he)) (by simp)
      | none =>
        simp only [Broker.go, hl] at hs
        cases hs
        rw [hs₁]
        exact h.live hk (fun e he => by cases he) (by simp)
  | dialing =>
    cases answer with
    | ok => cases hs; exact h.dial hk
    | failed => cases hs; exact h.move hk (fun e he => by cases he) (by simp)
    | tooLarge => cases hs; exact h.move hk (fun e he => by cases he) (by simp)
  | dialed n => cases hs; exact h.insert hk rfl
  | opening c =>
    cases answer with
    | ok =>
      simp only [Broker.go, Option.ite_none_right_eq_some] at hs
      obtain ⟨-, hs⟩ := hs
      cases hs
      cases audio with
      | true => exact h.move hk (fun e he => he) (by simp)
      | false => exact h.move hk (fun e he => he) (by simp)
    | failed => cases hs; exact h.move hk (fun e he => he) (by simp)
    | tooLarge => cases hs; exact h.move hk (fun e he => by cases he) (by simp)
  | evicting c => cases hs; exact h.evict hk
  | audioLooking c =>
    cases hl : s.live with
    | mk found s₁ =>
      have hs₁ : s₁ = s.live.2 := by rw [hl]
      cases found with
      | some d =>
        simp only [Broker.go, hl] at hs
        cases hs
        rw [hs₁]
        exact h.live hk (fun e he => .inl he) (by simp)
      | none =>
        simp only [Broker.go, hl] at hs
        cases hs
        rw [hs₁]
        exact h.live hk (fun e he => by cases he) (by simp)
  | streaming c => cases hs
  | bridging c d => cases hs
  | ended => cases hs

theorem step {a : Label} (h : Inv s) (hs : step s a = some s') : Inv s' := by
  cases a with
  | relay audio =>
    cases hs
    refine ⟨fun j q c hj hq => ?_, fun j q n hj hq => ?_, h.cached, fun j q c hj hq ha => ?_⟩
    · rcases getElem?_snoc_some_iff.mp hj with hj | ⟨-, rfl⟩
      · exact h.known j q c hj hq
      · cases hq
    · rcases getElem?_snoc_some_iff.mp hj with hj | ⟨-, rfl⟩
      · exact h.dialed j q n hj hq
      · cases hq
    · rcases getElem?_snoc_some_iff.mp hj with hj | ⟨-, rfl⟩
      · exact h.held j q c hj hq ha
      · cases hq
  | go k answer =>
    obtain ⟨r, hk, hs⟩ := Option.bind_eq_some_iff.mp hs
    exact h.go hk hs
  | drop k =>
    obtain ⟨r, hk, rfl⟩ := Option.map_eq_some_iff.mp hs
    exact h.move hk (fun e he => by cases he) (by simp)
  | die c =>
    cases hs
    have hlen : (s.close c).conns.length = s.conns.length := by simp [State.close]
    refine ⟨fun j q e hj hq => ?_, fun j q n hj hq => ?_, fun e he => ?_, fun j q e hj hq ha => ?_⟩
    · rw [hlen]
      exact h.known j q e hj hq
    · rw [hlen]
      exact h.dialed j q n hj hq
    · rw [hlen]
      exact h.cached e he
    · rw [alive_close, Bool.and_eq_true] at ha
      exact h.held j q e hj hq ha.1

end Inv

theorem inv_run {as : List Label} {t : State} (h : exec step start as = some t) : Inv t :=
  exec_inv (fun _ _ _ hs hi => hi.step hs) h inv_start

/-! ## Looking the cache up again -/

section
variable {s s' : State} {k : Nat} {r : Relay}

theorem conns_live : s.live.2.conns = s.conns := by
  unfold State.live
  split
  · rfl
  · split <;> rfl

theorem alive_of_conns {m m' : State} (h : m'.conns = m.conns) (e : Nat) : m'.alive e = m.alive e := by
  simp only [State.alive, h]

/-- `Own` in terms of the relay as it was and as it is after the step. -/
theorem own_of_relay (hk : s.relays[k]? = some r) {q : Relay} (hq : s'.relays[k]? = some q)
    (hcloses : ∀ e, s.alive e = true → s'.alive e = false → r.phase = .evicting e ∨ r.phase = .dialed e)
    (hevicts : ∀ c, r.phase = .evicting c → s'.alive c = false) (hbridges : ∀ c d, q.phase = .bridging c d → d = c) :
    Own s k s' where
  closes := fun e ha ha' => ⟨r, hk, hcloses e ha ha'⟩
  evicts := by
    intro r' c hr' hp
    rw [hk] at hr'
    cases hr'
    exact hevicts c hp
  bridges := by
    intro q' c d hq' hp
    rw [hq] at hq'
    cases hq'
    exact hbridges c d hp

/-- A step that closes nothing, hands nothing over and looks nothing up again. -/
theorem own_of_quiet (hk : s.relays[k]? = some r) (hclose : ∀ e, s.alive e = true → s'.alive e = true)
    (hag : r.phase.again? = none) {q : Relay} (hq : s'.relays[k]? = some q) (hb : ∀ c d, q.phase ≠ .bridging c d) :
    Own s k s' := by
  refine own_of_relay hk hq (fun e ha ha' => ?_) (fun c hp => ?_) fun c d hp => absurd hp (hb c d)
  · rw [hclose e ha] at ha'
    cases ha'
  · rw [hp] at hag
    cases hag

theorem relay_goTo {m : State} (hm : m.relays = s.relays) (hk : s.relays[k]? = some r) (p : Phase) :
    (m.goTo k r p).relays[k]? = some { r with phase := p } := by
  simp [State.goTo, hm, lt_of_getElem?_some hk]

theorem relays_live : s.live.2.relays = s.relays := by
  unfold State.live
  split
  · rfl
  · split <;> rfl

theorem own_evict (h : Inv s) (hk : s.relays[k]? = some r) {c : Nat} (hp : r.phase = .evicting c) :
    Own s k (s.evict.goTo k r .ended) ↔ s.unreplaced c = true := by
  have hheld : s.alive c = true → s.cached = some c := h.held k r c hk (by rw [hp]; rfl)
  unfold State.evict State.unreplaced
  cases hc : s.cached with
  | none =>
    refine ⟨fun _ => rfl, fun _ => own_of_relay hk (relay_goTo rfl hk _) (fun e ha ha' => ?_) (fun c' hp' => ?_) nofun⟩
    · have ha' : s.alive e = false := ha'
      rw [ha] at ha'
      cases ha'
    · rw [hp] at hp'
      cases hp'
      show s.alive c = false
      cases ha : s.alive c with
      | false => rfl
      | true => rw [hc] at hheld; cases hheld ha
  | some d =>
    have halive : ∀ e, ({ s.close d with cached := none }.goTo k r .ended).alive e = (s.alive e && e != d) := alive_close
    simp only [Bool.or_eq_true, beq_iff_eq, Bool.not_eq_true']
    constructor
    · intro hown
      cases ha : s.alive d with
      | false => exact .inr rfl
      | true =>
        obtain ⟨r', hr', hphase⟩ := hown.closes d ha (by rw [halive]; simp)
        rw [hk] at hr'
        cases hr'
        rw [hp] at hphase
        rcases hphase with heq | heq
        · cases heq
          exact .inl rfl
        · cases heq
    · intro hsafe
      have hended := relay_goTo (m := { s.close d with cached := none }) rfl hk .ended
      refine own_of_relay hk hended (fun e ha ha' => ?_) (fun c' hp' => ?_) nofun
      · rw [halive, ha, Bool.true_and, bne_eq_false_iff_eq] at ha'
        subst ha'
        rcases hsafe with rfl | hdead
        · exact .inl hp
        · rw [hdead] at ha
          cases ha
      · rw [hp] at hp'
        cases hp'
        rw [halive]
        cases ha : s.alive c with
        | false => rfl
        | true =>
          have hcd := hheld ha
          rw [hc] at hcd
          cases hcd
          simp

theorem unreplaced_iff {c : Nat} : s.unreplaced c = true ↔ ∀ d, s.live.1 = some d → d = c := by
  unfold State.unreplaced State.live
  cases hc : s.cached with
  | none => simp
  | some d => cases ha : s.alive d <;> simp [ha]

theorem own_audio (hk : s.relays[k]? = some r) {c : Nat} (hp : r.phase = .audioLooking c) {answer : Answer}
    (hs : go s k r answer = some s') : Own s k s' ↔ s.unreplaced c = true := by
  obtain ⟨audio, phase⟩ := r
  cases hp
  rw [unreplaced_iff]
  -- Whatever is found, no connection is closed.
  obtain ⟨p, rfl, hfound⟩ : ∃ p, s' = s.live.2.goTo k ⟨audio, .audioLooking c⟩ p ∧
      (s.live.1 = none ∧ p = .ended ∨ ∃ d, s.live.1 = some d ∧ p = .bridging c d) := by
    cases hl : s.live with
    | mk found s₁ =>
      cases found with
      | some d => simp only [go, hl] at hs; cases hs; exact ⟨_, rfl, .inr ⟨d, rfl, rfl⟩⟩
      | none => simp only [go, hl] at hs; cases hs; exact ⟨_, rfl, .inl ⟨rfl, rfl⟩⟩
  have hrelay := relay_goTo (m := s.live.2) relays_live hk p
  have halive : ∀ e, (s.live.2.goTo k ⟨audio, .audioLooking c⟩ p).alive e = s.alive e := alive_of_conns conns_live
  constructor
  · intro hown d hd
    rcases hfound with ⟨hnone, -⟩ | ⟨d', hd', rfl⟩
    · rw [hnone] at hd
      cases hd
    · rw [hd'] at hd
      cases hd
      exact hown.bridges _ c d hrelay rfl
  · intro hsafe
    refine own_of_relay hk hrelay (fun e ha ha' => ?_) nofun fun c' d hqp => ?_
    · rw [halive, ha] at ha'
      cases ha'
    · rcases hfound with ⟨-, rfl⟩ | ⟨d', hd', rfl⟩
      · cases hqp
      · cases hqp
        exact hsafe _ hd'

theorem alive_insert {n : Nat} {e : Nat} (ha : s.alive e = true) (ha' : (s.insert n).2.alive e = false) : e = n := by
  unfold State.insert at ha'
  split at ha'
  · split at ha'
    · rw [alive_close, ha, Bool.true_and, bne_eq_false_iff_eq] at ha'
      exact ha'
    · have ha' : s.alive e = false := ha'
      rw [ha] at ha'
      cases ha'
  · have ha' : s.alive e = false := ha'
    rw [ha] at ha'
    cases ha'

/-- A step of a relay is about its own connection exactly if it finds no other in its place. -/
theorem own_iff (h : Inv s) {answer : Answer} (hs : step s (.go k answer) = some s') :
    Own s k s' ↔ Unreplaced s (.go k answer) := by
  obtain ⟨r, hk, hs⟩ := Option.bind_eq_some_iff.mp hs
  have hcond : Unreplaced s (.go k answer) ↔ ∀ c, r.phase.again? = some c → s.unreplaced c = true := by
    simp only [Unreplaced, hk, Option.mem_def, Option.some.injEq, forall_eq']
  rw [hcond]
  obtain ⟨audio, phase⟩ := r
  have hquiet : ∀ {p : Phase} {m : State}, m.relays = s.relays → (∀ e, s.alive e = true → m.alive e = true) →
      phase.again? = none → (∀ c d, p ≠ .bridging c d) → Own s k (m.goTo k ⟨audio, phase⟩ p) :=
    fun hm halive hag hb => own_of_quiet hk halive hag (relay_goTo hm hk _) hb
  cases phase with
  | evicting c =>
    cases hs
    simpa [Phase.again?] using own_evict h hk rfl
  | audioLooking c => simpa [Phase.again?] using own_audio hk rfl hs
  | looking =>
    refine iff_of_true ?_ (fun c hc => by cases hc)
    have halive : ∀ e, s.alive e = true → s.live.2.alive e = true := fun e ha => (alive_of_conns conns_live e).trans ha
    cases hl : s.live with
    | mk found s₁ =>
      have hs₁ : s₁ = s.live.2 := by rw [hl]
      cases found with
      | some c =>
        simp only [go, hl] at hs
        cases hs
        exact hs₁ ▸ hquiet relays_live halive rfl (by simp)
      | none =>
        simp only [go, hl] at hs
        cases hs
        exact hs₁ ▸ hquiet relays_live halive rfl (by simp)
  | dialing =>
    refine iff_of_true ?_ (fun c hc => by cases hc)
    cases answer with
    | ok =>
      cases hs
      refine hquiet (m := { s with conns := s.conns ++ [true] }) rfl (fun e ha => ?_) rfl (by simp)
      have hlt : e < s.conns.length := lt_of_getElem?_some (beq_iff_eq.mp ha)
      simpa [State.alive, List.getElem?_append_left hlt] using ha
    | failed => cases hs; exact hquiet rfl (fun _ ha => ha) rfl (by simp)
    | tooLarge => cases hs; exact hquiet rfl (fun _ ha => ha) rfl (by simp)
  | dialed n =>
    refine iff_of_true ?_ (fun c hc => by cases hc)
    cases hs
    have hrelays : (s.insert n).2.relays = s.relays := by
      unfold State.insert
      split
      · split <;> rfl
      · rfl
    refine own_of_relay hk (relay_goTo hrelays hk _) (fun e ha ha' => ?_) nofun nofun
    rw [alive_insert ha ha']
    exact .inr rfl
  | opening c =>
    refine iff_of_true ?_ (fun c hc => by cases hc)
    cases answer with
    | ok =>
      simp only [go, Option.ite_none_right_eq_some] at hs
      obtain ⟨-, hs⟩ := hs
      cases hs
      exact hquiet rfl (fun _ ha => ha) rfl (by cases audio <;> simp)
    | failed => cases hs; exact hquiet rfl (fun _ ha => ha) rfl (by simp)
    | tooLarge => cases hs; exact hquiet rfl (fun _ ha => ha) rfl (by simp)
  | streaming c => cases hs
  | bridging c d => cases hs
  | ended => cases hs

end

/-- Relays close and use their own connections exactly in the runs in which none of them, when
it looks the cache up again, finds that another live connection has taken the place of its own. -/
theorem connection_identity {as : List Label} {t : State} (h : exec step start as = some t) :
    ConnectionIdentity as ↔ Meets step Unreplaced start as := by
  rw [meets_iff_splits h]
  constructor
  · rintro hown as₁ a as₂ m rfl hm
    obtain ⟨m₁, hm₁, ht⟩ := exec_append_some.mp h
    rw [hm] at hm₁
    cases hm₁
    obtain ⟨m', hs, -⟩ := exec_cons_some.mp ht
    cases a with
    | go k answer => exact (own_iff (inv_run hm) hs).mp (hown as₁ k answer as₂ m m' rfl hm hs)
    | relay | drop | die => trivial
  · intro hmeets as₁ k answer as₂ m m' heq hm hs
    exact (own_iff (inv_run hm) hs).mpr (hmeets as₁ _ as₂ m heq hm)

/-- Two relays share a connection; it dies, both fail to open on it and evict it, and the next
one dials again before audio is bridged. -/
def failThenRedial : List Label :=
  [.relay false, .relay false, .go 0 .ok, .go 0 .ok, .go 0 .ok, .go 1 .ok, .die 0, .go 0 .failed, .go 1 .failed, .go 0 .ok,
    .go 1 .ok, .relay true, .go 2 .ok, .go 2 .ok, .go 2 .ok, .go 2 .ok, .go 2 .ok]

theorem connection_identity_redial :
    Meets step Unreplaced start failThenRedial ∧ ∃ t, exec step start failThenRedial = some t ∧
      (ConnectionIdentity failThenRedial ↔ Meets step Unreplaced start failThenRedial) := by
  refine ⟨by decide +kernel, _, rfl, connection_identity rfl⟩

/-- Two relays fail on one connection; the first evicts it and a third dials a new one, which
the second relay's eviction closes. -/
theorem evicts_another : ¬ ∀ (as : List Label) (t : State), exec step start as = some t → ConnectionIdentity as := by
  intro h
  have hown := h [.relay false, .relay false, .go 0 .ok, .go 0 .ok, .go 0 .ok, .go 1 .ok, .go 0 .failed, .go 1 .failed,
    .go 0 .ok, .relay false, .go 2 .ok, .go 2 .ok, .go 2 .ok, .go 2 .ok, .go 1 .ok] _ rfl
    [.relay false, .relay false, .go 0 .ok, .go 0 .ok, .go 0 .ok, .go 1 .ok, .go 0 .failed, .go 1 .failed,
      .go 0 .ok, .relay false, .go 2 .ok, .go 2 .ok, .go 2 .ok, .go 2 .ok] 1 .ok [] _ _ rfl rfl rfl
  obtain ⟨r, hr, hphase⟩ := hown.closes 1 rfl rfl
  cases hr
  rcases hphase with hp | hp <;> cases hp

end Mux.Broker
