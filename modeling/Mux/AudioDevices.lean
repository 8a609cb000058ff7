import Mux.AudioPath
import Mux.AudioSound

/-!
# The devices of a pane take turns

At most one playback device of a pane is running, and it is the owner. What the channel and the spawned tasks still
hold tells `serve_route` which devices run: an application's packets reach the channel in its order, and the one
that says it has stopped comes last, whenever its task is dropped.
-/

namespace Mux.AudioPath

open Lib

/-- What `serve_route` knows a device by. -/
def Device.client (d : Device) : Nat × Bool := (d.id, d.capture)

/-- The device of a task that has not been dropped. -/
def Device.Live (d : Device) : Prop := d.phase ≠ .gone

/-- The same device, told to run or not. -/
def Device.told (d : Device) (active : Bool) : Device := { d with active := active, asked := d.asked || active }

@[simp] theorem Device.told_client (d : Device) (active : Bool) : (d.told active).client = d.client := rfl

/-! ## What a step can do -/

/-- Who may play, after a device is told. -/
def Told (r : Route) (d : Device) (active : Bool) (owner : Option Nat) : Prop :=
  if d.capture then owner = r.owner
  else if active then (r.owner = none ∨ r.owner = some d.id) ∧ owner = some d.id
  else owner = r.released d

inductive Effect (r : Route) (running : Bool) (captured : List Audio.Packet) : Route → Prop where
  | quiet : Effect r running captured r
  | join (id : Nat) (capture : Bool) (hnew : ∀ (k : Nat) (d : Device), r.devices[k]? = some d → d.id ≠ id) :
      Effect r running captured (r.join id capture captured.length)
  | leave (k : Nat) (d : Device) (hk : r.devices[k]? = some d) (hd : d.Live) : Effect r running captured (r.leave k d)
  | refuse (k : Nat) (d : Device) (hk : r.devices[k]? = some d) (hd : d.Live) (hc : d.capture = false)
      (ho : r.owner ≠ some d.id) : Effect r running captured (r.leave k (d.told true))
  | tell (k : Nat) (d : Device) (active : Bool) (owner : Option Nat) (hk : r.devices[k]? = some d)
      (hd : d.phase = .looping) (ho : Told r d active owner) :
      Effect r running captured
        { r with devices := r.devices.set k { d.told active with phase := .sending }, owner := owner }
  | samples (k : Nat) (d : Device) (pcm : Lib.Bytes) (hk : r.devices[k]? = some d) (hd : d.phase = .looping)
      (hc : d.capture = false) (ha : d.active = true) :
      Effect r running captured { r with events := r.events ++ [.playback pcm], played := r.played ++ [(d.id, pcm)] }
  | sent (k : Nat) (d : Device) (hk : r.devices[k]? = some d) (hd : d.phase = .sending) :
      Effect r running captured
        { r with
          devices := r.devices.set k { d with phase := .looping }
          events := r.events ++ [.running d.id d.capture d.active] }
  | stopped (x : Nat × Bool) (hx : x ∈ r.stopping) (hr : running = true) :
      Effect r running captured
        { r with stopping := r.stopping.erase x, events := r.events ++ [.running x.1 x.2 false] }
  | unheard (x : Nat × Bool) (hr : running = false) :
      Effect r running captured { r with stopping := r.stopping.erase x }
  | hear (k : Nat) (d e : Device) (kept : Bool) (hk : r.devices[k]? = some d) (hd : d.phase = .looping)
      (hc : d.capture = true) (he : d.hear captured kept = some e) :
      Effect r running captured { r with devices := r.devices.set k e }

section
variable {r r' : Route} {running : Bool} {captured : List Audio.Packet}

theorem effect_onControl {k : Nat} {d : Device} (active : Bool) (hk : r.devices[k]? = some d) (hd : d.phase = .looping) :
    Effect r running captured (r.onControl k d active) := by
  have hlive : d.Live := by simp [Device.Live, hd]
  unfold Route.onControl
  simp only
  split_ifs with hc ha ho
  · exact .tell k d active r.owner hk hd (by simp [Told, hc])
  · subst ha
    exact .tell k d true (some d.id) hk hd (by simp [Told, hc, ho])
  · subst ha
    obtain ⟨-, hother⟩ := not_or.mp ho
    exact .refuse k d hk hlive (by simpa using hc) hother
  · have hfalse : active = false := by simpa using ha
    subst hfalse
    exact .tell k d false (r.released d) hk hd (by simp [Told, hc])

theorem effect_onMessage {k : Nat} {d : Device} (data : Lib.Bytes) (hk : r.devices[k]? = some d)
    (hd : d.phase = .looping) : Effect r running captured (r.onMessage running k d data) := by
  have hlive : d.Live := by simp [Device.Live, hd]
  unfold Route.onMessage
  by_cases hsize : data.length > Audio.maxPcm + 1
  · rw [if_pos hsize]
    exact .leave k d hk hlive
  · rw [if_neg hsize]
    split
    · exact .leave k d hk hlive
    · exact effect_onControl false hk hd
    · exact effect_onControl true hk hd
    · split_ifs with hsamples
      · obtain ⟨-, hc, ha, -⟩ := hsamples
        exact .samples k d _ hk hd hc ha
      · exact .quiet
      · exact .leave k d hk hlive

/-- The name of a device that joins is a random number, and taken to be nobody else's. -/
def RouteLabel.Fresh (r : Route) : RouteLabel → Prop
  | .join id _ => ∀ d ∈ r.devices, d.id ≠ id
  | _ => True

theorem effect_of_step {l : RouteLabel} (hs : r.step running captured l = some r') (hfresh : l.Fresh r) :
    Effect r running captured r' := by
  cases l with
  | join id capture =>
    cases hs
    exact .join id capture fun k d hk => hfresh d (List.mem_of_getElem? hk)
  | message k data =>
    simp only [Route.step] at hs
    cases hk : r.devices[k]? with
    | none => simp [hk] at hs
    | some d =>
      obtain ⟨hd, rfl⟩ : d.phase = .looping ∧ r.onMessage running k d data = r' := by simpa [hk] using hs
      exact effect_onMessage data hk hd
  | send k =>
    simp only [Route.step] at hs
    cases hk : r.devices[k]? with
    | none => simp [hk] at hs
    | some d =>
      obtain ⟨hd, hsend⟩ : d.phase = .sending ∧ r.onSend running k d = some r' := by simpa [hk] using hs
      unfold Route.onSend at hsend
      split_ifs at hsend
      · cases hsend
        exact .leave k d hk (by simp [Device.Live, hd])
      · cases hsend
        exact .sent k d hk hd
  | leave k =>
    simp only [Route.step] at hs
    cases hk : r.devices[k]? with
    | none => simp [hk] at hs
    | some d =>
      obtain ⟨hd, rfl⟩ : d.phase = .looping ∧ r.leave k d = r' := by simpa [hk] using hs
      exact .leave k d hk (by simp [Device.Live, hd])
  | stop x =>
    simp only [Route.step, Route.onStop] at hs
    split_ifs at hs with hx hr hroom
    · cases hs
      exact .unheard x hr
    · cases hs
      exact .stopped x hx (by simpa using hr)
  | hear k kept =>
    simp only [Route.step] at hs
    cases hk : r.devices[k]? with
    | none => simp [hk] at hs
    | some d =>
      obtain ⟨⟨hd, hc⟩, e, he, rfl⟩ : (d.phase = .looping ∧ d.capture = true) ∧
          ∃ e, d.hear captured kept = some e ∧ { r with devices := r.devices.set k e } = r' := by
        simpa [hk] using hs
      exact .hear k d e kept hk hd hc he

/-- What a device hears does not change what it is. -/
theorem Device.hear_keeps (d : Device) {e : Device} {kept : Bool} (he : d.hear captured kept = some e) :
    e.client = d.client ∧ e.phase = d.phase ∧ e.active = d.active ∧ e.asked = d.asked := by
  unfold Device.hear at he
  by_cases hfar : captured.length - d.next > captureMax
  · rw [if_pos hfar] at he
    cases he
    exact ⟨rfl, rfl, rfl, rfl⟩
  · rw [if_neg hfar] at he
    cases hp : captured[d.next]? with
    | none => simp [hp] at he
    | some p =>
      simp only [hp, Option.some.injEq] at he
      subst he
      exact ⟨rfl, rfl, rfl, rfl⟩

/-! ## Who plays -/

structure Owned (r : Route) : Prop where
  unique : ∀ (j k : Nat) (d e : Device), r.devices[j]? = some d → r.devices[k]? = some e → d.id = e.id → j = k
  plays : ∀ (k : Nat) (d : Device), r.devices[k]? = some d → d.Live → d.capture = false →
    (d.active = true ↔ r.owner = some d.id)
  owner : ∀ id, r.owner = some id → ∃ (k : Nat) (d : Device), r.devices[k]? = some d ∧ d.id = id ∧ d.Live ∧ d.capture = false

theorem owned_open : Owned .open where
  unique j k d e hj := by simp [Route.open] at hj
  plays k d hk := by simp [Route.open] at hk
  owner id h := by simp [Route.open] at h

/-- A device keeps its name. -/
theorem Owned.unique_set (h : Owned r) {k : Nat} {d e : Device} (hk : r.devices[k]? = some d) (he : e.client = d.client) :
    ∀ (i j : Nat) (a b : Device), (r.devices.set k e)[i]? = some a → (r.devices.set k e)[j]? = some b →
      a.id = b.id → i = j := by
  have hlen := lt_of_getElem?_some hk
  have hid : e.id = d.id := congrArg Prod.fst he
  -- whatever stands at an index now, a device of the same name stood there before
  have hback : ∀ (i : Nat) (a : Device), (r.devices.set k e)[i]? = some a → ∃ b, r.devices[i]? = some b ∧ b.id = a.id := by
    intro i a ha
    rcases (getElem?_set_some_iff hlen).mp ha with ⟨rfl, rfl⟩ | ⟨-, ha⟩
    · exact ⟨d, hk, hid.symm⟩
    · exact ⟨a, ha, rfl⟩
  intro i j a b ha hb hab
  obtain ⟨a', ha', hida⟩ := hback i a ha
  obtain ⟨b', hb', hidb⟩ := hback j b hb
  exact h.unique i j a' b' ha' hb' (hida.trans (hab.trans hidb.symm))

/-- After a step that gives one device a new state and names the owner, it is enough to look at that device. -/
theorem Owned.set (h : Owned r) {k : Nat} {d e : Device} {owner : Option Nat} (hk : r.devices[k]? = some d)
    (he : e.client = d.client) (hsame : e.Live → e.capture = false → (e.active = true ↔ owner = some e.id))
    (hothers : ∀ id, id ≠ d.id → (owner = some id ↔ r.owner = some id))
    (hown : owner = some d.id → e.Live ∧ d.capture = false) {events : List Event} {stopping : List (Nat × Bool)}
    {played : List (Nat × Lib.Bytes)} :
    Owned { devices := r.devices.set k e, owner := owner, events := events, stopping := stopping, played := played } where
  unique := h.unique_set hk he
  plays := by
    intro j a ha hlive hc
    rcases (getElem?_set_some_iff (lt_of_getElem?_some hk)).mp ha with ⟨rfl, rfl⟩ | ⟨hj, ha⟩
    · exact hsame hlive hc
    · have hne : a.id ≠ d.id := fun hid => hj (h.unique j k a d ha hk hid)
      exact (h.plays j a ha hlive hc).trans (hothers a.id hne).symm
  owner := by
    intro id hid
    by_cases hd : id = d.id
    · subst hd
      obtain ⟨hlive, hc⟩ := hown hid
      exact ⟨k, e, getElem?_set_self_some hk, congrArg Prod.fst he, hlive, (congrArg Prod.snd he).trans hc⟩
    · obtain ⟨j, a, ha, rfl, hlive, hc⟩ := h.owner id ((hothers id hd).mp hid)
      have hj : j ≠ k := by
        rintro rfl
        rw [hk] at ha
        cases ha
        exact hd rfl
      exact ⟨j, a, getElem?_set_other hj ha, rfl, hlive, hc⟩

theorem released_some {d : Device} {id : Nat} : r.released d = some id ↔
    r.owner = some id ∧ ¬ (d.capture = false ∧ id = d.id) := by
  unfold Route.released
  split_ifs with h
  · obtain ⟨hc, ho⟩ := h
    simp [ho, hc, eq_comm]
  · constructor
    · intro ho
      refine ⟨ho, ?_⟩
      rintro ⟨hc, rfl⟩
      exact h ⟨hc, ho⟩
    · exact And.left

/-- The owner is a playback device. -/
theorem Owned.owner_capture (h : Owned r) {k : Nat} {d : Device} (hk : r.devices[k]? = some d)
    (ho : r.owner = some d.id) : d.Live ∧ d.capture = false := by
  obtain ⟨j, a, ha, hid, hlive, hc⟩ := h.owner d.id ho
  obtain rfl := h.unique j k a d ha hk hid
  rw [hk] at ha
  cases ha
  exact ⟨hlive, hc⟩

theorem Owned.leave (h : Owned r) {k : Nat} {d : Device} (hk : r.devices[k]? = some d) (e : Device)
    (he : e.client = d.client) : Owned (r.leave k e) := by
  have hid : e.id = d.id := congrArg Prod.fst he
  have hc : e.capture = d.capture := congrArg Prod.snd he
  refine h.set (e := { e with phase := .gone }) hk he (fun hlive => absurd rfl hlive) ?_ ?_
  · intro id hne
    rw [released_some, hid, hc]
    simp [hne]
  · intro ho
    obtain ⟨ho, hnot⟩ := released_some.mp ho
    obtain ⟨-, hcd⟩ := h.owner_capture hk ho
    exact absurd ⟨hc.trans hcd, hid.symm⟩ hnot

theorem Owned.effect (h : Owned r) (he : Effect r running captured r') : Owned r' := by
  cases he with
  | quiet => exact h
  | join id capture hnew =>
    refine ⟨?_, ?_, ?_⟩
    · intro i j a b ha hb hab
      rcases getElem?_snoc_some_iff.mp ha with ha | ⟨hi, rfl⟩
      · rcases getElem?_snoc_some_iff.mp hb with hb | ⟨-, rfl⟩
        · exact h.unique i j a b ha hb hab
        · exact absurd hab (hnew i a ha)
      · rcases getElem?_snoc_some_iff.mp hb with hb | ⟨hj, rfl⟩
        · exact absurd hab.symm (hnew j b hb)
        · exact hi.trans hj.symm
    · intro j a ha hlive hc
      rcases getElem?_snoc_some_iff.mp ha with ha | ⟨-, rfl⟩
      · exact h.plays j a ha hlive hc
      · refine iff_of_false (by simp) ?_
        intro ho
        obtain ⟨i, b, hb, hid, -⟩ := h.owner id ho
        exact hnew i b hb hid
    · intro i ho
      obtain ⟨j, a, ha, hid⟩ := h.owner i ho
      exact ⟨j, a, getElem?_snoc_some_iff.mpr (.inl ha), hid⟩
  | leave k d hk hd => exact h.leave hk d rfl
  | refuse k d hk hd hc ho => exact h.leave hk (d.told true) rfl
  | tell k d active owner hk hd ho =>
    have hlive : d.Live := by simp [Device.Live, hd]
    unfold Told at ho
    cases hc : d.capture with
    | true =>
      simp only [hc, if_true] at ho
      subst ho
      refine h.set (e := { d.told active with phase := .sending }) hk rfl (fun _ hc' => ?_) (fun _ _ => Iff.rfl) ?_
      · exact absurd (hc.symm.trans hc') (by decide)
      · intro ho
        obtain ⟨-, hc'⟩ := h.owner_capture hk ho
        exact absurd (hc.symm.trans hc') (by decide)
    | false =>
      simp only [hc, Bool.false_eq_true, if_false] at ho
      cases active with
      | true =>
        obtain ⟨hfree, rfl⟩ : (r.owner = none ∨ r.owner = some d.id) ∧ owner = some d.id := by simpa using ho
        refine h.set (e := { d.told true with phase := .sending }) hk rfl (fun _ _ => ?_) ?_
          (fun _ => ⟨(fun hp => nomatch hp), hc⟩)
        · exact iff_of_true rfl rfl
        · intro id hne
          refine iff_of_false (fun heq => hne (Option.some.inj heq).symm) ?_
          rcases hfree with hnone | hown
          · simp [hnone]
          · simpa [hown] using Ne.symm hne
      | false =>
        obtain rfl : owner = r.released d := by simpa using ho
        refine h.set (e := { d.told false with phase := .sending }) hk rfl (fun _ _ => ?_) ?_ ?_
        · refine iff_of_false (by simp [Device.told]) ?_
          intro hown
          exact (released_some.mp hown).2 ⟨hc, rfl⟩
        · intro id hne
          rw [released_some]
          simp [hne]
        · intro hown
          exact absurd ⟨hc, rfl⟩ (released_some.mp hown).2
  | samples k d pcm hk hd hc ha => exact ⟨h.unique, h.plays, h.owner⟩
  | sent k d hk hd =>
    have hlive : d.Live := by simp [Device.Live, hd]
    refine h.set (e := { d with phase := .looping }) hk rfl (fun _ hc => h.plays k d hk hlive hc)
      (fun _ _ => Iff.rfl) ?_
    intro ho
    exact ⟨(fun hp => nomatch hp), (h.owner_capture hk ho).2⟩
  | stopped x hx hr => exact ⟨h.unique, h.plays, h.owner⟩
  | unheard x hr => exact ⟨h.unique, h.plays, h.owner⟩
  | hear k d e kept hk hd hc he =>
    have hsame : e.client = d.client := (d.hear_keeps he).1
    have hcapture : e.capture = d.capture := congrArg Prod.snd hsame
    refine h.set hk hsame (fun _ hc' => ?_) (fun _ _ => Iff.rfl) ?_
    · rw [hcapture, hc] at hc'
      cases hc'
    · intro ho
      obtain ⟨-, hc'⟩ := h.owner_capture hk ho
      rw [hc] at hc'
      cases hc'

/-! ## What `serve_route` will know -/

/-- Whether a client is known to run, once these events have been read. -/
def announced (x : Nat × Bool) : Bool → List Event → Bool
  | b, [] => b
  | b, .running id capture active :: events => announced x (if (id, capture) = x then active else b) events
  | b, .playback _ :: events => announced x b events

theorem announced_snoc_running (x : Nat × Bool) (b : Bool) (events : List Event) (id : Nat) (capture active : Bool) :
    announced x b (events ++ [.running id capture active]) = if (id, capture) = x then active else announced x b events := by
  induction events generalizing b with
  | nil => rfl
  | cons e events ih => cases e <;> exact ih _

theorem announced_snoc_self {x : Nat × Bool} {b : Bool} {events : List Event} {id : Nat} {capture active : Bool}
    (h : (id, capture) = x) : announced x b (events ++ [.running id capture active]) = active := by
  rw [announced_snoc_running, if_pos h]

theorem announced_snoc_other {x : Nat × Bool} {b : Bool} {events : List Event} {id : Nat} {capture active : Bool}
    (h : (id, capture) ≠ x) : announced x b (events ++ [.running id capture active]) = announced x b events := by
  rw [announced_snoc_running, if_neg h]

theorem announced_snoc_playback (x : Nat × Bool) (b : Bool) (events : List Event) (pcm : Lib.Bytes) :
    announced x b (events ++ [.playback pcm]) = announced x b events := by
  induction events generalizing b with
  | nil => rfl
  | cons e events ih => cases e <;> exact ih _

/-- Of a client that no event is about, nothing changes. -/
theorem announced_of_silent {x : Nat × Bool} {events : List Event} (h : ∀ active, .running x.1 x.2 active ∉ events)
    (b : Bool) : announced x b events = b := by
  induction events generalizing b with
  | nil => rfl
  | cons e events ih =>
    have hrest : ∀ active, .running x.1 x.2 active ∉ events := fun active hm => h active (List.mem_cons_of_mem _ hm)
    cases e with
    | playback pcm => exact ih hrest b
    | running id capture active =>
      have hne : (id, capture) ≠ x := by
        rintro rfl
        exact h active List.mem_cons_self
      rw [announced, if_neg hne]
      exact ih hrest b

/-- What is still under way leaves `serve_route` with the devices as they are: for each that loops the last word is
whether it runs, and one that has been dropped has still to say that it stopped, or has said so. -/
structure Tracked (r : Route) (clients : List (Nat × Bool)) : Prop where
  looping : ∀ (k : Nat) (d : Device), r.devices[k]? = some d → d.phase = .looping →
    announced d.client (decide (d.client ∈ clients)) r.events = d.active
  gone : ∀ (k : Nat) (d : Device), r.devices[k]? = some d → d.phase = .gone →
    d.client ∈ r.stopping ∨ announced d.client (decide (d.client ∈ clients)) r.events = false
  stopping : ∀ x ∈ r.stopping, ∃ (k : Nat) (d : Device), r.devices[k]? = some d ∧ d.phase = .gone ∧ d.client = x
  known : ∀ x, x ∈ clients ∨ (∃ active, .running x.1 x.2 active ∈ r.events) →
    ∃ (k : Nat) (d : Device), r.devices[k]? = some d ∧ d.client = x

theorem tracked_open : Tracked .open [] where
  looping k d hk := by simp [Route.open] at hk
  gone k d hk := by simp [Route.open] at hk
  stopping x hx := by simp [Route.open] at hx
  known x hx := by simp [Route.open] at hx

variable {clients : List (Nat × Bool)}

theorem client_ne {r : Route} (h : Owned r) {j k : Nat} {d e : Device} (hj : r.devices[j]? = some d)
    (hk : r.devices[k]? = some e) (hjk : j ≠ k) : d.client ≠ e.client :=
  fun heq => hjk (h.unique j k d e hj hk (congrArg Prod.fst heq))

/-- One device changes, and with it what is said of it. -/
theorem Tracked.set (h : Tracked r clients) (ho : Owned r) {k : Nat} {d e : Device} (hk : r.devices[k]? = some d)
    (he : e.client = d.client) (hd : d.Live) {owner : Option Nat} {events : List Event} {stopping : List (Nat × Bool)}
    {played : List (Nat × Lib.Bytes)}
    (hothers : ∀ x, x ≠ d.client → announced x (decide (x ∈ clients)) events = announced x (decide (x ∈ clients)) r.events)
    (hlooping : e.phase = .looping → announced d.client (decide (d.client ∈ clients)) events = d.active ∧ e.active = d.active)
    (hgone : e.phase = .gone → d.client ∈ stopping)
    (hstopping : ∀ x, x ∈ stopping ↔ x ∈ r.stopping ∨ (e.phase = .gone ∧ x = d.client))
    (hknown : ∀ x active, .running x.1 x.2 active ∈ events → .running x.1 x.2 active ∈ r.events ∨ x = d.client) :
    Tracked { devices := r.devices.set k e, owner := owner, events := events, stopping := stopping, played := played }
      clients where
  looping := by
    intro j a ha hphase
    rcases (getElem?_set_some_iff (lt_of_getElem?_some hk)).mp ha with ⟨rfl, rfl⟩ | ⟨hj, ha⟩
    · obtain ⟨hsaid, hactive⟩ := hlooping hphase
      rw [he, hactive]
      exact hsaid
    · rw [hothers _ (client_ne ho ha hk hj)]
      exact h.looping j a ha hphase
  gone := by
    intro j a ha hphase
    rcases (getElem?_set_some_iff (lt_of_getElem?_some hk)).mp ha with ⟨rfl, rfl⟩ | ⟨hj, ha⟩
    · rw [he]
      exact .inl (hgone hphase)
    · rw [hothers _ (client_ne ho ha hk hj)]
      exact (h.gone j a ha hphase).imp_left fun hx => (hstopping _).mpr (.inl hx)
  stopping := by
    intro x hx
    rcases (hstopping x).mp hx with hx | ⟨hphase, rfl⟩
    · obtain ⟨j, a, ha, hphase, hax⟩ := h.stopping x hx
      have hj : j ≠ k := by
        rintro rfl
        rw [hk] at ha
        cases ha
        exact hd hphase
      exact ⟨j, a, getElem?_set_other hj ha, hphase, hax⟩
    · exact ⟨k, e, getElem?_set_self_some hk, hphase, he⟩
  known := by
    intro x hx
    have hold : (∃ (j : Nat) (a : Device), r.devices[j]? = some a ∧ a.client = x) := by
      rcases hx with hx | ⟨active, hx⟩
      · exact h.known x (.inl hx)
      · rcases hknown x active hx with hx | rfl
        · exact h.known x (.inr ⟨active, hx⟩)
        · exact ⟨k, d, hk, rfl⟩
    obtain ⟨j, a, ha, hax⟩ := hold
    by_cases hj : j = k
    · subst hj
      rw [hk] at ha
      cases ha
      exact ⟨j, e, getElem?_set_self_some hk, he.trans hax⟩
    · exact ⟨j, a, getElem?_set_other hj ha, hax⟩

theorem Tracked.leave (h : Tracked r clients) (ho : Owned r) {k : Nat} {d e : Device} (hk : r.devices[k]? = some d)
    (he : e.client = d.client) (hd : d.Live) : Tracked (r.leave k e) clients := by
  have hx : (e.id, e.capture) = d.client := he
  refine h.set (e := { e with phase := .gone }) ho hk he hd (fun _ _ => rfl) (fun hp => nomatch hp) ?_ ?_
    (fun x active hx => .inl hx)
  · intro _
    rw [hx]
    exact List.mem_append_right _ (List.mem_singleton_self _)
  · intro x
    rw [hx, List.mem_append, List.mem_singleton]
    simp

theorem Tracked.effect (h : Tracked r clients) (ho : Owned r) (he : Effect r running captured r') (hr : running = true) :
    Tracked r' clients := by
  cases he with
  | quiet => exact h
  | join id capture hnew =>
    have hnone : ∀ x, (x ∈ clients ∨ ∃ active, .running x.1 x.2 active ∈ r.events) → x ≠ (id, capture) := by
      rintro x hx rfl
      obtain ⟨k, d, hk, hd⟩ := h.known _ hx
      exact hnew k d hk (congrArg Prod.fst hd)
    refine ⟨?_, ?_, ?_, ?_⟩
    · intro j a ha hphase
      rcases getElem?_snoc_some_iff.mp ha with ha | ⟨-, rfl⟩
      · exact h.looping j a ha hphase
      · have hsilent : announced (id, capture) (decide ((id, capture) ∈ clients)) r.events =
            decide ((id, capture) ∈ clients) :=
          announced_of_silent (fun active hm => hnone _ (.inr ⟨active, hm⟩) rfl) _
        rw [Device.client, Route.join, hsilent]
        exact decide_eq_false fun hm => hnone _ (.inl hm) rfl
    · intro j a ha hphase
      rcases getElem?_snoc_some_iff.mp ha with ha | ⟨-, rfl⟩
      · exact h.gone j a ha hphase
      · cases hphase
    · intro x hx
      obtain ⟨j, a, ha, hax⟩ := h.stopping x hx
      exact ⟨j, a, getElem?_snoc_some_iff.mpr (.inl ha), hax⟩
    · intro x hx
      obtain ⟨j, a, ha, hax⟩ := h.known x hx
      exact ⟨j, a, getElem?_snoc_some_iff.mpr (.inl ha), hax⟩
  | leave k d hk hd => exact h.leave ho hk rfl hd
  | refuse k d hk hd hc hown => exact h.leave (e := d.told true) ho hk rfl hd
  | tell k d active owner hk hd hown =>
    have hlive : d.Live := by simp [Device.Live, hd]
    exact h.set (e := { d.told active with phase := .sending }) ho hk rfl hlive (fun _ _ => rfl) (fun hp => nomatch hp)
      (fun hp => nomatch hp) (fun x => by simp) (fun x active hx => .inl hx)
  | samples k d pcm hk hd hc ha =>
    refine ⟨?_, ?_, h.stopping, ?_⟩
    · intro j a ha hphase
      rw [announced_snoc_playback]
      exact h.looping j a ha hphase
    · intro j a ha hphase
      rw [announced_snoc_playback]
      exact h.gone j a ha hphase
    · intro x hx
      refine h.known x (hx.imp_right ?_)
      rintro ⟨active, hm⟩
      exact ⟨active, by simpa using hm⟩
  | sent k d hk hd =>
    have hlive : d.Live := by simp [Device.Live, hd]
    refine h.set (e := { d with phase := .looping }) ho hk rfl hlive ?_ ?_ (fun hp => nomatch hp) (fun x => by simp) ?_
    · intro x hx
      exact announced_snoc_other (Ne.symm hx)
    · intro _
      exact ⟨announced_snoc_self rfl, rfl⟩
    · intro x active hm
      rcases List.mem_append.mp hm with hm | hm
      · exact .inl hm
      · simp only [List.mem_singleton, Event.running.injEq] at hm
        exact .inr (Prod.ext hm.1 hm.2.1)
  | stopped x hx _ =>
    -- the client of a dropped task is no other's
    obtain ⟨k, d, hk, hd, rfl⟩ := h.stopping x hx
    refine ⟨?_, ?_, ?_, ?_⟩
    · intro j a ha hphase
      have hj : j ≠ k := by
        rintro rfl
        rw [hk] at ha
        cases ha
        rw [hd] at hphase
        cases hphase
      have hne : (d.client.1, d.client.2) ≠ a.client := client_ne ho hk ha (Ne.symm hj)
      rw [announced_snoc_other hne]
      exact h.looping j a ha hphase
    · intro j a ha hphase
      by_cases hsame : (d.client.1, d.client.2) = a.client
      · exact .inr (announced_snoc_self hsame)
      · rw [announced_snoc_other hsame]
        exact (h.gone j a ha hphase).imp_left fun hm => (List.mem_erase_of_ne (Ne.symm hsame)).mpr hm
    · intro y hy
      exact h.stopping y (List.mem_of_mem_erase hy)
    · intro y hy
      rcases hy with hy | ⟨active, hm⟩
      · exact h.known y (.inl hy)
      · rcases List.mem_append.mp hm with hm | hm
        · exact h.known y (.inr ⟨active, hm⟩)
        · simp only [List.mem_singleton, Event.running.injEq] at hm
          exact ⟨k, d, hk, (Prod.ext hm.1 hm.2.1).symm⟩
  | unheard x hr' =>
    rw [hr] at hr'
    cases hr'
  | hear k d e kept hk hd hc he =>
    obtain ⟨hsame, hphase, hactive, -⟩ := d.hear_keeps he
    have hlive : d.Live := by simp [Device.Live, hd]
    refine h.set ho hk hsame hlive (fun _ _ => rfl) (fun _ => ⟨h.looping k d hk hd, hactive⟩) ?_ ?_
      (fun x active hx => .inl hx)
    · intro hgone
      rw [hphase, hd] at hgone
      cases hgone
    · intro x
      rw [hphase, hd]
      simp

/-- `serve_route` has read that a device runs or does not. -/
theorem Tracked.read_running (h : Tracked r clients) {id : Nat} {capture active : Bool} {rest : List Event}
    (he : r.events = .running id capture active :: rest) {clients' : List (Nat × Bool)}
    (hc : ∀ x, x ∈ clients' ↔ if (id, capture) = x then active = true else x ∈ clients) :
    Tracked { r with events := rest } clients' := by
  have hsaid : ∀ x, announced x (decide (x ∈ clients')) rest = announced x (decide (x ∈ clients)) r.events := by
    intro x
    rw [he, announced]
    congr 1
    have hmem := hc x
    by_cases hx : (id, capture) = x
    · rw [if_pos hx] at hmem ⊢
      simp [hmem]
    · rw [if_neg hx] at hmem ⊢
      simp [hmem]
  refine ⟨?_, ?_, h.stopping, ?_⟩
  · intro k d hk hd
    rw [hsaid]
    exact h.looping k d hk hd
  · intro k d hk hd
    rw [hsaid]
    exact h.gone k d hk hd
  · intro x hx
    by_cases hsame : (id, capture) = x
    · subst hsame
      exact h.known _ (.inr ⟨active, by simp [he]⟩)
    · rcases hx with hx | ⟨b, hm⟩
      · rw [hc, if_neg hsame] at hx
        exact h.known x (.inl hx)
      · exact h.known x (.inr ⟨b, by rw [he]; exact List.mem_cons_of_mem _ hm⟩)

theorem Tracked.read_playback (h : Tracked r clients) {pcm : Lib.Bytes} {rest : List Event}
    (he : r.events = .playback pcm :: rest) : Tracked { r with events := rest } clients := by
  have hsaid : ∀ x b, announced x b rest = announced x b r.events := by
    intro x b
    rw [he, announced]
  refine ⟨?_, ?_, h.stopping, ?_⟩
  · intro k d hk hd
    rw [hsaid]
    exact h.looping k d hk hd
  · intro k d hk hd
    rw [hsaid]
    exact h.gone k d hk hd
  · intro x hx
    refine h.known x (hx.imp_right ?_)
    rintro ⟨active, hm⟩
    exact ⟨active, by rw [he]; exact List.mem_cons_of_mem _ hm⟩

/-- When nothing is under way any more, `serve_route` knows exactly the devices that run. -/
theorem Tracked.settled (h : Tracked r clients) (he : r.events = []) (hs : r.stopping = [])
    (hd : ∀ (k : Nat) (d : Device), r.devices[k]? = some d → d.phase ≠ .sending) (x : Nat × Bool) :
    x ∈ clients ↔ ∃ (k : Nat) (d : Device), r.devices[k]? = some d ∧ d.Live ∧ d.active = true ∧ d.client = x := by
  constructor
  · intro hx
    obtain ⟨k, d, hk, rfl⟩ := h.known x (.inl hx)
    refine ⟨k, d, hk, ?_⟩
    cases hphase : d.phase with
    | looping =>
      have hsaid := h.looping k d hk hphase
      rw [he, announced] at hsaid
      exact ⟨by simp [Device.Live, hphase], hsaid.symm.trans (decide_eq_true hx), rfl⟩
    | sending => exact absurd hphase (hd k d hk)
    | gone =>
      rcases h.gone k d hk hphase with hm | hsaid
      · rw [hs] at hm
        cases hm
      · rw [he, announced] at hsaid
        exact absurd hx (of_decide_eq_false hsaid)
  · rintro ⟨k, d, hk, hlive, hactive, rfl⟩
    have hphase : d.phase = .looping := by
      cases hp : d.phase with
      | looping => rfl
      | sending => exact absurd hp (hd k d hk)
      | gone => exact absurd hp hlive
    have hsaid := h.looping k d hk hphase
    rw [he, announced, hactive] at hsaid
    exact of_decide_eq_true hsaid

/-! ## What the applications hear -/

/-- Every device has passed on packets of the broadcast, in order and none twice, from before where it is. -/
def Heard (r : Route) (captured : List Audio.Packet) : Prop :=
  ∀ (k : Nat) (d : Device), r.devices[k]? = some d → d.next ≤ captured.length ∧ d.heard.Sublist (captured.take d.next)

theorem heard_hear {d e : Device} {kept : Bool} (h : d.next ≤ captured.length ∧ d.heard.Sublist (captured.take d.next))
    (he : d.hear captured kept = some e) : e.next ≤ captured.length ∧ e.heard.Sublist (captured.take e.next) := by
  obtain ⟨hnext, hheard⟩ := h
  unfold Device.hear at he
  by_cases hfar : captured.length - d.next > captureMax
  · rw [if_pos hfar] at he
    cases he
    refine ⟨Nat.sub_le _ _, hheard.trans ?_⟩
    apply (List.take_prefix_take_left (by simp only; omega)).sublist
  · rw [if_neg hfar] at he
    cases hp : captured[d.next]? with
    | none => simp [hp] at he
    | some p =>
      simp only [hp, Option.some.injEq] at he
      subst he
      have hlt := lt_of_getElem?_some hp
      have htake : captured.take (d.next + 1) = captured.take d.next ++ [p] := by
        rw [List.take_add_one, hp]
        rfl
      refine ⟨hlt, ?_⟩
      simp only [htake]
      split_ifs
      · exact hheard.append (List.Sublist.refl _)
      · exact hheard.trans (List.sublist_append_left _ _)

theorem Heard.set (h : Heard r captured) {k : Nat} {e : Device}
    (he : e.next ≤ captured.length ∧ e.heard.Sublist (captured.take e.next)) {owner : Option Nat} {events : List Event}
    {stopping : List (Nat × Bool)} {played : List (Nat × Lib.Bytes)} :
    Heard { devices := r.devices.set k e, owner := owner, events := events, stopping := stopping, played := played }
      captured := by
  intro j a ha
  simp only at ha
  by_cases hlen : k < r.devices.length
  · rcases (getElem?_set_some_iff hlen).mp ha with ⟨-, rfl⟩ | ⟨-, ha⟩
    · exact he
    · exact h j a ha
  · rw [List.set_eq_of_length_le (by omega)] at ha
    exact h j a ha

theorem Heard.effect (h : Heard r captured) (he : Effect r running captured r') : Heard r' captured := by
  cases he with
  | quiet => exact h
  | join id capture hnew =>
    intro j a ha
    rcases getElem?_snoc_some_iff.mp ha with ha | ⟨-, rfl⟩
    · exact h j a ha
    · exact ⟨le_refl _, List.nil_sublist _⟩
  | leave k d hk hd => exact h.set (e := { d with phase := .gone }) (h k d hk)
  | refuse k d hk hd hc ho => exact h.set (e := { d.told true with phase := .gone }) (h k d hk)
  | tell k d active owner hk hd ho => exact h.set (e := { d.told active with phase := .sending }) (h k d hk)
  | samples k d pcm hk hd hc ha => exact h
  | sent k d hk hd => exact h.set (e := { d with phase := .looping }) (h k d hk)
  | stopped x hx hr => exact h
  | unheard x hr => exact h
  | hear k d e kept hk hd hc he => exact h.set (heard_hear (h k d hk) he)

/-- The broadcast goes on. -/
theorem Heard.mono (h : Heard r captured) {captured' : List Audio.Packet} (hp : captured <+: captured') :
    Heard r captured' := by
  intro k d hk
  obtain ⟨hnext, hheard⟩ := h k d hk
  obtain ⟨new, rfl⟩ := hp
  refine ⟨by rw [List.length_append]; omega, ?_⟩
  rwa [List.take_append_of_le_length hnext]

/-! ## Who has asked -/

/-- An application has asked for the microphone. -/
def Asked (r : Route) : Prop := ∃ d ∈ r.devices, d.capture = true ∧ d.asked = true

theorem Asked.effect (h : Asked r) (he : Effect r running captured r') : Asked r' := by
  have hset : ∀ (k : Nat) (d e : Device), r.devices[k]? = some d → e.capture = d.capture →
      (d.asked = true → e.asked = true) → ∃ a ∈ r.devices.set k e, a.capture = true ∧ a.asked = true := by
    intro k d e hk hc ha
    obtain ⟨a, ham, hac, haa⟩ := h
    obtain ⟨j, hj⟩ := List.getElem?_of_mem ham
    by_cases hjk : j = k
    · subst hjk
      rw [hk] at hj
      cases hj
      exact ⟨e, List.mem_of_getElem? (getElem?_set_self_some hk), hc.trans hac, ha haa⟩
    · exact ⟨a, List.mem_of_getElem? (getElem?_set_other hjk hj), hac, haa⟩
  cases he with
  | quiet => exact h
  | join id capture hnew =>
    obtain ⟨a, ham, ha⟩ := h
    exact ⟨a, List.mem_append_left _ ham, ha⟩
  | leave k d hk hd => exact hset k d _ hk rfl id
  | refuse k d hk hd hc ho => exact hset k d _ hk rfl fun _ => by simp [Device.told]
  | tell k d active owner hk hd ho => exact hset k d _ hk rfl fun ha => by simp [Device.told, ha]
  | samples k d pcm hk hd hc ha => exact h
  | sent k d hk hd => exact hset k d _ hk rfl id
  | stopped x hx hr => exact h
  | unheard x hr => exact h
  | hear k d e kept hk hd hc he =>
    obtain ⟨hsame, -, -, hasked⟩ := d.hear_keeps he
    exact hset k d e hk (congrArg Prod.snd hsame) fun ha => hasked.trans ha

/-- Only a device that was told to run says so. -/
structure Honest (r : Route) : Prop where
  active : ∀ (k : Nat) (d : Device), r.devices[k]? = some d → d.active = true → d.asked = true
  events : ∀ id, .running id true true ∈ r.events → Asked r

theorem Honest.effect (h : Honest r) (he : Effect r running captured r') : Honest r' := by
  have hset : ∀ (k : Nat) (e : Device), (e.active = true → e.asked = true) →
      ∀ (j : Nat) (a : Device), (r.devices.set k e)[j]? = some a → a.active = true → a.asked = true := by
    intro k e he j a ha hactive
    by_cases hlen : k < r.devices.length
    · rcases (getElem?_set_some_iff hlen).mp ha with ⟨-, rfl⟩ | ⟨-, ha⟩
      · exact he hactive
      · exact h.active j a ha hactive
    · rw [List.set_eq_of_length_le (by omega)] at ha
      exact h.active j a ha hactive
  have hmono : Asked r → Asked r' := fun ha => ha.effect he
  cases he with
  | quiet => exact h
  | join id capture hnew =>
    refine ⟨?_, fun id hm => hmono (h.events id hm)⟩
    intro j a ha hactive
    rcases getElem?_snoc_some_iff.mp ha with ha | ⟨-, rfl⟩
    · exact h.active j a ha hactive
    · cases hactive
  | leave k d hk hd => exact ⟨hset k _ (h.active k d hk), fun id hm => hmono (h.events id hm)⟩
  | refuse k d hk hd hc ho => exact ⟨hset k _ fun _ => by simp [Device.told], fun id hm => hmono (h.events id hm)⟩
  | tell k d active owner hk hd ho =>
    refine ⟨hset k _ fun ha => ?_, fun id hm => hmono (h.events id hm)⟩
    have : active = true := ha
    simp [Device.told, this]
  | samples k d pcm hk hd hc ha => exact ⟨h.active, fun id hm => hmono (h.events id (by simpa using hm))⟩
  | sent k d hk hd =>
    refine ⟨hset k _ (h.active k d hk), fun id hm => ?_⟩
    rcases List.mem_append.mp hm with hm | hm
    · exact hmono (h.events id hm)
    · simp only [List.mem_singleton, Event.running.injEq] at hm
      obtain ⟨-, hc, ha⟩ := hm
      exact hmono ⟨d, List.mem_of_getElem? hk, hc.symm, h.active k d hk ha.symm⟩
  | stopped x hx hr =>
    refine ⟨h.active, fun id hm => ?_⟩
    rcases List.mem_append.mp hm with hm | hm
    · exact hmono (h.events id hm)
    · simp at hm
  | unheard x hr => exact ⟨h.active, fun id hm => hmono (h.events id hm)⟩
  | hear k d e kept hk hd hc he =>
    obtain ⟨-, -, hactive, hasked⟩ := d.hear_keeps he
    exact ⟨hset k e fun ha => hasked.trans (h.active k d hk (hactive.symm.trans ha)), fun id hm => hmono (h.events id hm)⟩

/-! ## Whose samples are queued -/

def Event.pcm? : Event → Option Lib.Bytes
  | .running .. => none
  | .playback pcm => some pcm

/-- Samples that the route queues are the owner's. -/
theorem played_effect (h : Owned r) (he : Effect r running captured r') :
    r'.played = r.played ∧ r'.events.filterMap Event.pcm? = r.events.filterMap Event.pcm? ∨
    ∃ id pcm, r.owner = some id ∧ r'.played = r.played ++ [(id, pcm)] ∧
      r'.events.filterMap Event.pcm? = r.events.filterMap Event.pcm? ++ [pcm] := by
  cases he with
  | samples k d pcm hk hd hc ha =>
    have hlive : d.Live := by simp [Device.Live, hd]
    exact .inr ⟨d.id, pcm, (h.plays k d hk hlive hc).mp ha, rfl, by simp [Event.pcm?]⟩
  | sent k d hk hd => exact .inl ⟨rfl, by simp [Event.pcm?]⟩
  | stopped x hx hr => exact .inl ⟨rfl, by simp [Event.pcm?]⟩
  | _ => exact .inl ⟨rfl, rfl⟩

end

end Mux.AudioPath
