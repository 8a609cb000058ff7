import Mux.AudioProvider

/-!
# Answers of the automatic audio provider

At most one request of a link is without an answer, wherever it is: on the stream, with the reader, with the helper,
or its answer on the way back. So the host never reads an answer for another id or one that nobody waits for. The
call that gets an answer without an error is the one under whose permit the helper opened its route, and its device
after that, with the hardware lock in its hands.
-/

namespace Mux.AudioProvider

open Lib

/-! ## Requests and answers are in one order -/

/-- What the helper has taken and not answered. -/
def Helper.pending : Helper → List Request
  | .idle queued => queued.toList
  | .starting w => [w]
  | .answering w _ => [w]
  | .running _ => []
  | .grace _ q => [q]
  | .refusing _ q => [q]
  | .lost => []

def Link.outstanding (l : Link) : List Request := l.helper.pending ++ l.inbox ++ l.down

def Serving.Fits : Serving → List Request → Nat → Prop
  | .idle, asked, n => asked.length = n
  | .reply a, asked, n => asked.length = n + 1 ∧ asked.getLast? = some a.request
  | .ended why, asked, n => why = .lost ∧ asked.length ≤ n + 1

structure Flow (l : Link) : Prop where
  order : l.helper ≠ .lost → l.asked.map (·.id) = l.answered.map (·.id) ++ l.outstanding.map (·.id)
  answers : l.answered.map (·.id) <+: l.asked.map (·.id)
  up : l.up = l.answered.drop l.received
  received : l.received ≤ l.answered.length
  serving : l.serving.Fits l.asked l.received

theorem flow_new : Flow .new where
  order _ := rfl
  answers := List.prefix_rfl
  up := rfl
  received := Nat.le_refl _
  serving := rfl

theorem Flow.length_le {l : Link} (h : Flow l) : l.answered.length ≤ l.asked.length := by
  have := h.answers.length_le
  simpa using this

theorem Flow.asked_le {l : Link} (h : Flow l) : l.asked.length ≤ l.received + 1 := by
  have hfits := h.serving
  cases hs : l.serving with
  | idle =>
    rw [hs] at hfits
    have : l.asked.length = l.received := hfits
    omega
  | reply a =>
    rw [hs] at hfits
    exact Nat.le_of_eq hfits.1
  | ended why =>
    rw [hs] at hfits
    exact hfits.2

/-- Nothing is on its way while the host is idle. -/
theorem Flow.quiet {l : Link} (h : Flow l) (hs : l.serving = .idle) :
    l.up = [] ∧ (l.helper ≠ .lost → l.outstanding = []) := by
  have hasked : l.asked.length = l.received := by
    have hfits := h.serving
    rw [hs] at hfits
    exact hfits
  have := h.length_le
  have := h.received
  refine ⟨?_, ?_⟩
  · rw [h.up]
    exact List.drop_eq_nil_of_le (by omega)
  · intro hl
    have hlen := congrArg List.length (h.order hl)
    simp only [List.length_append, List.length_map] at hlen
    exact List.eq_nil_of_length_eq_zero (by omega)

/-- The answer that is read is the one to the request that was written last. -/
theorem Flow.head {l : Link} {a : Acquisition} {r : Ready} {up : List Ready} (h : Flow l) (hs : l.serving = .reply a)
    (hup : l.up = r :: up) : r.id = a.request.id ∧ l.answered.length = l.received + 1 ∧ up = [] := by
  have hfits := h.serving
  rw [hs] at hfits
  obtain ⟨hasked, hlast⟩ := hfits
  have hle := h.length_le
  have hdrop : l.answered.drop l.received = r :: up := by rw [← h.up, hup]
  have hlen : l.answered.length - l.received = up.length + 1 := by
    have := congrArg List.length hdrop
    rwa [List.length_drop, List.length_cons] at this
  have hone : up = [] := List.eq_nil_of_length_eq_zero (by omega)
  have hanswered : l.answered.getLast? = some r := by
    have hsplit := List.take_append_drop l.received l.answered
    rw [hdrop, hone] at hsplit
    rw [← hsplit, List.getLast?_concat]
  -- Both lists have one length, so that the ids are the same list.
  have hsame : l.answered.map (·.id) = l.asked.map (·.id) :=
    h.answers.eq_of_length (by simp only [List.length_map]; omega)
  have hid : some r.id = some a.request.id := by
    rw [← Option.map_some (f := fun r : Ready => r.id), ← hanswered, ← List.getLast?_map, hsame, List.getLast?_map,
      hlast, Option.map_some]
  exact ⟨Option.some.inj hid, by omega, hone⟩

/-- A step that moves no request and no answer. -/
theorem Flow.of_eq {l l' : Link} (h : Flow l) (hopen : l'.helper ≠ .lost → l.helper ≠ .lost ∧ l'.outstanding = l.outstanding)
    (hasked : l'.asked = l.asked) (hanswered : l'.answered = l.answered) (hup : l'.up = l.up)
    (hreceived : l'.received = l.received) (hserving : l'.serving = l.serving) : Flow l' where
  order := by
    intro hl
    obtain ⟨hl, ho⟩ := hopen hl
    rw [hasked, hanswered, ho]
    exact h.order hl
  answers := by
    rw [hasked, hanswered]
    exact h.answers
  up := by
    rw [hup, hanswered, hreceived]
    exact h.up
  received := by
    rw [hreceived, hanswered]
    exact h.received
  serving := by
    rw [hserving, hasked, hreceived]
    exact h.serving

theorem Flow.write {l l' : Link} {q : Request} {e : Option String} {r : List Request} (h : Flow l)
    (hl : l.helper ≠ .lost) (hopen : l.outstanding = q :: r) (hopen' : l'.outstanding = r) (hasked : l'.asked = l.asked)
    (hanswered : l'.answered = l.answered ++ [{ id := q.id, error := e }])
    (hup : l'.up = l.up ++ [{ id := q.id, error := e }]) (hreceived : l'.received = l.received)
    (hserving : l'.serving = l.serving) : Flow l' := by
  have horder : l'.asked.map (·.id) = l'.answered.map (·.id) ++ l'.outstanding.map (·.id) := by
    rw [hasked, hanswered, hopen', h.order hl, hopen, List.map_append, List.append_assoc]
    rfl
  refine ⟨fun _ => horder, ⟨_, horder.symm⟩, ?_, ?_, ?_⟩
  · rw [hup, hanswered, hreceived, h.up, List.drop_append_of_le_length h.received]
  · rw [hreceived, hanswered, List.length_append]
    exact Nat.le_trans h.received (Nat.le_add_right _ _)
  · rw [hserving, hasked, hreceived]
    exact h.serving

theorem flow_host {l l' : Link} {a : HostAct} (h : Flow l) (hs : l.host a = some l') : Flow l' := by
  unfold Link.host at hs
  cases a with
  | acquire r =>
    cases hacq : l.acquire with
    | some b => simp [hacq] at hs
    | none =>
      simp only [hacq, Option.some.injEq] at hs
      subst hs
      exact h.of_eq (fun hl => ⟨hl, rfl⟩) rfl rfl rfl rfl rfl
  | send =>
    simp only at hs
    split at hs
    · cases hs
      exact h.of_eq (fun hl => ⟨hl, rfl⟩) rfl rfl rfl rfl rfl
    · split at hs
      · cases hs
        exact h.of_eq (fun hl => ⟨hl, rfl⟩) rfl rfl rfl rfl rfl
      · cases hs
    · cases hs
  | cancel =>
    cases hs
    exact h.of_eq (fun hl => ⟨hl, rfl⟩) rfl rfl rfl rfl rfl
  | take =>
    simp only at hs
    split at hs
    · rename_i a queue hserving hqueue
      split at hs
      · cases hs
        exact h.of_eq (fun hl => ⟨hl, rfl⟩) rfl rfl rfl rfl rfl
      · cases hs
        have hasked : l.asked.length = l.received := by
          have hfits := h.serving
          rw [hserving] at hfits
          exact hfits
        refine ⟨?_, ?_, h.up, h.received, ?_⟩
        · intro hl
          have ho : l.helper.pending ++ l.inbox ++ (l.down ++ [a.request]) = l.outstanding ++ [a.request] :=
            (List.append_assoc _ _ _).symm
          change (l.asked ++ [a.request]).map (·.id) =
            l.answered.map (·.id) ++ (l.helper.pending ++ l.inbox ++ (l.down ++ [a.request])).map (·.id)
          rw [ho, List.map_append, List.map_append, h.order hl, List.append_assoc]
        · rw [List.map_append]
          exact h.answers.trans (List.prefix_append _ _)
        · exact ⟨by rw [List.length_append, List.length_singleton, hasked], List.getLast?_concat⟩
    · cases hs
  | receive =>
    simp only at hs
    split at hs
    · rename_i a r up hserving hup
      obtain ⟨hid, hlen, rfl⟩ := h.head hserving hup
      rw [if_pos hid, Option.some.injEq] at hs
      subst hs
      have hfits := h.serving
      rw [hserving] at hfits
      refine ⟨h.order, h.answers, ?_, ?_, ?_⟩
      · exact (List.drop_eq_nil_of_le (Nat.le_of_eq hlen)).symm
      · exact Nat.le_of_eq hlen.symm
      · exact hfits.1
    · cases hs
  | stray =>
    simp only at hs
    split at hs
    · rename_i r up hserving hup
      have := (h.quiet hserving).1
      rw [hup] at this
      cases this
    · cases hs
  | lose =>
    have hle := h.asked_le
    have hlost : some { l with serving := .ended .lost } = some l' → Flow l' := by
      intro heq
      cases heq
      exact ⟨h.order, h.answers, h.up, h.received, rfl, hle⟩
    simp only at hs
    split at hs
    · cases hs
    · exact hlost hs

theorem flow_lose {l : Link} (h : Flow l) : Flow l.lose :=
  h.of_eq (fun hl => absurd rfl hl) rfl rfl rfl rfl rfl

theorem flow_help {l l' : Link} {a : HelperAct} (h : Flow l) (hs : l.help a = some l') : Flow l' := by
  unfold Link.help at hs
  cases a with
  | read =>
    simp only at hs
    split at hs
    · cases hs
    · rename_i q down hdown hl
      split at hs
      · cases hs
        refine h.of_eq (fun _ => ⟨hl, ?_⟩) rfl rfl rfl rfl rfl
        simp [Link.outstanding, hdown]
      · cases hs
    · cases hs
  | begin =>
    simp only at hs
    split at hs
    · rename_i q hhelper
      cases hs
      refine h.of_eq (fun _ => ⟨by simp [hhelper], ?_⟩) rfl rfl rfl rfl rfl
      simp [Link.outstanding, Link.start, hhelper, Helper.pending]
    · rename_i q inbox hhelper hinbox
      cases hs
      refine h.of_eq (fun _ => ⟨by simp [hhelper], ?_⟩) rfl rfl rfl rfl rfl
      simp [Link.outstanding, Link.start, hhelper, hinbox, Helper.pending]
    · cases hs
  | granted =>
    simp only at hs
    split at hs
    · rename_i w g hhelper hmedia
      cases hs
      refine h.of_eq (fun _ => ⟨by simp [hhelper], ?_⟩) rfl rfl rfl rfl rfl
      simp [Link.outstanding, hhelper, Helper.pending]
    · cases hs
  | failed =>
    simp only at hs
    split at hs
    · rename_i w r hhelper hmedia
      cases hs
      refine h.of_eq (fun _ => ⟨by simp [hhelper], ?_⟩) rfl rfl rfl rfl rfl
      simp [Link.outstanding, hhelper, Helper.pending]
    · cases hs
  | answer ok =>
    simp only at hs
    split at hs
    · rename_i w e hhelper
      cases ok with
      | false =>
        cases hs
        exact flow_lose h
      | true =>
        simp only [if_true, Option.some.injEq] at hs
        subst hs
        refine h.write (q := w) (e := e) (by simp [hhelper]) (r := l.inbox ++ l.down) ?_ ?_ rfl rfl rfl rfl rfl
        · simp [Link.outstanding, hhelper, Helper.pending]
        · cases e <;> simp [Link.outstanding, Link.write, Helper.pending]
    · cases hs
  | finish =>
    simp only at hs
    split at hs
    · rename_i w r hhelper hmedia
      cases hs
      refine h.of_eq (fun _ => ⟨by simp [hhelper], ?_⟩) rfl rfl rfl rfl rfl
      simp [Link.outstanding, hhelper, Helper.pending]
    · cases hs
  | next =>
    simp only at hs
    split at hs
    · rename_i w q inbox hhelper hinbox
      cases hs
      refine h.of_eq (fun _ => ⟨by simp [hhelper], ?_⟩) rfl rfl rfl rfl rfl
      simp [Link.outstanding, hhelper, hinbox, Helper.pending]
    · cases hs
  | settle =>
    simp only at hs
    split at hs
    · rename_i w q r hhelper hmedia
      cases hs
      refine h.of_eq (fun _ => ⟨by simp [hhelper], ?_⟩) rfl rfl rfl rfl rfl
      simp [Link.outstanding, hhelper, Helper.pending]
    · cases hs
  | late =>
    simp only at hs
    split at hs
    · cases hs
    · rename_i w q hhelper hmedia
      cases hs
      refine h.of_eq (fun _ => ⟨by simp [hhelper], ?_⟩) rfl rfl rfl rfl rfl
      simp [Link.outstanding, hhelper, Helper.pending]
    · cases hs
  | refuse ok =>
    simp only at hs
    split at hs
    · rename_i w q hhelper
      cases ok with
      | false =>
        cases hs
        exact flow_lose h
      | true =>
        simp only [if_true, Option.some.injEq] at hs
        subst hs
        refine h.write (q := q) (e := some (inUse w)) (by simp [hhelper]) (r := l.inbox ++ l.down) ?_ ?_ rfl rfl rfl
          rfl rfl
        · simp [Link.outstanding, hhelper, Helper.pending]
        · simp [Link.outstanding, Link.write, Helper.pending]
    · cases hs
  | leave =>
    simp only at hs
    split at hs
    · cases hs
    · cases hs
      exact flow_lose h

theorem flow_media {l l' : Link} {m : Media} {free : Bool} {a : MediaAct} (h : Flow l)
    (hs : l.mediate m free a = some l') : Flow l' := by
  have hto (p : Phase) : Flow (l.mediaTo m p) := h.of_eq (fun hl => ⟨hl, rfl⟩) rfl rfl rfl rfl rfl
  have hgrant (p : Phase) (granted : List Nat) : Flow { l.mediaTo m p with granted := granted } :=
    (hto p).of_eq (fun hl => ⟨hl, rfl⟩) rfl rfl rfl rfl rfl
  unfold Link.mediate at hs
  cases a with
  | own ok e =>
    simp only at hs
    split at hs
    · cases hs
      exact hto _
    · cases hs
  | route ok e =>
    simp only at hs
    split at hs
    · split at hs
      · cases hs
        exact hto _
      · cases hs
        exact hto _
      · cases hs
        exact hto _
    · cases hs
  | «open» ok e =>
    simp only at hs
    split at hs
    · split at hs
      · cases hs
        exact hgrant _ _
      · cases hs
        exact hto _
    · cases hs
  | stop error =>
    simp only at hs
    split at hs
    · cases hs
      exact hto _
    · cases hs

/-! ## Whose permit a route was opened under -/

/-- A call not before the one of the acquisition has got its route and device. -/
def Link.Backed (l : Link) (a : Acquisition) : Prop := ∃ g ∈ l.granted, a.task ≤ g

/-- Calls are numbered, and the one that is there is the newest. -/
structure Tokens (l : Link) : Prop where
  acquire : ∀ b, l.acquire = some b → b.task + 1 = l.tasks
  queue : ∀ a ∈ l.queue, a.task < l.tasks
  serving : ∀ a, l.serving = .reply a → a.task < l.tasks
  media : ∀ m g, l.media = some m → m.phase = .routed g → g < l.tasks
  granted : ∀ g ∈ l.granted, g < l.tasks

structure Grants (l : Link) : Prop where
  routed : ∀ w m g a, l.helper = .starting w → l.media = some m → m.phase = .routed g → l.serving = .reply a → a.task ≤ g
  ready : ∀ w m g a, l.helper = .starting w → l.media = some m → m.phase = .ready g → l.serving = .reply a → l.Backed a
  answering : ∀ w a, l.helper = .answering w none → l.serving = .reply a → l.Backed a
  up : ∀ r ∈ l.up, r.error = none → ∀ a, l.serving = .reply a → l.Backed a
  answered : ∀ b, l.acquire = some b → b.stage = .answered none → b.task ∈ l.granted

theorem tokens_new : Tokens .new where
  acquire b hb := by cases hb
  queue a ha := by cases ha
  serving a ha := by cases ha
  media m g hm := by cases hm
  granted g hg := by cases hg

theorem grants_new : Grants .new where
  routed w m g a hw := by cases hw
  ready w m g a hw := by cases hw
  answering w a hw := by cases hw
  up r hr := by cases hr
  answered b hb := by cases hb

theorem Tokens.keep {l l' : Link} (h : Tokens l) (htasks : l.tasks ≤ l'.tasks)
    (hacquire : ∀ b, l'.acquire = some b → b.task + 1 = l'.tasks) (hqueue : ∀ a ∈ l'.queue, a ∈ l.queue)
    (hserving : ∀ a, l'.serving = .reply a → l.serving = .reply a ∨ a ∈ l.queue)
    (hmedia : ∀ m g, l'.media = some m → m.phase = .routed g → l.media = some m) (hgranted : l'.granted = l.granted) :
    Tokens l' where
  acquire := hacquire
  queue a ha := Nat.lt_of_lt_of_le (h.queue a (hqueue a ha)) htasks
  serving := by
    intro a ha
    rcases hserving a ha with ha | ha
    · exact Nat.lt_of_lt_of_le (h.serving a ha) htasks
    · exact Nat.lt_of_lt_of_le (h.queue a ha) htasks
  media m g hm hp := Nat.lt_of_lt_of_le (h.media m g (hmedia m g hm hp) hp) htasks
  granted := by
    rw [hgranted]
    intro g hg
    exact Nat.lt_of_lt_of_le (h.granted g hg) htasks

/-- A step of the helper. -/
theorem Tokens.of_media {l l' : Link} (h : Tokens l) (htasks : l'.tasks = l.tasks) (hacquire : l'.acquire = l.acquire)
    (hqueue : l'.queue = l.queue) (hserving : l'.serving = l.serving) (hgranted : l'.granted = l.granted)
    (hmedia : ∀ m g, l'.media = some m → m.phase = .routed g → l.media = some m) : Tokens l' := by
  apply h.keep (Nat.le_of_eq htasks.symm)
  · rw [hacquire, htasks]
    exact h.acquire
  · rw [hqueue]
    exact fun _ => id
  · rw [hserving]
    exact fun _ => .inl
  · exact hmedia
  · exact hgranted

theorem Grants.help {l l' : Link} (h : Grants l) (hacquire : l'.acquire = l.acquire) (hserving : l'.serving = l.serving)
    (hgranted : l'.granted = l.granted)
    (hstart : ∀ w, l'.helper = .starting w → l.helper = .starting w ∧ l'.media = l.media ∨
      ∀ m g, l'.media = some m → m.phase ≠ .routed g ∧ m.phase ≠ .ready g)
    (hanswer : ∀ w, l'.helper = .answering w none → l.helper = .answering w none ∨
      ∀ a, l.serving = .reply a → l.Backed a)
    (hup : ∀ r ∈ l'.up, r.error = none → r ∈ l.up ∨ ∀ a, l.serving = .reply a → l.Backed a) : Grants l' := by
  have hbacked (a : Acquisition) : l'.Backed a ↔ l.Backed a := by rw [Link.Backed, hgranted, Link.Backed]
  refine ⟨?_, ?_, ?_, ?_, ?_⟩
  · intro w m g a hw hm hp ha
    rw [hserving] at ha
    rcases hstart w hw with ⟨hw, hsame⟩ | hnone
    · exact h.routed w m g a hw (hsame ▸ hm) hp ha
    · exact absurd hp (hnone m g hm).1
  · intro w m g a hw hm hp ha
    rw [hserving] at ha
    rw [hbacked]
    rcases hstart w hw with ⟨hw, hsame⟩ | hnone
    · exact h.ready w m g a hw (hsame ▸ hm) hp ha
    · exact absurd hp (hnone m g hm).2
  · intro w a hw ha
    rw [hserving] at ha
    rw [hbacked]
    rcases hanswer w hw with hw | hall
    · exact h.answering w a hw ha
    · exact hall a ha
  · intro r hr he a ha
    rw [hserving] at ha
    rw [hbacked]
    rcases hup r hr he with hr | hall
    · exact h.up r hr he a ha
    · exact hall a ha
  · rw [hacquire, hgranted]
    exact h.answered

/-- The host reads nothing and writes nothing. -/
theorem Grants.host {l l' : Link} (h : Grants l) (hhelper : l'.helper = l.helper) (hmedia : l'.media = l.media)
    (hup : ∀ r ∈ l'.up, r ∈ l.up) (hgranted : l'.granted = l.granted)
    (hserving : ∀ a, l'.serving = .reply a → l.serving = .reply a)
    (hanswered : ∀ b, l'.acquire = some b → b.stage = .answered none → b.task ∈ l.granted) : Grants l' := by
  have hbacked (a : Acquisition) : l'.Backed a ↔ l.Backed a := by rw [Link.Backed, hgranted, Link.Backed]
  refine ⟨?_, ?_, ?_, ?_, ?_⟩
  · intro w m g a hw hm hp ha
    exact h.routed w m g a (hhelper ▸ hw) (hmedia ▸ hm) hp (hserving a ha)
  · intro w m g a hw hm hp ha
    rw [hbacked]
    exact h.ready w m g a (hhelper ▸ hw) (hmedia ▸ hm) hp (hserving a ha)
  · intro w a hw ha
    rw [hbacked]
    exact h.answering w a (hhelper ▸ hw) (hserving a ha)
  · intro r hr he a ha
    rw [hbacked]
    exact h.up r (hup r hr) he a (hserving a ha)
  · rw [hgranted]
    exact hanswered

structure Ok (l : Link) : Prop where
  flow : Flow l
  tokens : Tokens l
  grants : Grants l

/-- Nothing of the helper is under way when the host takes the next acquisition. -/
theorem grants_take {l l' : Link} (hok : Ok l) (hidle : l.serving = .idle) (hhelper : l'.helper = l.helper)
    (hup : l'.up = l.up) (hacquire : l'.acquire = l.acquire) (hgranted : l'.granted = l.granted) : Grants l' := by
  obtain ⟨hnone, hopen⟩ := hok.flow.quiet hidle
  have hpending : l.helper ≠ .lost → l.helper.pending = [] := by
    intro hl
    have := hopen hl
    simp only [Link.outstanding, List.append_eq_nil_iff] at this
    exact this.1.1
  have hstarting (w : Request) : l'.helper ≠ .starting w := by
    intro hw
    rw [hhelper] at hw
    have := hpending (by simp [hw])
    simp [hw, Helper.pending] at this
  refine ⟨fun w m g a hw => absurd hw (hstarting w), fun w m g a hw => absurd hw (hstarting w), ?_, ?_, ?_⟩
  · intro w a hw
    rw [hhelper] at hw
    have := hpending (by simp [hw])
    simp [hw, Helper.pending] at this
  · intro r hr
    rw [hup, hnone] at hr
    cases hr
  · rw [hacquire, hgranted]
    exact hok.grants.answered

/-- The answer without an error reaches its call only if the call is the newest, so that its own permit was used. -/
theorem grants_receive {l : Link} {a : Acquisition} {r : Ready} {up : List Ready} (hok : Ok l)
    (hserving : l.serving = .reply a) (hup : l.up = r :: up) :
    Grants ({ l with up := up, received := l.received + 1, serving := .idle }.deliver a r.error) := by
  refine hok.grants.host rfl rfl ?_ rfl ?_ ?_
  · intro x hx
    rw [hup]
    exact List.mem_cons_of_mem _ hx
  · intro x hx
    cases hx
  · intro b hb hstage
    obtain ⟨c, hc, hcb⟩ := Option.map_eq_some_iff.mp hb
    have htask := hok.tokens.acquire c hc
    by_cases hct : c.task = a.task
    · rw [if_pos hct] at hcb
      subst hcb
      have herr : r.error = none := by simpa using hstage
      obtain ⟨g, hg, hle⟩ := hok.grants.up r (by rw [hup]; exact List.mem_cons_self) herr a hserving
      have hlt := hok.tokens.granted g hg
      have hgc : g = c.task := by omega
      rw [← hgc]
      exact hg
    · rw [if_neg hct] at hcb
      subst hcb
      exact hok.grants.answered c hc hstage

theorem grants_host {l l' : Link} {a : HostAct} (h : Ok l) (hs : l.host a = some l') : Tokens l' ∧ Grants l' := by
  have ht := h.tokens
  have hg := h.grants
  unfold Link.host at hs
  cases a with
  | acquire r =>
    cases hacq : l.acquire with
    | some b => simp [hacq] at hs
    | none =>
      simp only [hacq, Option.some.injEq] at hs
      subst hs
      refine ⟨ht.keep (Nat.le_succ _) ?_ (fun _ => id) (fun _ => .inl) (fun _ _ hm _ => hm) rfl,
        hg.host rfl rfl (fun _ => id) rfl (fun _ => id) ?_⟩
      · intro b hb
        cases hb
        rfl
      · intro b hb hstage
        cases hb
        cases hstage
  | send =>
    simp only at hs
    split at hs
    · cases hs
      exact ⟨ht.keep (Nat.le_refl _) (fun b hb => by cases hb) (fun _ => id) (fun _ => .inl) (fun _ _ hm _ => hm) rfl,
        hg.host rfl rfl (fun _ => id) rfl (fun _ => id) (fun b hb => by cases hb)⟩
    · rename_i t r hacq hserving
      split at hs
      · cases hs
        have htask := ht.acquire _ hacq
        refine ⟨⟨?_, ?_, ht.serving, ht.media, ht.granted⟩, hg.host rfl rfl (fun _ => id) rfl (fun _ => id) ?_⟩
        · intro b hb
          cases hb
          exact htask
        · intro a ha
          rcases List.mem_append.mp ha with ha | ha
          · exact ht.queue a ha
          · obtain rfl := List.mem_singleton.mp ha
            exact Nat.lt_of_lt_of_eq (Nat.lt_succ_self t) htask
        · intro b hb hstage
          cases hb
          cases hstage
      · cases hs
    · cases hs
  | cancel =>
    cases hs
    exact ⟨ht.keep (Nat.le_refl _) (fun b hb => by cases hb) (fun _ => id) (fun _ => .inl) (fun _ _ hm _ => hm) rfl,
      hg.host rfl rfl (fun _ => id) rfl (fun _ => id) (fun b hb => by cases hb)⟩
  | take =>
    simp only at hs
    split at hs
    · rename_i a queue hserving hqueue
      have hold : ∀ x ∈ queue, x ∈ l.queue := by
        intro x hx
        rw [hqueue]
        exact List.mem_cons_of_mem _ hx
      split at hs
      · cases hs
        exact ⟨ht.keep (Nat.le_refl _) ht.acquire hold (fun _ => .inl) (fun _ _ hm _ => hm) rfl,
          hg.host rfl rfl (fun _ => id) rfl (fun _ => id) hg.answered⟩
      · cases hs
        refine ⟨ht.keep (Nat.le_refl _) ht.acquire hold ?_ (fun _ _ hm _ => hm) rfl,
          grants_take h hserving rfl rfl rfl rfl⟩
        intro x hx
        cases hx
        rw [hqueue]
        exact .inr List.mem_cons_self
    · cases hs
  | receive =>
    simp only at hs
    split at hs
    · rename_i a r up hserving hup
      rw [if_pos (h.flow.head hserving hup).1, Option.some.injEq] at hs
      subst hs
      refine ⟨?_, grants_receive h hserving hup⟩
      refine ht.keep (Nat.le_refl _) ?_ (fun _ => id) (fun x hx => by cases hx) (fun _ _ hm _ => hm) rfl
      intro b hb
      obtain ⟨c, hc, hcb⟩ := Option.map_eq_some_iff.mp hb
      have htask : b.task = c.task := by
        rw [← hcb]
        split <;> rfl
      rw [htask]
      exact ht.acquire c hc
    · cases hs
  | stray =>
    simp only at hs
    split at hs
    · cases hs
      exact ⟨ht.keep (Nat.le_refl _) ht.acquire (fun _ => id) (fun x hx => by cases hx) (fun _ _ hm _ => hm) rfl,
        hg.host rfl rfl (fun _ => id) rfl (fun x hx => by cases hx) hg.answered⟩
    · cases hs
  | lose =>
    simp only at hs
    split at hs
    · cases hs
    · cases hs
      exact ⟨ht.keep (Nat.le_refl _) ht.acquire (fun _ => id) (fun x hx => by cases hx) (fun _ _ hm _ => hm) rfl,
        hg.host rfl rfl (fun _ => id) rfl (fun x hx => by cases hx) hg.answered⟩

/-- The operation is over, and the helper neither waits for it nor has it that the call was granted. -/
theorem grants_over {l : Link} (h : Ok l) {helper : Helper} (hstart : ∀ w, helper ≠ .starting w)
    (hanswer : ∀ w, helper ≠ .answering w none) :
    Tokens { l with helper := helper, media := none } ∧ Grants { l with helper := helper, media := none } := by
  refine ⟨h.tokens.of_media rfl rfl rfl rfl rfl ?_, h.grants.help rfl rfl rfl ?_ ?_ (fun _ hr _ => .inl hr)⟩
  · intro m g hm
    cases hm
  · intro w hw
    exact absurd hw (hstart w)
  · intro w hw
    exact absurd hw (hanswer w)

theorem grants_help {l l' : Link} {a : HelperAct} (h : Ok l) (hs : l.help a = some l') : Tokens l' ∧ Grants l' := by
  have ht := h.tokens
  have hg := h.grants
  have hlose : Tokens l.lose ∧ Grants l.lose := grants_over h (fun _ hw => by cases hw) fun _ hw => by cases hw
  unfold Link.help at hs
  cases a with
  | read =>
    simp only at hs
    split at hs
    · cases hs
    · split at hs
      · cases hs
        exact ⟨ht.of_media rfl rfl rfl rfl rfl (fun _ _ hm _ => hm),
          hg.help rfl rfl rfl (fun _ hw => .inl ⟨hw, rfl⟩) (fun _ hw => .inl hw) (fun _ hr _ => .inl hr)⟩
      · cases hs
    · cases hs
  | begin =>
    have hstart (l' : Link) (q : Request) (ht : Tokens l') (hg : Grants l') :
        Tokens (l'.start q) ∧ Grants (l'.start q) := by
      refine ⟨ht.of_media rfl rfl rfl rfl rfl ?_, hg.help rfl rfl rfl ?_ ?_ (fun _ hr _ => .inl hr)⟩
      · intro m g hm hp
        cases hm
        cases hp
      · intro w _
        refine .inr ?_
        intro m g hm
        cases hm
        exact ⟨by simp, by simp⟩
      · intro w hw
        cases hw
    simp only at hs
    split at hs
    · cases hs
      exact hstart l _ ht hg
    · cases hs
      refine hstart _ _ ?_ ?_
      · exact ht.of_media rfl rfl rfl rfl rfl (fun _ _ hm _ => hm)
      · exact hg.help rfl rfl rfl (fun _ hw => .inl ⟨hw, rfl⟩) (fun _ hw => .inl hw) (fun _ hr _ => .inl hr)
    · cases hs
  | granted =>
    simp only at hs
    split at hs
    · rename_i w g hhelper hmedia
      cases hs
      obtain ⟨m, hm, hp⟩ := Option.map_eq_some_iff.mp hmedia
      refine ⟨ht.of_media rfl rfl rfl rfl rfl (fun _ _ hm _ => hm), hg.help rfl rfl rfl ?_ ?_ (fun _ hr _ => .inl hr)⟩
      · intro w' hw
        cases hw
      · intro w' _
        exact .inr fun a ha => hg.ready w m g a hhelper hm hp ha
    · cases hs
  | failed =>
    simp only at hs
    split at hs
    · cases hs
      exact grants_over h (fun _ hw => by cases hw) fun _ hw => by cases hw
    · cases hs
  | answer ok =>
    simp only at hs
    split at hs
    · rename_i w e hhelper
      cases ok with
      | false =>
        cases hs
        exact hlose
      | true =>
        simp only [if_true, Option.some.injEq] at hs
        subst hs
        refine ⟨ht.of_media rfl rfl rfl rfl rfl (fun _ _ hm _ => hm), hg.help rfl rfl rfl ?_ ?_ ?_⟩
        · intro w' hw
          cases e <;> cases hw
        · intro w' hw
          cases e <;> cases hw
        · intro r hr he
          rcases List.mem_append.mp hr with hr | hr
          · exact .inl hr
          · obtain rfl := List.mem_singleton.mp hr
            cases he
            exact .inr fun a ha => hg.answering w a hhelper ha
    · cases hs
  | finish =>
    simp only at hs
    split at hs
    · cases hs
      exact grants_over h (fun _ hw => by cases hw) fun _ hw => by cases hw
    · cases hs
  | next =>
    simp only at hs
    split at hs
    · cases hs
      exact ⟨ht.of_media rfl rfl rfl rfl rfl (fun _ _ hm _ => hm),
        hg.help rfl rfl rfl (fun _ hw => by cases hw) (fun _ hw => by cases hw) (fun _ hr _ => .inl hr)⟩
    · cases hs
  | settle =>
    simp only at hs
    split at hs
    · cases hs
      exact grants_over h (fun _ hw => by cases hw) fun _ hw => by cases hw
    · cases hs
  | late =>
    simp only at hs
    split at hs
    · cases hs
    · cases hs
      exact ⟨ht.of_media rfl rfl rfl rfl rfl (fun _ _ hm _ => hm),
        hg.help rfl rfl rfl (fun _ hw => by cases hw) (fun _ hw => by cases hw) (fun _ hr _ => .inl hr)⟩
    · cases hs
  | refuse ok =>
    simp only at hs
    split at hs
    · rename_i w q hhelper
      cases ok with
      | false =>
        cases hs
        exact hlose
      | true =>
        simp only [if_true, Option.some.injEq] at hs
        subst hs
        refine ⟨ht.of_media rfl rfl rfl rfl rfl (fun _ _ hm _ => hm),
          hg.help rfl rfl rfl (fun _ hw => by cases hw) (fun _ hw => by cases hw) ?_⟩
        intro r hr he
        rcases List.mem_append.mp hr with hr | hr
        · exact .inl hr
        · obtain rfl := List.mem_singleton.mp hr
          cases he
    · cases hs
  | leave =>
    simp only at hs
    split at hs
    · cases hs
    · cases hs
      exact hlose

theorem permit_newest {l : Link} {r : Request} {t : Nat} (h : Tokens l) (hp : l.permit r = some t) : t + 1 = l.tasks := by
  unfold Link.permit at hp
  split at hp
  · cases hp
  · rename_i b hacq _
    split at hp
    · cases hp
      exact h.acquire b hacq
    · cases hp
  · cases hp

theorem grants_media {l l' : Link} {m : Media} {free : Bool} {a : MediaAct} (h : Ok l) (hm : l.media = some m)
    (hs : l.mediate m free a = some l') : Tokens l' ∧ Grants l' := by
  have ht := h.tokens
  have hg := h.grants
  -- A phase without a route.
  have hplain (p : Phase) (hp : ∀ g, p ≠ .routed g ∧ p ≠ .ready g) : Tokens (l.mediaTo m p) ∧ Grants (l.mediaTo m p) := by
    refine ⟨ht.of_media rfl rfl rfl rfl rfl ?_, hg.help rfl rfl rfl ?_ (fun _ hw => .inl hw) (fun _ hr _ => .inl hr)⟩
    · intro x g hx hxp
      cases hx
      exact absurd hxp (hp g).1
    · intro w _
      refine .inr ?_
      intro x g hx
      cases hx
      exact hp g
  unfold Link.mediate at hs
  cases a with
  | own ok e =>
    simp only at hs
    split at hs
    · cases hs
      refine hplain _ ?_
      intro g
      split <;> simp
    · cases hs
  | route ok e =>
    simp only at hs
    split at hs
    · split at hs
      · rename_i t hpermit
        cases hs
        have hnew := permit_newest ht hpermit
        refine ⟨⟨ht.acquire, ht.queue, ht.serving, ?_, ht.granted⟩, ⟨?_, ?_, hg.answering, hg.up, hg.answered⟩⟩
        · intro x g hx hxp
          cases hx
          cases hxp
          exact Nat.lt_of_lt_of_eq (Nat.lt_succ_self t) hnew
        · intro w x g a _ hx hxp ha
          cases hx
          cases hxp
          have hlt : a.task < l.tasks := ht.serving a ha
          omega
        · intro w x g a _ hx hxp
          cases hx
          cases hxp
      · cases hs
        exact hplain _ (by simp)
      · cases hs
        exact hplain _ (by simp)
    · cases hs
  | «open» ok e =>
    simp only at hs
    split at hs
    · rename_i t hphase
      split at hs
      · cases hs
        have hmore (a : Acquisition) (ha : l.Backed a) :
            Link.Backed { l.mediaTo m (.ready t) with granted := l.granted ++ [t] } a := by
          obtain ⟨g, hg, hle⟩ := ha
          exact ⟨g, List.mem_append_left _ hg, hle⟩
        refine ⟨⟨ht.acquire, ht.queue, ht.serving, ?_, ?_⟩, ⟨?_, ?_, ?_, ?_, ?_⟩⟩
        · intro x g hx hxp
          cases hx
          cases hxp
        · intro g hgm
          rcases List.mem_append.mp hgm with hgm | hgm
          · exact ht.granted g hgm
          · obtain rfl := List.mem_singleton.mp hgm
            exact ht.media m g hm hphase
        · intro w x g a _ hx hxp
          cases hx
          cases hxp
        · intro w x g a hw hx hxp ha
          exact ⟨t, List.mem_append_right _ (List.mem_singleton.mpr rfl), hg.routed w m t a hw hm hphase ha⟩
        · intro w a hw ha
          exact hmore a (hg.answering w a hw ha)
        · intro r hr he a ha
          exact hmore a (hg.up r hr he a ha)
        · intro b hb hstage
          exact List.mem_append_left _ (hg.answered b hb hstage)
      · cases hs
        exact hplain _ (by simp)
    · cases hs
  | stop error =>
    simp only at hs
    split at hs
    · cases hs
      exact hplain _ (by simp)
    · cases hs

theorem ok_step {l l' : Link} {free : Bool} {a : LinkAct} (h : Ok l) (hs : l.step free a = some l') : Ok l' := by
  cases a with
  | host a =>
    have hgrants := grants_host h hs
    exact ⟨flow_host h.flow hs, hgrants.1, hgrants.2⟩
  | helper a =>
    have hgrants := grants_help h hs
    exact ⟨flow_help h.flow hs, hgrants.1, hgrants.2⟩
  | media a =>
    obtain ⟨m, hm, hs⟩ := Option.bind_eq_some_iff.mp hs
    have hgrants := grants_media h hm hs
    exact ⟨flow_media h.flow hs, hgrants.1, hgrants.2⟩

/-! ## The hardware lock -/

theorem host_media {l l' : Link} {a : HostAct} (hs : l.host a = some l') : l'.media = l.media := by
  unfold Link.host at hs
  cases a <;> simp only at hs <;> (repeat' split at hs) <;> cases hs <;> rfl

theorem help_owns {l l' : Link} {a : HelperAct} (hs : l.help a = some l') (ho : l'.owns = true) : l.owns = true := by
  unfold Link.help at hs
  cases a <;> simp only at hs <;> (repeat' split at hs) <;> cases hs <;>
    first
    | exact ho
    | cases ho

theorem media_owns {l l' : Link} {m : Media} {free : Bool} {a : MediaAct} (hm : l.media = some m)
    (hs : l.mediate m free a = some l') (ho : l'.owns = true) : l.owns = true ∨ free = true := by
  unfold Link.mediate at hs
  unfold Link.owns
  rw [hm]
  cases a with
  | own ok e =>
    cases free with
    | true => exact .inr rfl
    | false =>
      simp only at hs
      split at hs
      · cases hs
        simp [Link.owns, Link.mediaTo, Phase.owns] at ho
      · cases hs
  | route ok e =>
    refine .inl ?_
    cases hp : m.phase with
    | owning => simp [hp, Phase.owns]
    | _ => simp [hp] at hs
  | «open» ok e =>
    refine .inl ?_
    cases hp : m.phase with
    | routed g => simp [hp, Phase.owns]
    | _ => simp [hp] at hs
  | stop error =>
    refine .inl ?_
    cases hp : m.phase with
    | ready g => simp [hp, Phase.owns]
    | _ => simp [hp] at hs

theorem owns_step {l l' : Link} {free : Bool} {a : LinkAct} (hs : l.step free a = some l') (ho : l'.owns = true) :
    l.owns = true ∨ free = true := by
  cases a with
  | host a =>
    have hm := host_media hs
    unfold Link.owns at ho ⊢
    rw [hm] at ho
    exact .inl ho
  | helper a => exact .inl (help_owns hs ho)
  | media a =>
    obtain ⟨m, hm, hs⟩ := Option.bind_eq_some_iff.mp hs
    exact media_owns hm hs ho

structure Inv (s : State) : Prop where
  links : ∀ l ∈ s.links, Ok l
  owner : ∀ (k : Nat) (l : Link), s.links[k]? = some l → (l.owns = true ↔ s.owner = some (.link k))
  known : ∀ k, s.owner = some (.link k) → k < s.links.length

theorem inv_init : Inv init where
  links l hl := by cases hl
  owner k l hl := by simp [init] at hl
  known k hk := by cases hk

theorem owner_link {s : State} {k : Nat} {l l' : Link} (h : Inv s) (hl : s.links[k]? = some l)
    (hfree : l'.owns = true → l.owns = true ∨ s.owner.isNone = true) (j : Nat) (hj : j ≠ k) :
    s.owned k l.owns l'.owns = some (.link j) ↔ s.owner = some (.link j) := by
  have hown := h.owner k l hl
  cases hb : l.owns <;> cases ha : l'.owns
  · exact Iff.rfl
  · rcases hfree ha with ht | hnone
    · rw [hb] at ht
      cases ht
    · rw [Option.isNone_iff_eq_none.mp hnone]
      simp [State.owned, Ne.symm hj]
  · rw [hown.mp hb]
    simp [State.owned, Ne.symm hj]
  · exact Iff.rfl

theorem owner_self {s : State} {k : Nat} {l l' : Link} (h : Inv s) (hl : s.links[k]? = some l) :
    l'.owns = true ↔ s.owned k l.owns l'.owns = some (.link k) := by
  have hown := h.owner k l hl
  cases hb : l.owns <;> cases ha : l'.owns
  · rw [hb] at hown
    exact hown
  · simp [State.owned]
  · simp [State.owned]
  · rw [hb] at hown
    exact hown

theorem inv_step {s s' : State} {lab : Label} (h : Inv s) (hs : step s lab = some s') : Inv s' := by
  cases lab with
  | connect =>
    cases hs
    refine ⟨?_, ?_, ?_⟩
    · intro l hl
      rcases List.mem_append.mp hl with hl | hl
      · exact h.links l hl
      · obtain rfl := List.mem_singleton.mp hl
        exact ⟨flow_new, tokens_new, grants_new⟩
    · intro k l hl
      rcases getElem?_snoc_some_iff.mp hl with hl | ⟨rfl, rfl⟩
      · exact h.owner k l hl
      · refine ⟨(fun ho => by cases ho), ?_⟩
        intro ho
        exact absurd (h.known _ ho) (by simp)
    · intro k hk
      have := h.known k hk
      simp only [List.length_append, List.length_singleton]
      omega
  | link k a =>
    obtain ⟨l, hl, hs⟩ := Option.bind_eq_some_iff.mp hs
    obtain ⟨l', hstep, rfl⟩ := Option.map_eq_some_iff.mp hs
    have hk : k < s.links.length := lt_of_getElem?_some hl
    have hfree := owns_step hstep
    refine ⟨?_, ?_, ?_⟩
    · intro x hx
      rcases List.mem_or_eq_of_mem_set hx with hx | rfl
      · exact h.links x hx
      · exact ok_step (h.links l (List.mem_of_getElem? hl)) hstep
    · intro j x hx
      by_cases hj : j = k
      · subst hj
        rw [getElem?_set_self_some hl, Option.some.injEq] at hx
        subst hx
        exact owner_self h hl
      · rw [List.getElem?_set_ne (Ne.symm hj)] at hx
        exact (h.owner j x hx).trans (owner_link h hl hfree j hj).symm
    · intro j ho
      rw [List.length_set]
      by_cases hj : j = k
      · exact hj ▸ hk
      · exact h.known j ((owner_link h hl hfree j hj).mp ho)
  | other own =>
    have hkeep (o : Option Owner) (hold : ∀ k, s.owner ≠ some (.link k)) (hnew : ∀ k, o ≠ some (.link k)) :
        Inv { s with owner := o } := by
      refine ⟨h.links, ?_, fun k hk => absurd hk (hnew k)⟩
      intro k l hl
      refine ⟨fun ho => absurd ((h.owner k l hl).mp ho) (hold k), fun ho => absurd ho (hnew k)⟩
    cases own with
    | true =>
      by_cases hnone : s.owner.isNone = true
      · simp only [step, hnone, if_true, Option.some.injEq] at hs
        subst hs
        refine hkeep _ ?_ (by simp)
        intro k hk
        rw [hk] at hnone
        cases hnone
      · simp [step, hnone] at hs
    | false =>
      by_cases hother : s.owner = some .other
      · simp only [step, hother, if_true, Option.some.injEq] at hs
        subst hs
        exact hkeep _ (by simp [hother]) (by simp)
      · simp [step, hother] at hs

theorem inv_run {ls : List Label} {s : State} (h : exec step init ls = some s) : Inv s :=
  exec_inv (fun _ _ _ hs hi => inv_step hi hs) h inv_init

/-- The host never reads an answer for another id nor one that it has not asked for. The answers are those to the
requests in their order, with at most one request left. A call that was answered without an error has had a route
opened under its own permit and then the device, and of all links only one has the hardware at a time. -/
theorem answers_are_for_their_calls {ls : List Label} {s : State} (hrun : exec step init ls = some s) {k : Nat} {l : Link}
    (hl : s.links[k]? = some l) :
    (∀ why, l.serving = .ended why → why = .lost) ∧ (l.serving = .idle → l.up = []) ∧
    l.answered.map (·.id) <+: l.asked.map (·.id) ∧ l.asked.length ≤ l.answered.length + 1 ∧
    (∀ b, l.acquire = some b → b.stage = .answered none → b.task ∈ l.granted) ∧
    (l.owns = true → s.owner = some (.link k)) ∧
    (∀ j l', s.links[j]? = some l' → l.owns = true → l'.owns = true → j = k) := by
  have hinv := inv_run hrun
  have hok := hinv.links l (List.mem_of_getElem? hl)
  have hasked := hok.flow.asked_le
  have hreceived := hok.flow.received
  refine ⟨?_, ?_, hok.flow.answers, by omega, hok.grants.answered, (hinv.owner k l hl).mp, ?_⟩
  · intro why hwhy
    have hfits := hok.flow.serving
    rw [hwhy] at hfits
    exact hfits.1
  · intro hidle
    exact (hok.flow.quiet hidle).1
  · intro j l' hl' ho ho'
    have hk := (hinv.owner k l hl).mp ho
    rw [(hinv.owner j l' hl').mp ho', Option.some.injEq, Owner.link.injEq] at hk
    exact hk

/-- An application asks, gives up and asks again; the second call is answered while the operation of the first one is
running, and refused. Then that ends, and the third call is granted. -/
def threeCalls : List Label :=
  let q (id : Nat) : Request := { id := id, name := "pane", attachment := 7 }
  let ask (id : Nat) : List Label := [.link 0 (.host (.acquire (q id))), .link 0 (.host .send), .link 0 (.host .take)]
  let play : List Label := [.link 0 (.helper .begin), .link 0 (.media (.own true "")), .link 0 (.media (.route true "")),
    .link 0 (.media (.open true "")), .link 0 (.helper .granted), .link 0 (.helper (.answer true))]
  [.connect] ++ ask 1 ++ [.link 0 (.helper .read)] ++ play ++ [.link 0 (.host .cancel), .link 0 (.host .receive)] ++
    ask 2 ++ [.link 0 (.helper .read), .link 0 (.helper .next), .link 0 (.helper .late), .link 0 (.helper (.refuse true)),
      .link 0 (.host .receive), .link 0 (.host .cancel), .link 0 (.media (.stop none)), .link 0 (.helper .finish)] ++
    ask 3 ++ [.link 0 (.helper .read)] ++ play ++ [.link 0 (.host .receive)]

theorem answers_are_for_their_calls_three :
    ∃ s l, exec step init threeCalls = some s ∧ s.links[0]? = some l ∧
      l.answered = [⟨1, none⟩, ⟨2, some "Mac audio is in use by pane pane; end its voice session first"⟩, ⟨3, none⟩] ∧
      l.acquire = some ⟨2, ⟨3, "pane", 7⟩, .answered none⟩ ∧ 2 ∈ l.granted ∧ s.owner = some (.link 0) := by
  obtain ⟨s, hs⟩ := Option.isSome_iff_exists.mp (show (exec step init threeCalls).isSome = true by decide +kernel)
  have hlink : (exec step init threeCalls).bind (fun s => s.links[0]?.map fun l => (l.answered, l.acquire, l.owns)) =
      some ([⟨1, none⟩, ⟨2, some "Mac audio is in use by pane pane; end its voice session first"⟩, ⟨3, none⟩],
        some ⟨2, ⟨3, "pane", 7⟩, .answered none⟩, true) := by
    decide +kernel
  rw [hs, Option.bind_some] at hlink
  obtain ⟨l, hl, heq⟩ := Option.map_eq_some_iff.mp hlink
  simp only [Prod.mk.injEq] at heq
  obtain ⟨hanswered, hacquire, howns⟩ := heq
  obtain ⟨_, _, _, _, hgranted, howner, _⟩ := answers_are_for_their_calls hs hl
  exact ⟨s, l, hs, hl, hanswered, hacquire, hgranted _ hacquire rfl, howner howns⟩

end Mux.AudioProvider
