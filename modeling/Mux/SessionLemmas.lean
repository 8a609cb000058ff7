import Mux.Session

/-!
# What one step of a session can do

The message a label sends and the client it releases are read off the state it is taken
in. `client_of_step` says where a client's record comes from: it was just attached, or it
was there before and its channel has accepted exactly what the label sends it.
`slot_of_step` says which labels can move a client out of the slot.
-/

namespace Mux.Session

open Lib

section
variable {T : Type} {s s' : State T} {id : ClientId}

/-! ## The record functions -/

theorem push_some {msg : ClientMsg} (h : s.push id msg = some s') :
    ∃ c chan, s.clients id = some c ∧ chan.log = c.chan.log ++ [msg] ∧
      s' = s.setClient id { c with chan := chan } := by
  simp only [State.push, Option.bind_eq_some_iff, Option.map_eq_some_iff] at h
  obtain ⟨c, hc, chan, hsend, rfl⟩ := h
  exact ⟨c, chan, hc, Channel.log_send hsend, rfl⟩

theorem isSome_setClient {c c' : Client} (hc : s.clients id = some c) (i : ClientId) :
    ((s.setClient id c').clients i).isSome = (s.clients i).isSome := by
  simp only [State.setClient]
  split
  · rename_i hi; rw [hi, hc]; rfl
  · rfl

theorem isSome_setSlot (client : Option AttachedClient) (i : ClientId) :
    ((s.setSlot client).clients i).isSome = (s.clients i).isSome := by
  simp only [State.setSlot]
  split
  · rw [Option.isSome_map]
  · rfl

theorem setClient_client {c c' : Client} {i : ClientId} (h : (s.setClient id c').clients i = some c) :
    (i = id ∧ c = c') ∨ (i ≠ id ∧ s.clients i = some c) := by
  by_cases he : i = id
  · simp only [State.setClient, he, ite_true, Option.some.injEq] at h
    exact Or.inl ⟨he, h.symm⟩
  · simp only [State.setClient, he, ite_false] at h
    exact Or.inr ⟨he, h⟩

theorem mapClient_client {f : Client → Client} {c : Client} {i : ClientId}
    (h : (s.mapClient id f).clients i = some c) :
    (i = id ∧ ∃ c', s.clients i = some c' ∧ c = f c') ∨ (i ≠ id ∧ s.clients i = some c) := by
  by_cases he : i = id
  · simp only [State.mapClient, he, ite_true] at h
    obtain ⟨c', hc', rfl⟩ := Option.map_eq_some_iff.mp h
    exact Or.inl ⟨he, c', he ▸ hc', rfl⟩
  · simp only [State.mapClient, he, ite_false] at h
    exact Or.inr ⟨he, h⟩

theorem setSlot_client (client : Option AttachedClient) {c : Client} {i : ClientId}
    (h : (s.setSlot client).clients i = some c) :
    ∃ c', s.clients i = some c' ∧ ∃ left, c = { c' with leftAt := left } := by
  simp only [State.setSlot] at h
  split at h
  · obtain ⟨c', hc', rfl⟩ := Option.map_eq_some_iff.mp h
    exact ⟨c', hc', _, rfl⟩
  · exact ⟨c, h, _, rfl⟩

theorem detach_client {c : Client} {i : ClientId} (h : (s.detach id).clients i = some c) :
    ∃ c', s.clients i = some c' ∧ ∃ left, c = { c' with leftAt := left } := by
  unfold State.detach at h
  split at h
  · exact setSlot_client none h
  · exact ⟨c, h, _, rfl⟩

theorem slot_detach {i : ClientId} (h : s.slot = some id) (h' : (s.detach i).slot ≠ some id) : i = id := by
  by_cases he : s.slot = some i
  · exact Option.some.inj (he.symm.trans h)
  · rw [State.detach, if_neg he] at h'
    exact absurd h h'

theorem push_slot {msg : ClientMsg} {i : ClientId} (hp : s.push i msg = some s') : s'.slot = s.slot := by
  obtain ⟨c, chan, _, _, rfl⟩ := push_some hp
  rfl

end

/-! ## Labels that leave the slot and the clients alone -/

def Label.framed : Label → Bool
  | .openTerm | .reopen _ | .close _ | .getExisting | .checkExisting | .otherAttach | .drawId
  | .attachLock .. | .read _ | .eof | .sendOutputFail | .refresh _ | .tell _ | .tellFail _
  | .kill | .killMark | .reapMark _ | .reapFail | .reapRemove => true
  | _ => false

section
variable {T : Type} [Ghostty T] {s s' : State T} {a : Label}

theorem frame_of_step (hs : step s a = some s') (hf : a.framed = true) :
    s'.slot = s.slot ∧ s'.clients = s.clients := by
  cases a with
  | openTerm =>
    simp only [step, State.openTerm, Option.ite_none_right_eq_some, Option.some.injEq] at hs
    obtain ⟨_, rfl⟩ := hs
    exact ⟨rfl, rfl⟩
  | reopen now =>
    simp only [step, State.reopen, Option.ite_none_right_eq_some, Option.some.injEq] at hs
    obtain ⟨_, rfl⟩ := hs
    exact ⟨rfl, rfl⟩
  | close deadline =>
    simp only [step, State.close, Option.ite_none_right_eq_some, Option.some.injEq] at hs
    obtain ⟨_, rfl⟩ := hs
    exact ⟨rfl, rfl⟩
  | getExisting =>
    simp only [step, State.getExisting, Option.ite_none_right_eq_some, Option.some.injEq] at hs
    obtain ⟨_, rfl⟩ := hs
    exact ⟨rfl, rfl⟩
  | attachLock i cols rows connection =>
    simp only [step, State.attachLock, Option.ite_none_right_eq_some, Option.some.injEq] at hs
    obtain ⟨_, rfl⟩ := hs
    exact ⟨rfl, rfl⟩
  | read chunk =>
    simp only [step, State.read, Option.ite_none_right_eq_some, Option.some.injEq] at hs
    obtain ⟨_, rfl⟩ := hs
    exact ⟨rfl, rfl⟩
  | eof =>
    simp only [step, State.eof, Option.ite_none_right_eq_some, Option.some.injEq] at hs
    obtain ⟨_, rfl⟩ := hs
    exact ⟨rfl, rfl⟩
  | kill =>
    simp only [step, State.kill, Option.ite_none_right_eq_some, Option.some.injEq] at hs
    obtain ⟨_, rfl⟩ := hs
    exact ⟨rfl, rfl⟩
  | killMark =>
    simp only [step, State.killMark, Option.ite_none_right_eq_some, Option.some.injEq] at hs
    obtain ⟨_, rfl⟩ := hs
    exact ⟨rfl, rfl⟩
  | reapMark code =>
    simp only [step, State.reapMark, Option.ite_none_right_eq_some, Option.some.injEq] at hs
    obtain ⟨_, rfl⟩ := hs
    exact ⟨rfl, rfl⟩
  | reapRemove =>
    simp only [step, State.reapRemove, Option.ite_none_right_eq_some, Option.some.injEq] at hs
    obtain ⟨_, rfl⟩ := hs
    exact ⟨rfl, rfl⟩
  | checkExisting =>
    simp only [step, State.checkExisting] at hs
    split at hs
    · cases hs
    · split at hs
      · cases hs; exact ⟨rfl, rfl⟩
      · cases hs; exact ⟨rfl, rfl⟩
  | otherAttach => cases hs; exact ⟨rfl, rfl⟩
  | drawId =>
    simp only [step, State.drawId] at hs
    split at hs
    · cases hs
    · cases hs; exact ⟨rfl, rfl⟩
  | refresh name => cases hs; exact ⟨rfl, rfl⟩
  | tell name =>
    obtain ⟨i, _, rfl⟩ := Option.map_eq_some_iff.mp hs
    exact ⟨rfl, rfl⟩
  | sendOutputFail =>
    simp only [step, State.sendOutputFail] at hs
    split at hs
    · cases hs; exact ⟨rfl, rfl⟩
    · cases hs
  | tellFail i =>
    simp only [step, State.tellFail] at hs
    split at hs
    · cases hs; exact ⟨rfl, rfl⟩
    · cases hs
  | reapFail =>
    simp only [step, State.reapFail] at hs
    split at hs
    · cases hs; exact ⟨rfl, rfl⟩
    · cases hs
  | _ => cases hf

end

/-! ## What a label sends -/

section
variable {T : Type}

def sends (s : State T) : Label → Option (ClientId × ClientMsg)
  | .sendOutput =>
    match s.readLoop with
    | .sending chunk n id => some (id, .output chunk (.live n))
    | _ => none
  | .tellSend i =>
    match s.tells[i]? with
    | some (.sending name id) => some (id, .foreground name)
    | _ => none
  | .reapSend =>
    match s.readLoop with
    | .exiting code id => some (id, .exit code)
    | _ => none
  | .resizeSend i =>
    match (s.clients i).map (·.resize) with
    | some (Resize.sending target d) => some (target, .output d.bytes (.replay d.fed))
    | _ => none
  | _ => none

def sentTo (s : State T) (a : Label) (id : ClientId) : List ClientMsg :=
  match sends s a with
  | some (i, m) => if i = id then [m] else []
  | none => []

def Resize.dump? : Resize → Option Dump
  | .idle => none
  | .ioctl _ _ redump => redump
  | .lookup d => some d
  | .sending _ d => some d

structure Evolves [Ghostty T] (s : State T) (a : Label) (id : ClientId) (c c' : Client) : Prop where
  dump : c'.dump = c.dump
  renderedAt : c'.renderedAt = c.renderedAt
  log : c'.chan.log = c.chan.log ++ sentTo s a id
  resize : c.resize = .idle → c'.resize ≠ .idle → ∃ cols rows, a = .resizeLock id cols rows
  redump : ∀ d, c'.resize.dump? = some d → c.resize.dump? = some d ∨ ∃ cols rows, a = .resizeLock id cols rows ∧
    d = ⟨(s.session.resize cols rows).terminal.renderScreenBytes, s.fed.length⟩
  requested : c'.requested = c.requested ∨ ∃ cols rows, a = .resizeLock id cols rows ∧ c'.requested = (cols, rows)

@[simp] theorem dump_afterIoctl (redump : Option Dump) : (Resize.afterIoctl redump).dump? = redump := by
  cases redump <;> rfl

theorem dump_afterLookup {d d' : Dump} {slot : Option ClientId} (h : (Resize.afterLookup d slot).dump? = some d') :
    d = d' := by
  cases slot with
  | none => cases h
  | some target => exact Option.some.inj h

variable {s s' : State T} {a : Label} {id : ClientId} {c c' : Client}

theorem sentTo_nil (h : sends s a = none) (id : ClientId) : sentTo s a id = [] := by
  simp only [sentTo, h]

theorem sentTo_self {m : ClientMsg} (h : sends s a = some (id, m)) : sentTo s a id = [m] := by
  simp only [sentTo, h, ite_true]

theorem sentTo_other {i : ClientId} {m : ClientMsg} (h : sends s a = some (i, m)) (hne : id ≠ i) :
    sentTo s a id = [] := by
  simp only [sentTo, h, if_neg (Ne.symm hne)]

/-- Who sends a message, and what it says. -/
inductive Sends (s : State T) (id : ClientId) : Label → ClientMsg → Prop where
  | output (chunk : Bytes) (n : Nat) (h : s.readLoop = .sending chunk n id) :
    Sends s id .sendOutput (.output chunk (.live n))
  | tell (i : Nat) (name : String) (h : s.tells[i]? = some (.sending name id)) :
    Sends s id (.tellSend i) (.foreground name)
  | exit (code : Int) (h : s.readLoop = .exiting code id) : Sends s id .reapSend (.exit code)
  | resize (i : ClientId) (ci : Client) (d : Dump) (hi : s.clients i = some ci) (h : ci.resize = .sending id d) :
    Sends s id (.resizeSend i) (.output d.bytes (.replay d.fed))

theorem sends_cases {m : ClientMsg} (h : sends s a = some (id, m)) : Sends s id a m := by
  cases a with
  | sendOutput =>
    simp only [sends] at h
    split at h
    · rename_i chunk n _ hr
      cases h
      exact .output chunk n hr
    · cases h
  | tellSend i =>
    simp only [sends] at h
    split at h
    · rename_i name _ ht
      cases h
      exact .tell i name ht
    · cases h
  | reapSend =>
    simp only [sends] at h
    split at h
    · rename_i code _ hr
      cases h
      exact .exit code hr
    · cases h
  | resizeSend i =>
    simp only [sends] at h
    split at h
    · rename_i target d hr
      obtain ⟨ci, hci, hr⟩ := Option.map_eq_some_iff.mp hr
      cases h
      exact .resize i ci d hci hr
    · cases h
  | _ => cases h

theorem sends_live {chunk : Bytes} {n : Nat} (h : sends s a = some (id, .output chunk (.live n))) :
    s.readLoop = .sending chunk n id := by
  cases sends_cases h with
  | output _ _ hr => exact hr

theorem sends_replay {bytes : Bytes} {k : Nat} (h : sends s a = some (id, .output bytes (.replay k))) :
    ∃ i ci d, a = .resizeSend i ∧ s.clients i = some ci ∧ ci.resize = .sending id d ∧ bytes = d.bytes ∧ k = d.fed := by
  cases sends_cases h with
  | resize i ci d hci hr => exact ⟨i, ci, d, rfl, hci, hr, rfl, rfl⟩

theorem sentTo_cases (s : State T) (a : Label) (id : ClientId) :
    sentTo s a id = [] ∨ ∃ m, sends s a = some (id, m) ∧ sentTo s a id = [m] := by
  cases h : sends s a with
  | none => exact Or.inl (sentTo_nil h id)
  | some im =>
    obtain ⟨i, m⟩ := im
    by_cases he : id = i
    · subst he; exact Or.inr ⟨m, rfl, sentTo_self h⟩
    · exact Or.inl (sentTo_other h he)

variable [Ghostty T]

theorem Evolves.silent (h : sends s a = none) (hlog : c'.chan.log = c.chan.log) (hdump : c'.dump = c.dump)
    (hat : c'.renderedAt = c.renderedAt) (hres : c.resize = .idle → c'.resize = .idle)
    (hredump : ∀ d, c'.resize.dump? = some d → c.resize.dump? = some d)
    (hreq : c'.requested = c.requested) : Evolves s a id c c' where
  dump := hdump
  renderedAt := hat
  log := by rw [sentTo_nil h, List.append_nil, hlog]
  resize := fun h1 h2 => absurd (hres h1) h2
  redump := fun d hd => Or.inl (hredump d hd)
  requested := Or.inl hreq

theorem evolves_push {i : ClientId} {m : ClientMsg} (hsend : sends s a = some (i, m)) (hp : s.push i m = some s')
    (hc : s'.clients id = some c') : ∃ c, s.clients id = some c ∧ Evolves s a id c c' := by
  obtain ⟨c, chan, hci, hlog, rfl⟩ := push_some hp
  rcases setClient_client hc with ⟨rfl, rfl⟩ | ⟨hne, hc⟩
  · exact ⟨c, hci, rfl, rfl, by rw [sentTo_self hsend]; exact hlog, fun h1 h2 => absurd h1 h2, fun _ h => Or.inl h, Or.inl rfl⟩
  · refine ⟨c', hc, rfl, rfl, ?_, fun h1 h2 => absurd h1 h2, fun _ h => Or.inl h, Or.inl rfl⟩
    rw [sentTo_other hsend hne, List.append_nil]

theorem evolves_setClient {i : ClientId} {ci ci' : Client} (hsend : sends s a = none) (hci : s.clients i = some ci)
    (hc : (s.setClient i ci').clients id = some c') (hok : Evolves s a i ci ci') :
    ∃ c, s.clients id = some c ∧ Evolves s a id c c' := by
  rcases setClient_client hc with ⟨rfl, rfl⟩ | ⟨_, hc⟩
  · exact ⟨ci, hci, hok⟩
  · exact ⟨c', hc, .silent hsend rfl rfl rfl (fun h => h) (fun _ h => h) rfl⟩

theorem evolves_same (hsend : sends s a = none) (hcl : s'.clients = s.clients) (hc : s'.clients id = some c') :
    ∃ c, s.clients id = some c ∧ Evolves s a id c c' :=
  ⟨c', hcl ▸ hc, .silent hsend rfl rfl rfl (fun h => h) (fun _ h => h) rfl⟩

theorem evolves_left (hsend : sends s a = none)
    (h : ∃ c, s.clients id = some c ∧ ∃ left, c' = { c with leftAt := left }) :
    ∃ c, s.clients id = some c ∧ Evolves s a id c c' := by
  obtain ⟨c, hc, left, rfl⟩ := h
  exact ⟨c, hc, .silent hsend rfl rfl rfl (fun h => h) (fun _ h => h) rfl⟩

end

section
variable {T : Type} [Ghostty T] {s s' : State T} {a : Label} {id : ClientId} {c c' : Client}

theorem client_of_step (hs : step s a = some s') (hc : s'.clients id = some c') :
    (∃ c, s.clients id = some c ∧ Evolves s a id c c') ∨
      ∃ att, a = .attachInstall ∧ s.attaching = some att ∧ att.id = id ∧
        c' = State.attached att s.session.terminal s.fed.length := by
  by_cases hf : a.framed = true
  · refine Or.inl (evolves_same ?_ (frame_of_step hs hf).2 hc)
    cases a with
    | sendOutput | tellSend i | reapSend | resizeSend i => cases hf
    | _ => rfl
  cases a with
  | attachInstall =>
    obtain ⟨att, ha, rfl⟩ := Option.map_eq_some_iff.mp hs
    rcases setClient_client hc with ⟨rfl, rfl⟩ | ⟨_, hc⟩
    · exact Or.inr ⟨att, rfl, ha, rfl, rfl⟩
    · exact Or.inl (evolves_left rfl (setSlot_client _ hc))
  | sendOutput =>
    simp only [step, State.sendOutput] at hs
    split at hs
    · rename_i chunk n i hl
      obtain ⟨s₁, hp, rfl⟩ := Option.map_eq_some_iff.mp hs
      exact Or.inl (evolves_push (by simp only [sends, hl]) hp hc)
    · cases hs
  | readDetach =>
    simp only [step, State.readDetach] at hs
    split at hs
    · cases hs; exact Or.inl (evolves_left rfl (detach_client hc))
    · cases hs
  | tellSend i =>
    simp only [step, State.tellSend] at hs
    split at hs
    · rename_i name j hl
      obtain ⟨s₁, hp, rfl⟩ := Option.map_eq_some_iff.mp hs
      exact Or.inl (evolves_push (by simp only [sends, hl]) hp hc)
    · cases hs
  | tellDetach i =>
    simp only [step, State.tellDetach] at hs
    split at hs
    · cases hs; exact Or.inl (evolves_left rfl (detach_client hc))
    · cases hs
  | killClear =>
    simp only [step, State.killClear, Option.ite_none_right_eq_some, Option.some.injEq] at hs
    obtain ⟨_, rfl⟩ := hs
    exact Or.inl (evolves_left rfl (setSlot_client none hc))
  | reapTake =>
    simp only [step, State.reapTake] at hs
    split at hs
    · cases hs; exact Or.inl (evolves_left rfl (setSlot_client none hc))
    · cases hs
  | reapSend =>
    simp only [step, State.reapSend] at hs
    split at hs
    · rename_i code i hl
      obtain ⟨s₁, hp, rfl⟩ := Option.map_eq_some_iff.mp hs
      exact Or.inl (evolves_push (by simp only [sends, hl]) hp hc)
    · cases hs
  | forward i =>
    obtain ⟨ci, hci, hs⟩ := Option.bind_eq_some_iff.mp hs
    split at hs
    · obtain ⟨⟨msg, chan⟩, hr, rfl⟩ := Option.map_eq_some_iff.mp hs
      exact Or.inl (evolves_setClient rfl hci hc (.silent rfl (Channel.log_recv hr) rfl rfl (fun h => h) (fun _ h => h) rfl))
    · cases hs
  | hangup i =>
    obtain ⟨ci, hci, hs⟩ := Option.bind_eq_some_iff.mp hs
    split at hs
    · cases hs
      exact Or.inl (evolves_setClient rfl hci hc (.silent rfl (Channel.log_close _) rfl rfl (fun _ => rfl) nofun rfl))
    · cases hs
  | teardown i =>
    obtain ⟨ci, hci, hs⟩ := Option.bind_eq_some_iff.mp hs
    split at hs
    · cases hs
      obtain ⟨c₁, hc₁, left, rfl⟩ := detach_client hc
      obtain ⟨c, hc, he⟩ := evolves_setClient (a := .teardown i) rfl hci hc₁ (.silent rfl rfl rfl rfl (fun h => h) (fun _ h => h) rfl)
      exact Or.inl ⟨c, hc, he.dump, he.renderedAt, he.log, he.resize, he.redump, he.requested⟩
    · cases hs
  | resizeLock i cols rows =>
    obtain ⟨ci, hci, hs⟩ := Option.bind_eq_some_iff.mp hs
    split at hs
    · cases hs
      refine Or.inl (evolves_setClient rfl hci hc
        ⟨rfl, rfl, ?_, fun _ _ => ⟨cols, rows, rfl⟩, fun d hd => Or.inr ⟨cols, rows, rfl, ?_⟩,
          Or.inr ⟨cols, rows, rfl, rfl⟩⟩)
      · rw [sentTo_nil rfl, List.append_nil]
      · simp only [Resize.dump?] at hd
        split at hd
        · cases hd
        · exact (Option.some.inj hd).symm
    · cases hs
  | resizeIoctl i =>
    obtain ⟨ci, hci, hs⟩ := Option.bind_eq_some_iff.mp hs
    split at hs
    · rename_i cols rows redump hr
      cases hs
      refine Or.inl (evolves_setClient rfl hci hc (.silent rfl rfl rfl rfl (fun h => ?_) (fun d hd => ?_) rfl))
      · rw [hr] at h; cases h
      · rw [hr]; rwa [dump_afterIoctl] at hd
    · cases hs
  | resizeResolve i =>
    obtain ⟨ci, hci, hs⟩ := Option.bind_eq_some_iff.mp hs
    split at hs
    · rename_i d hr
      cases hs
      refine Or.inl (evolves_setClient rfl hci hc (.silent rfl rfl rfl rfl (fun h => ?_) (fun d' hd => ?_) rfl))
      · rw [hr] at h; cases h
      · rw [hr, ← dump_afterLookup hd]; rfl
    · cases hs
  | resizeSend i =>
    obtain ⟨ci, hci, hs⟩ := Option.bind_eq_some_iff.mp hs
    split at hs
    · rename_i target d hr
      obtain ⟨s₁, hp, rfl⟩ := Option.map_eq_some_iff.mp hs
      have hsend : sends s (.resizeSend i) = some (target, .output d.bytes (.replay d.fed)) := by
        simp only [sends, hci, Option.map_some, hr]
      rcases mapClient_client hc with ⟨rfl, c₁, hc₁, rfl⟩ | ⟨_, hc₁⟩
      · obtain ⟨c, hc, he⟩ := evolves_push hsend hp hc₁
        exact Or.inl ⟨c, hc, he.dump, he.renderedAt, he.log, fun _ h => absurd rfl h, nofun, he.requested⟩
      · exact Or.inl (evolves_push hsend hp hc₁)
    · cases hs
  | resizeDrop i =>
    obtain ⟨ci, hci, hs⟩ := Option.bind_eq_some_iff.mp hs
    split at hs
    · split at hs
      · cases hs
        exact Or.inl (evolves_setClient rfl hci hc (.silent rfl rfl rfl rfl (fun _ => rfl) nofun rfl))
      · cases hs
    · cases hs
  | _ => exact absurd rfl hf

/-! ## What a label releases -/

/-- The client a release names: the handler that is torn down, or the client whose
send timed out. -/
def releases (s : State T) : Label → Option ClientId
  | .teardown id => some id
  | .readDetach =>
    match s.readLoop with
    | .detaching id => some id
    | _ => none
  | .tellDetach i =>
    match s.tells[i]? with
    | some (.detaching id) => some id
    | _ => none
  | _ => none

theorem slot_of_step (hs : step s a = some s') (h : s.slot = some id) (h' : s'.slot ≠ some id) :
    releases s a = some id ∨ (∃ att, a = .attachInstall ∧ s.attaching = some att ∧ s'.slot = some att.id) ∨
      a = .killClear ∨ a = .reapTake := by
  by_cases hf : a.framed = true
  · exact absurd ((frame_of_step hs hf).1.trans h) h'
  cases a with
  | killClear => exact Or.inr (Or.inr (Or.inl rfl))
  | reapTake => exact Or.inr (Or.inr (Or.inr rfl))
  | attachInstall =>
    obtain ⟨att, ha, rfl⟩ := Option.map_eq_some_iff.mp hs
    exact Or.inr (Or.inl ⟨att, rfl, ha, rfl⟩)
  | teardown i =>
    obtain ⟨ci, hci, hs⟩ := Option.bind_eq_some_iff.mp hs
    split at hs
    · cases hs
      exact Or.inl (congrArg some (slot_detach (s := s.setClient i { ci with handler := .gone }) h h'))
    · cases hs
  | readDetach =>
    simp only [step, State.readDetach] at hs
    split at hs
    · rename_i i hl
      cases hs
      exact Or.inl (by simp only [releases, hl, slot_detach h h'])
    · cases hs
  | tellDetach i =>
    simp only [step, State.tellDetach] at hs
    split at hs
    · rename_i j hl
      cases hs
      exact Or.inl (by simp only [releases, hl, slot_detach h h'])
    · cases hs
  | sendOutput =>
    simp only [step, State.sendOutput] at hs
    split at hs
    · obtain ⟨s₁, hp, rfl⟩ := Option.map_eq_some_iff.mp hs
      exact absurd ((push_slot hp).trans h) h'
    · cases hs
  | tellSend i =>
    simp only [step, State.tellSend] at hs
    split at hs
    · obtain ⟨s₁, hp, rfl⟩ := Option.map_eq_some_iff.mp hs
      exact absurd ((push_slot hp).trans h) h'
    · cases hs
  | reapSend =>
    simp only [step, State.reapSend] at hs
    split at hs
    · obtain ⟨s₁, hp, rfl⟩ := Option.map_eq_some_iff.mp hs
      exact absurd ((push_slot hp).trans h) h'
    · cases hs
  | forward i =>
    obtain ⟨ci, hci, hs⟩ := Option.bind_eq_some_iff.mp hs
    split at hs
    · obtain ⟨⟨msg, chan⟩, hr, rfl⟩ := Option.map_eq_some_iff.mp hs
      exact absurd h h'
    · cases hs
  | hangup i =>
    obtain ⟨ci, hci, hs⟩ := Option.bind_eq_some_iff.mp hs
    split at hs
    · cases hs; exact absurd h h'
    · cases hs
  | resizeLock i cols rows =>
    obtain ⟨ci, hci, hs⟩ := Option.bind_eq_some_iff.mp hs
    split at hs
    · cases hs; exact absurd h h'
    · cases hs
  | resizeIoctl i =>
    obtain ⟨ci, hci, hs⟩ := Option.bind_eq_some_iff.mp hs
    split at hs
    · cases hs; exact absurd h h'
    · cases hs
  | resizeResolve i =>
    obtain ⟨ci, hci, hs⟩ := Option.bind_eq_some_iff.mp hs
    split at hs
    · cases hs; exact absurd h h'
    · cases hs
  | resizeSend i =>
    obtain ⟨ci, hci, hs⟩ := Option.bind_eq_some_iff.mp hs
    split at hs
    · obtain ⟨s₁, hp, rfl⟩ := Option.map_eq_some_iff.mp hs
      exact absurd ((push_slot hp).trans h) h'
    · cases hs
  | resizeDrop i =>
    obtain ⟨ci, hci, hs⟩ := Option.bind_eq_some_iff.mp hs
    split at hs
    · split at hs
      · cases hs; exact absurd h h'
      · cases hs
    · cases hs
  | _ => exact absurd rfl hf

end

/-! ## The terminal, the read loop and the slot -/

attribute [grind =] State.openTerm State.reopen State.close State.getExisting State.checkExisting State.otherAttach
  State.drawId State.attachLock State.attachInstall State.read State.eof State.sendOutput State.sendOutputFail
  State.readDetach State.refresh State.tell State.tellSend State.tellFail State.tellDetach State.kill State.killClear
  State.killMark State.reapMark State.reapTake State.reapSend State.reapFail State.reapRemove State.forward
  State.hangup State.teardown State.resizeLock State.resizeIoctl State.resizeResolve State.resizeSend
  State.resizeDrop State.setClient State.mapClient State.setSlot State.detach State.slot PtySession.changed
  PtySession.feed PtySession.resize

attribute [grind →] push_some

def Label.vtOps : Label → List VtOp
  | .attachLock _ cols rows _ => [.resize rows cols]
  | .resizeLock _ cols rows => [.resize rows cols]
  | .read chunk => [.feed chunk]
  | _ => []

def Label.resizes : Label → Bool
  | .attachLock .. | .attachInstall | .resizeLock .. | .resizeIoctl _ => true
  | _ => false

def Resize.asked? : Resize → Option (UInt16 × UInt16)
  | .ioctl cols rows _ => some (cols, rows)
  | _ => none

def ReadLoop.taken : ReadLoop → Bool
  | .exiting .. | .removing | .done => true
  | _ => false

@[simp] theorem asked_afterIoctl (redump : Option Dump) : (Resize.afterIoctl redump).asked? = none := by
  cases redump <;> rfl

@[simp] theorem asked_afterLookup (d : Dump) (slot : Option ClientId) : (Resize.afterLookup d slot).asked? = none := by
  cases slot <;> rfl

theorem asked_of_atAwait {r : Resize} (h : r.atAwait = true) : r.asked? = none := by
  cases r with
  | ioctl cols rows redump => cases h
  | _ => rfl

section
variable {T : Type} [Ghostty T] {s s' : State T} {a : Label} {id : ClientId}

theorem vtLog_of_step (hs : step s a = some s') : s'.vtLog = s.vtLog ++ a.vtOps := by
  cases a <;> simp only [step] at hs
  all_goals grind [Label.vtOps]

theorem grid_of_step (hs : step s a = some s') (ha : a.resizes = false) :
    s'.session.terminal.size = s.session.terminal.size ∧ s'.winsize = s.winsize ∧ s'.attaching = s.attaching := by
  cases a <;> simp only [step] at hs
  all_goals grind [Label.resizes, Terminal.size_feed]

theorem asked_of_step (hs : step s a = some s') (ha : a.resizes = false) {c' : Client} (hc : s'.clients id = some c') :
    ∃ c, s.clients id = some c ∧ c'.requested = c.requested ∧ c'.resize.asked? = c.resize.asked? := by
  cases a <;> simp only [step] at hs
  case teardown i =>
    obtain ⟨ci, hci, hs⟩ := Option.bind_eq_some_iff.mp hs
    split at hs
    · cases hs
      obtain ⟨c₁, hc₁, left, rfl⟩ := detach_client hc
      rcases setClient_client hc₁ with ⟨rfl, rfl⟩ | ⟨_, hc₁⟩
      · exact ⟨ci, hci, rfl, rfl⟩
      · exact ⟨c₁, hc₁, rfl, rfl⟩
    · cases hs
  case resizeSend i =>
    obtain ⟨ci, hci, hs⟩ := Option.bind_eq_some_iff.mp hs
    split at hs
    · rename_i target d hr
      obtain ⟨s₁, hp, rfl⟩ := Option.map_eq_some_iff.mp hs
      obtain ⟨ct, chan, hct, _, rfl⟩ := push_some hp
      rcases mapClient_client hc with ⟨rfl, c₁, hc₁, rfl⟩ | ⟨_, hc₁⟩
      · rcases setClient_client hc₁ with ⟨rfl, rfl⟩ | ⟨_, hc₁⟩
        · exact ⟨ci, hci, by grind, by rw [hr]; rfl⟩
        · exact ⟨ci, hci, by grind, by rw [hr]; rfl⟩
      · rcases setClient_client hc₁ with ⟨rfl, rfl⟩ | ⟨_, hc₁⟩
        · exact ⟨ct, hct, rfl, rfl⟩
        · exact ⟨c', hc₁, rfl, rfl⟩
    · cases hs
  all_goals grind [Label.resizes, Resize.asked?, asked_afterLookup, asked_of_atAwait]

/-- The destination of a dump is the client that was in the slot when it was looked up. -/
theorem target_of_step (hs : step s a = some s') {c' : Client} (hc : s'.clients id = some c') {target : ClientId}
    {d : Dump} (hr : c'.resize = .sending target d) :
    (∃ c, s.clients id = some c ∧ c.resize = .sending target d) ∨ a = .resizeResolve id ∧ s.slot = some target := by
  cases a <;> simp only [step] at hs
  case attachInstall =>
    obtain ⟨att, _, rfl⟩ := Option.map_eq_some_iff.mp hs
    rcases setClient_client hc with ⟨rfl, rfl⟩ | ⟨_, hc⟩
    · cases hr
    · obtain ⟨c, hc₁, left, rfl⟩ := setSlot_client _ hc
      exact .inl ⟨c, hc₁, hr⟩
  case resizeIoctl i =>
    obtain ⟨ci, hci, hs⟩ := Option.bind_eq_some_iff.mp hs
    split at hs
    · rename_i cols rows redump _
      cases hs
      rcases setClient_client hc with ⟨rfl, rfl⟩ | ⟨_, hc⟩
      · cases redump <;> cases hr
      · exact .inl ⟨c', hc, hr⟩
    · cases hs
  case teardown i =>
    obtain ⟨ci, hci, hs⟩ := Option.bind_eq_some_iff.mp hs
    split at hs
    · cases hs
      obtain ⟨c₁, hc₁, left, rfl⟩ := detach_client hc
      rcases setClient_client hc₁ with ⟨rfl, rfl⟩ | ⟨_, hc₁⟩
      · exact .inl ⟨ci, hci, hr⟩
      · exact .inl ⟨c₁, hc₁, hr⟩
    · cases hs
  case resizeSend i =>
    obtain ⟨ci, hci, hs⟩ := Option.bind_eq_some_iff.mp hs
    split at hs
    · obtain ⟨s₁, hp, rfl⟩ := Option.map_eq_some_iff.mp hs
      obtain ⟨ct, chan, hct, _, rfl⟩ := push_some hp
      rcases mapClient_client hc with ⟨rfl, c₁, hc₁, rfl⟩ | ⟨_, hc₁⟩
      · cases hr
      · rcases setClient_client hc₁ with ⟨rfl, rfl⟩ | ⟨_, hc₁⟩
        · exact .inl ⟨ct, hct, hr⟩
        · exact .inl ⟨c', hc₁, hr⟩
    · cases hs
  case resizeResolve i =>
    obtain ⟨ci, hci, hs⟩ := Option.bind_eq_some_iff.mp hs
    split at hs
    · cases hs
      rcases setClient_client hc with ⟨rfl, rfl⟩ | ⟨_, hc⟩
      · cases hslot : s.slot with
        | none =>
          rw [hslot] at hr
          cases hr
        | some j =>
          rw [hslot] at hr
          cases hr
          exact .inr ⟨rfl, rfl⟩
      · exact .inl ⟨c', hc, hr⟩
    · cases hs
  all_goals grind

theorem sending_of_step (hs : step s a = some s') {chunk : Bytes} {n : Nat} (h : s'.readLoop = .sending chunk n id) :
    s.readLoop = .sending chunk n id ∨
      (a = .read chunk ∧ s.readLoop = .reading ∧ s.slot = some id ∧ n = s.fed.length + 1) := by
  cases a <;> simp only [step] at hs
  all_goals grind

theorem taken_of_step (hs : step s a = some s') (h : s'.readLoop.taken = true) :
    s.readLoop.taken = true ∨ s'.slot = none := by
  cases a <;> simp only [step] at hs
  all_goals grind [ReadLoop.taken]

theorem detaching_of_step (hs : step s a = some s') (h : s.readLoop = .detaching id) :
    s'.readLoop = .detaching id ∨ s'.slot ≠ some id := by
  cases a <;> simp only [step] at hs
  all_goals grind

theorem slot_new_of_step (hs : step s a = some s') (h : s'.slot = some id) :
    s.slot = some id ∨ ∃ att, a = .attachInstall ∧ s.attaching = some att ∧ att.id = id := by
  cases a <;> simp only [step] at hs
  all_goals grind

end

end Mux.Session
