import Mux.SessionLemmas

/-!
# The invariant of the attach stream

`ClientOk` is what holds of one client at every moment:
its channel has accepted exactly the chunks after its dump, up to the last one or, while
the read loop still owes it that chunk, up to the one before. `StreamInv` adds what ties
the clients to the slot, the read loop and the id counter; every step keeps it.
-/

namespace Mux.Session

open Lib

/-! ## What a channel accepted -/

def numbered (ops : List VtOp) : List (Bytes × Nat) := (chunks ops).zipIdx 1

def ClientMsg.live? : ClientMsg → Option (Bytes × Nat)
  | .output bytes (.live n) => some (bytes, n)
  | _ => none

def lives (msgs : List ClientMsg) : List (Bytes × Nat) := msgs.filterMap ClientMsg.live?

def ClientMsg.exit? : ClientMsg → Option Int
  | .exit code => some code
  | _ => none

def exits (msgs : List ClientMsg) : List Int := msgs.filterMap ClientMsg.exit?

def ClientMsg.output? : ClientMsg → Option Bytes
  | .output bytes _ => some bytes
  | _ => none

def outputs (msgs : List ClientMsg) : List Bytes := msgs.filterMap ClientMsg.output?

theorem lives_snoc (msgs : List ClientMsg) (m : ClientMsg) :
    lives (msgs ++ [m]) = lives msgs ++ m.live?.toList := by
  cases h : m.live? <;> simp [lives, h]

theorem exits_snoc (msgs : List ClientMsg) (m : ClientMsg) :
    exits (msgs ++ [m]) = exits msgs ++ m.exit?.toList := by
  cases h : m.exit? <;> simp [exits, h]

theorem exits_mem {msgs : List ClientMsg} {code : Int} (h : .exit code ∈ msgs) : exits msgs ≠ [] := by
  intro he
  have : code ∈ exits msgs := List.mem_filterMap.mpr ⟨_, h, rfl⟩
  rw [he] at this
  cases this

theorem length_numbered (ops : List VtOp) : (numbered ops).length = (chunks ops).length := by
  simp [numbered]

theorem numbered_feed (ops : List VtOp) (chunk : Bytes) :
    numbered (ops ++ [.feed chunk]) = numbered ops ++ [(chunk, (chunks ops).length + 1)] := by
  simp [numbered, List.zipIdx_append, Nat.add_comm]

theorem numbered_resize (ops : List VtOp) (rows cols : UInt16) :
    numbered (ops ++ [.resize rows cols]) = numbered ops := by
  simp [numbered]

/-- The number of the last chunk the client's channel has accepted, or of the last one
its dump contains. -/
def Client.upTo (c : Client) : Nat := c.renderedAt + (lives c.chan.log).length

/-- The read loop has resolved a chunk for `id` that it has not delivered. -/
def ReadLoop.owes (id : ClientId) : ReadLoop → Prop
  | .sending _ _ i => i = id
  | .detaching i => i = id
  | _ => False

/-- No exit has been sent yet. -/
def ReadLoop.beforeExit : ReadLoop → Prop
  | .removing | .done => False
  | _ => True

/-! ## One client -/

structure ClientOk {T : Type} [Ghostty T] (base : Terminal T) (ops : List VtOp) (slot : Option ClientId)
    (loop : ReadLoop) (id : ClientId) (c : Client) : Prop where
  rendered : ∃ pre, pre <+: ops ∧ (chunks pre).length = c.renderedAt ∧
    c.dump = (replay base pre).renderScreenBytes
  upTo_le : c.upTo ≤ (chunks ops).length
  lives_eq : lives c.chan.log = ((numbered ops).drop c.renderedAt).take (lives c.chan.log).length
  inSlot : slot = some id → c.leftAt = none
  outSlot : slot ≠ some id → ∃ m, c.leftAt = some m ∧ c.upTo ≤ m ∧ m ≤ c.upTo + 1 ∧ m ≤ (chunks ops).length
  complete : slot = some id → ¬ loop.owes id → c.upTo = (chunks ops).length
  owed : loop.owes id → c.upTo + 1 = (chunks ops).length ∧ ∀ m, c.leftAt = some m → m = (chunks ops).length
  exits_le : (exits c.chan.log).length ≤ 1
  exitLast : ∀ pre code post, c.chan.log = pre ++ .exit code :: post → lives post = []
  noExit : loop.beforeExit → exits c.chan.log = []

section
variable {T : Type} [Ghostty T] {base : Terminal T} {ops : List VtOp} {slot : Option ClientId}
  {loop : ReadLoop} {id : ClientId} {c : Client}

namespace ClientOk

theorem of_log_eq {c' : Client} (h : ClientOk base ops slot loop id c) (hlog : c'.chan.log = c.chan.log)
    (hdump : c'.dump = c.dump) (hat : c'.renderedAt = c.renderedAt) (hleft : c'.leftAt = c.leftAt) :
    ClientOk base ops slot loop id c' := by
  have hup : c'.upTo = c.upTo := by simp only [Client.upTo, hlog, hat]
  constructor
  · rw [hat, hdump]; exact h.rendered
  · rw [hup]; exact h.upTo_le
  · rw [hlog, hat]; exact h.lives_eq
  · rw [hleft]; exact h.inSlot
  · rw [hleft, hup]; exact h.outSlot
  · rw [hup]; exact h.complete
  · rw [hleft, hup]; exact h.owed
  · rw [hlog]; exact h.exits_le
  · rw [hlog]; exact h.exitLast
  · rw [hlog]; exact h.noExit

theorem loop_of (h : ClientOk base ops slot loop id c) {loop' : ReadLoop} (ho : loop'.owes id ↔ loop.owes id)
    (he : loop'.beforeExit → loop.beforeExit) : ClientOk base ops slot loop' id c where
  rendered := h.rendered
  upTo_le := h.upTo_le
  lives_eq := h.lives_eq
  inSlot := h.inSlot
  outSlot := h.outSlot
  complete := fun hs hn => h.complete hs fun hl => hn (ho.mpr hl)
  owed := fun hl => h.owed (ho.mp hl)
  exits_le := h.exits_le
  exitLast := h.exitLast
  noExit := fun hl => h.noExit (he hl)

theorem loop_out (h : ClientOk base ops slot loop id c) {loop' : ReadLoop} (hs : slot ≠ some id)
    (ho : ¬ loop'.owes id) (he : loop'.beforeExit → loop.beforeExit) :
    ClientOk base ops slot loop' id c where
  rendered := h.rendered
  upTo_le := h.upTo_le
  lives_eq := h.lives_eq
  inSlot := h.inSlot
  outSlot := h.outSlot
  complete := fun hs' => absurd hs' hs
  owed := fun hl => absurd hl ho
  exits_le := h.exits_le
  exitLast := h.exitLast
  noExit := fun hl => h.noExit (he hl)

theorem slot_other (h : ClientOk base ops slot loop id c) {slot' : Option ClientId} (hs : slot ≠ some id)
    (hs' : slot' ≠ some id) : ClientOk base ops slot' loop id c where
  rendered := h.rendered
  upTo_le := h.upTo_le
  lives_eq := h.lives_eq
  inSlot := fun h' => absurd h' hs'
  outSlot := fun _ => h.outSlot hs
  complete := fun h' => absurd h' hs'
  owed := h.owed
  exits_le := h.exits_le
  exitLast := h.exitLast
  noExit := h.noExit

/-- The client leaves the slot. What it still misses is at most the chunk it is owed. -/
theorem leave (h : ClientOk base ops slot loop id c) {slot' : Option ClientId} (hs : slot = some id)
    (hs' : slot' ≠ some id) :
    ClientOk base ops slot' loop id { c with leftAt := some (chunks ops).length } where
  rendered := h.rendered
  upTo_le := h.upTo_le
  lives_eq := h.lives_eq
  inSlot := fun h' => absurd h' hs'
  outSlot := fun _ => by
    refine ⟨_, rfl, h.upTo_le, ?_, Nat.le_refl _⟩
    by_cases ho : loop.owes id
    · exact Nat.le_of_eq (h.owed ho).1.symm
    · rw [← h.complete hs ho]; exact Nat.le_succ _
  complete := fun h' => absurd h' hs'
  owed := fun ho => ⟨(h.owed ho).1, fun m hm => (Option.some.inj hm).symm⟩
  exits_le := h.exits_le
  exitLast := h.exitLast
  noExit := h.noExit

theorem resized (h : ClientOk base ops slot loop id c) (rows cols : UInt16) :
    ClientOk base (ops ++ [.resize rows cols]) slot loop id c := by
  constructor
  · obtain ⟨pre, hp, hk, hd⟩ := h.rendered
    exact ⟨pre, hp.trans (List.prefix_append _ _), hk, hd⟩
  · rw [chunks_resize]; exact h.upTo_le
  · rw [numbered_resize]; exact h.lives_eq
  · exact h.inSlot
  · rw [chunks_resize]; exact h.outSlot
  · rw [chunks_resize]; exact h.complete
  · rw [chunks_resize]; exact h.owed
  · exact h.exits_le
  · exact h.exitLast
  · exact h.noExit

end ClientOk

theorem take_drop_snoc {α : Type} (l : List α) (x : α) (k n : Nat) (h : k + n ≤ l.length) :
    ((l ++ [x]).drop k).take n = (l.drop k).take n := by
  rw [List.drop_append_of_le_length (by omega), List.take_append_of_le_length]
  rw [List.length_drop]; omega

theorem take_drop_last {α : Type} (l : List α) (x : α) (k n : Nat) (h : k + n = l.length) :
    ((l ++ [x]).drop k).take (n + 1) = (l.drop k).take n ++ [x] := by
  have hn : (l.drop k).length = n := by rw [List.length_drop]; omega
  rw [List.drop_append_of_le_length (by omega), List.take_of_length_le (by simp [hn]),
    List.take_of_length_le (by omega)]

theorem snoc_split {α : Type} {msgs pre post : List α} {m x : α} (h : msgs ++ [m] = pre ++ x :: post) :
    (pre = msgs ∧ x = m ∧ post = []) ∨ ∃ post', post = post' ++ [m] ∧ msgs = pre ++ x :: post' := by
  rcases List.eq_nil_or_concat post with rfl | ⟨post', y, rfl⟩
  · obtain ⟨h1, h2⟩ := List.append_inj' h rfl
    exact Or.inl ⟨h1.symm, (List.singleton_inj.mp h2).symm, rfl⟩
  · have h' : msgs ++ [m] = (pre ++ x :: post') ++ [y] := by simpa using h
    obtain ⟨h1, h2⟩ := List.append_inj' h' rfl
    rw [List.singleton_inj.mp h2]
    exact Or.inr ⟨post', by simp, h1⟩

namespace ClientOk

theorem read (h : ClientOk base ops slot .reading id c) (chunk : Bytes) {loop' : ReadLoop}
    (ho : loop'.owes id ↔ slot = some id) :
    ClientOk base (ops ++ [.feed chunk]) slot loop' id c := by
  have hlen : (chunks (ops ++ [.feed chunk])).length = (chunks ops).length + 1 := by simp
  constructor
  · obtain ⟨pre, hp, hk, hd⟩ := h.rendered
    exact ⟨pre, hp.trans (List.prefix_append _ _), hk, hd⟩
  · rw [hlen]; exact Nat.le_succ_of_le h.upTo_le
  · rw [numbered_feed, take_drop_snoc _ _ _ _ (by rw [length_numbered]; exact h.upTo_le)]
    exact h.lives_eq
  · exact h.inSlot
  · intro hs
    obtain ⟨m, hm, h1, h2, h3⟩ := h.outSlot hs
    exact ⟨m, hm, h1, h2, by omega⟩
  · intro hs hn
    exact absurd (ho.mpr hs) hn
  · intro hl
    have hs := ho.mp hl
    refine ⟨by rw [hlen, h.complete hs (fun hf => hf.elim)], fun m hm => ?_⟩
    rw [h.inSlot hs] at hm
    cases hm
  · exact h.exits_le
  · exact h.exitLast
  · exact fun _ => h.noExit trivial

theorem deliver {chunk : Bytes} {chan : Channel ClientMsg clientChannelDepth}
    (h : ClientOk base ops slot (.sending chunk (chunks ops).length id) id c)
    (hlast : (chunks ops).getLast? = some chunk)
    (hlog : chan.log = c.chan.log ++ [.output chunk (.live (chunks ops).length)]) :
    ClientOk base ops slot .reading id { c with chan := chan } := by
  have howed := h.owed rfl
  have hl : lives chan.log = lives c.chan.log ++ [(chunk, (chunks ops).length)] := by
    rw [hlog, lives_snoc]; rfl
  have hup : Client.upTo { c with chan := chan } = c.upTo + 1 := by
    simp only [Client.upTo, hl, List.length_append, List.length_singleton]; omega
  have hex : exits chan.log = exits c.chan.log := by
    rw [hlog, exits_snoc]; simp [ClientMsg.exit?]
  have hnone := h.noExit trivial
  constructor
  · exact h.rendered
  · rw [hup]; exact Nat.le_of_eq howed.1
  · show lives chan.log = ((numbered ops).drop c.renderedAt).take (lives chan.log).length
    obtain ⟨l, hl'⟩ := List.getLast?_eq_some_iff.mp hlast
    have hnum : numbered ops = l.zipIdx 1 ++ [(chunk, (chunks ops).length)] := by
      simp [numbered, hl', List.zipIdx_append, Nat.add_comm]
    have hlen : c.renderedAt + (lives c.chan.log).length = (l.zipIdx 1).length := by
      have := howed.1
      rw [Client.upTo, hl', List.length_append, List.length_singleton] at this
      rw [List.length_zipIdx]; omega
    have hprev := h.lives_eq
    rw [hnum, take_drop_snoc _ _ _ _ (Nat.le_of_eq hlen)] at hprev
    rw [hl, List.length_append, List.length_singleton, hnum, take_drop_last _ _ _ _ hlen, ← hprev]
  · exact h.inSlot
  · intro hs
    obtain ⟨m, hm, h1, h2, h3⟩ := h.outSlot hs
    have hfull := howed.2 m hm
    exact ⟨m, hm, by rw [hup]; omega, by rw [hup]; omega, h3⟩
  · intro _ _
    rw [hup, howed.1]
  · intro hf
    exact hf.elim
  · show (exits chan.log).length ≤ 1
    rw [hex]; exact h.exits_le
  · intro pre code post hp
    have hmem : ClientMsg.exit code ∈ chan.log := by rw [show chan.log = _ from hp]; simp
    exact absurd (hex.trans hnone) (exits_mem hmem)
  · exact fun _ => hex.trans hnone

theorem accept {m : ClientMsg} {chan : Channel ClientMsg clientChannelDepth}
    (h : ClientOk base ops slot loop id c) (hm : m.live? = none) (hx : m.exit? = none)
    (hlog : chan.log = c.chan.log ++ [m]) : ClientOk base ops slot loop id { c with chan := chan } := by
  have hl : lives chan.log = lives c.chan.log := by rw [hlog, lives_snoc, hm]; simp
  have hex : exits chan.log = exits c.chan.log := by rw [hlog, exits_snoc, hx]; simp
  have hup : Client.upTo { c with chan := chan } = c.upTo := by simp only [Client.upTo, hl]
  constructor
  · exact h.rendered
  · rw [hup]; exact h.upTo_le
  · show lives chan.log = ((numbered ops).drop c.renderedAt).take (lives chan.log).length
    rw [hl]; exact h.lives_eq
  · exact h.inSlot
  · rw [hup]; exact h.outSlot
  · rw [hup]; exact h.complete
  · rw [hup]; exact h.owed
  · show (exits chan.log).length ≤ 1
    rw [hex]; exact h.exits_le
  · intro pre code post hp
    rcases snoc_split (hlog.symm.trans hp) with ⟨_, _, rfl⟩ | ⟨post', rfl, hp'⟩
    · rfl
    · rw [lives_snoc, hm, h.exitLast pre code post' hp']
      rfl
  · intro hb
    exact hex.trans (h.noExit hb)

theorem deliverExit {code : Int} {chan : Channel ClientMsg clientChannelDepth}
    (h : ClientOk base ops slot (.exiting code id) id c) (hlog : chan.log = c.chan.log ++ [.exit code]) :
    ClientOk base ops slot .removing id { c with chan := chan } := by
  have hl : lives chan.log = lives c.chan.log := by rw [hlog, lives_snoc]; simp [ClientMsg.live?]
  have hnone := h.noExit trivial
  have hex : exits chan.log = [code] := by rw [hlog, exits_snoc, hnone]; rfl
  have hup : Client.upTo { c with chan := chan } = c.upTo := by simp only [Client.upTo, hl]
  constructor
  · exact h.rendered
  · rw [hup]; exact h.upTo_le
  · show lives chan.log = ((numbered ops).drop c.renderedAt).take (lives chan.log).length
    rw [hl]; exact h.lives_eq
  · exact h.inSlot
  · rw [hup]; exact h.outSlot
  · intro hs _
    rw [hup]; exact h.complete hs (fun hf => hf.elim)
  · intro hf
    exact hf.elim
  · show (exits chan.log).length ≤ 1
    rw [hex]; exact Nat.le_refl _
  · intro pre code' post hp
    rcases snoc_split (hlog.symm.trans hp) with ⟨_, _, rfl⟩ | ⟨post', rfl, hp'⟩
    · rfl
    · have hmem : ClientMsg.exit code' ∈ c.chan.log := by rw [hp']; simp
      exact absurd hnone (exits_mem hmem)
  · intro hb
    exact hb.elim

end ClientOk

end

/-! ## The whole session -/

structure IdsOk (next : Nat) (drawn : List ClientId) (attaching : Option Attaching)
    (clients : ClientId → Option Client) : Prop where
  known : ∀ id, (clients id).isSome → id < next
  drawn_new : ∀ id ∈ drawn, id < next ∧ clients id = none
  drawn_nodup : drawn.Nodup
  attaching_new : ∀ a, attaching = some a → a.id < next ∧ clients a.id = none ∧ a.id ∉ drawn
  attaching_chan : ∀ a, attaching = some a → ∀ m ∈ a.chan.log, ∃ name, m = .foreground name

structure StreamInv {T : Type} [Ghostty T] (base : Terminal T) (s : State T) : Prop where
  terminal : s.session.terminal = replay base s.vtLog
  slotKnown : ∀ id, s.slot = some id → (s.clients id).isSome
  owedKnown : ∀ id, s.readLoop.owes id → (s.clients id).isSome
  resolved : ∀ chunk n id, s.readLoop = .sending chunk n id →
    n = (chunks s.vtLog).length ∧ (chunks s.vtLog).getLast? = some chunk
  ids : IdsOk s.nextClientId s.drawn s.attaching s.clients
  clients : ∀ id c, s.clients id = some c → ClientOk base s.vtLog s.slot s.readLoop id c

section
variable {T : Type} {s s' : State T} {id : ClientId}

theorem freshChannel_log (p : PtySession T) : ∀ m ∈ (State.freshChannel p).log, ∃ name, m = .foreground name := by
  intro m hm
  unfold State.freshChannel at hm
  cases hf : p.foreground with
  | none =>
    rw [hf] at hm
    cases hm
  | some name =>
    rw [hf] at hm
    exact ⟨name, List.mem_singleton.mp hm⟩

theorem lives_foreground {msgs : List ClientMsg} (h : ∀ m ∈ msgs, ∃ name, m = .foreground name) : lives msgs = [] := by
  refine List.filterMap_eq_nil_iff.mpr fun m hm => ?_
  obtain ⟨name, rfl⟩ := h m hm
  rfl

theorem exits_foreground {msgs : List ClientMsg} (h : ∀ m ∈ msgs, ∃ name, m = .foreground name) : exits msgs = [] := by
  refine List.filterMap_eq_nil_iff.mpr fun m hm => ?_
  obtain ⟨name, rfl⟩ := h m hm
  rfl

end

section
variable {T : Type} [Ghostty T] {base : Terminal T} {s s' : State T} {id : ClientId}

theorem IdsOk.of_isSome {next : Nat} {drawn : List ClientId} {attaching : Option Attaching}
    {clients clients' : ClientId → Option Client} (h : IdsOk next drawn attaching clients)
    (hc : ∀ i, (clients' i).isSome = (clients i).isSome) : IdsOk next drawn attaching clients' := by
  have hnone : ∀ i, clients i = none → clients' i = none := by
    intro i hi
    have := hc i
    rw [hi] at this
    exact Option.isNone_iff_eq_none.mp (by simpa using this)
  constructor
  · intro i hi; rw [hc] at hi; exact h.known i hi
  · intro i hi; exact ⟨(h.drawn_new i hi).1, hnone i (h.drawn_new i hi).2⟩
  · exact h.drawn_nodup
  · intro a ha
    obtain ⟨h1, h2, h3⟩ := h.attaching_new a ha
    exact ⟨h1, hnone _ h2, h3⟩
  · exact h.attaching_chan

namespace StreamInv

def core (s : State T) :=
  (s.session.terminal, s.session.client, s.clients, s.readLoop, s.vtLog, s.nextClientId, s.drawn, s.attaching)

theorem congr (h : StreamInv base s) (hc : core s' = core s) : StreamInv base s' := by
  simp only [core, Prod.mk.injEq] at hc
  obtain ⟨ht, hs, hcl, hl, hv, hi, hd, ha⟩ := hc
  have hslot : s'.slot = s.slot := by simp only [State.slot, hs]
  constructor
  · rw [ht, hv]; exact h.terminal
  · rw [hslot, hcl]; exact h.slotKnown
  · rw [hl, hcl]; exact h.owedKnown
  · rw [hl, hv]; exact h.resolved
  · rw [hi, hd, ha, hcl]; exact h.ids
  · rw [hcl, hv, hslot, hl]; exact h.clients

theorem put (h : StreamInv base s) {c c' : Client} {loop : ReadLoop} (hc : s.clients id = some c)
    (hres : ∀ chunk n id, loop = .sending chunk n id →
      n = (chunks s.vtLog).length ∧ (chunks s.vtLog).getLast? = some chunk)
    (ho : ∀ i, loop.owes i → s.readLoop.owes i)
    (hok : ClientOk base s.vtLog s.slot loop id c')
    (hother : ∀ i ci, i ≠ id → s.clients i = some ci → ClientOk base s.vtLog s.slot loop i ci) :
    StreamInv base { s.setClient id c' with readLoop := loop } := by
  constructor
  · exact h.terminal
  · intro i hi
    rw [show _ = (s.clients i).isSome from isSome_setClient hc i]
    exact h.slotKnown i hi
  · intro i hi
    rw [show _ = (s.clients i).isSome from isSome_setClient hc i]
    exact h.owedKnown i (ho i hi)
  · exact hres
  · exact h.ids.of_isSome (isSome_setClient hc)
  · intro i ci hi
    by_cases he : i = id
    · subst he
      simp only [State.setClient, ite_true, Option.some.injEq] at hi
      subst hi
      exact hok
    · simp only [State.setClient, he, ite_false] at hi
      exact hother i ci he hi

theorem setClient (h : StreamInv base s) {c c' : Client} (hc : s.clients id = some c)
    (hok : ClientOk base s.vtLog s.slot s.readLoop id c') : StreamInv base (s.setClient id c') :=
  (h.put hc h.resolved (fun _ hi => hi) hok fun i ci _ hi => h.clients i ci hi).congr rfl

theorem update (h : StreamInv base s) {c : Client} (c' : Client) (hc : s.clients id = some c)
    (hlog : c'.chan.log = c.chan.log) (hdump : c'.dump = c.dump) (hat : c'.renderedAt = c.renderedAt)
    (hleft : c'.leftAt = c.leftAt) : StreamInv base (s.setClient id c') :=
  h.setClient hc ((h.clients id c hc).of_log_eq hlog hdump hat hleft)

theorem accept (h : StreamInv base s) {msg : ClientMsg} (hp : s.push id msg = some s')
    (hm : msg.live? = none) (hx : msg.exit? = none) : StreamInv base s' := by
  obtain ⟨c, chan, hc, hlog, rfl⟩ := push_some hp
  exact h.setClient hc ((h.clients id c hc).accept hm hx hlog)

theorem loop (h : StreamInv base s) (loop : ReadLoop) (hres : ∀ chunk n i, loop ≠ .sending chunk n i)
    (ho : ∀ i, loop.owes i ↔ s.readLoop.owes i) (he : loop.beforeExit → s.readLoop.beforeExit) :
    StreamInv base { s with readLoop := loop } where
  terminal := h.terminal
  slotKnown := h.slotKnown
  owedKnown := fun i hi => h.owedKnown i ((ho i).mp hi)
  resolved := fun chunk n i hl => absurd hl (hres chunk n i)
  ids := h.ids
  clients := fun i c hc => (h.clients i c hc).loop_of (ho i) he

theorem clear (h : StreamInv base s) : StreamInv base (s.setSlot none) := by
  constructor
  · exact h.terminal
  · intro i hi
    cases hi
  · intro i hi
    rw [isSome_setSlot]
    exact h.owedKnown i hi
  · exact h.resolved
  · exact h.ids.of_isSome (isSome_setSlot none)
  · intro i c hc
    have hs' : (s.setSlot none).slot ≠ some i := nofun
    simp only [State.setSlot] at hc
    split at hc
    · rename_i hs
      obtain ⟨ci, hci, rfl⟩ := Option.map_eq_some_iff.mp hc
      exact (h.clients i ci hci).leave hs hs'
    · rename_i hs
      exact (h.clients i c hc).slot_other hs hs'

theorem detach (h : StreamInv base s) (id : ClientId) : StreamInv base (s.detach id) := by
  unfold State.detach
  split
  · exact h.clear
  · exact h

theorem resize (h : StreamInv base s) (cols rows : UInt16) :
    StreamInv base { s with
      session := s.session.resize cols rows
      vtLog := s.vtLog ++ [.resize rows cols] } := by
  constructor
  · show s.session.terminal.resize rows cols = _
    rw [replay_snoc, ← h.terminal]; rfl
  · exact h.slotKnown
  · exact h.owedKnown
  · intro chunk n i hl
    rw [show chunks _ = chunks s.vtLog from chunks_resize ..]
    exact h.resolved chunk n i hl
  · exact h.ids
  · intro i c hc
    exact (h.clients i c hc).resized rows cols

/-! ### attach_on -/

theorem drawId (h : StreamInv base s) (hs : s.drawId = some s') : StreamInv base s' := by
  unfold State.drawId at hs
  split at hs
  · cases hs
  · cases hs
    have hnew : s.clients s.nextClientId = none := by
      rw [← Option.not_isSome_iff_eq_none]
      intro hi
      exact Nat.lt_irrefl _ (h.ids.known _ hi)
    refine ⟨h.terminal, h.slotKnown, h.owedKnown, h.resolved, ⟨?_, ?_, ?_, ?_, h.ids.attaching_chan⟩, h.clients⟩
    · intro i hi
      exact Nat.lt_succ_of_lt (h.ids.known i hi)
    · intro i hi
      rcases List.mem_cons.mp hi with rfl | hi
      · exact ⟨Nat.lt_succ_self _, hnew⟩
      · exact ⟨Nat.lt_succ_of_lt (h.ids.drawn_new i hi).1, (h.ids.drawn_new i hi).2⟩
    · refine List.nodup_cons.mpr ⟨fun hm => ?_, h.ids.drawn_nodup⟩
      exact Nat.lt_irrefl _ (h.ids.drawn_new _ hm).1
    · intro a ha
      obtain ⟨h1, h2, h3⟩ := h.ids.attaching_new a ha
      refine ⟨Nat.lt_succ_of_lt h1, h2, fun hm => ?_⟩
      rcases List.mem_cons.mp hm with he | hm
      · exact Nat.lt_irrefl _ (he ▸ h1)
      · exact h3 hm

theorem otherAttach (h : StreamInv base s) (hs : s.otherAttach = some s') : StreamInv base s' := by
  cases hs
  refine ⟨h.terminal, h.slotKnown, h.owedKnown, h.resolved,
    ⟨fun i hi => Nat.lt_succ_of_lt (h.ids.known i hi), fun i hi => ?_, h.ids.drawn_nodup, fun a ha => ?_,
      h.ids.attaching_chan⟩, h.clients⟩
  · exact ⟨Nat.lt_succ_of_lt (h.ids.drawn_new i hi).1, (h.ids.drawn_new i hi).2⟩
  · obtain ⟨h1, h2, h3⟩ := h.ids.attaching_new a ha
    exact ⟨Nat.lt_succ_of_lt h1, h2, h3⟩

theorem attachLock {cols rows : UInt16} {connection : Option Nat} (h : StreamInv base s)
    (hs : s.attachLock id cols rows connection = some s') : StreamInv base s' := by
  unfold State.attachLock at hs
  split at hs
  · rename_i hg
    cases hs
    have hr := h.resize cols rows
    refine ⟨hr.terminal, hr.slotKnown, hr.owedKnown, hr.resolved, ⟨h.ids.known, fun i hi => ?_, ?_, fun a ha => ?_, fun a ha => ?_⟩,
      hr.clients⟩
    · exact h.ids.drawn_new i (List.mem_of_mem_erase hi)
    · exact h.ids.drawn_nodup.erase _
    · cases ha
      obtain ⟨h1, h2⟩ := h.ids.drawn_new id hg.1
      exact ⟨h1, h2, h.ids.drawn_nodup.not_mem_erase⟩
    · cases ha
      exact freshChannel_log s.session
  · cases hs

theorem attachInstall (h : StreamInv base s) (hs : s.attachInstall = some s') : StreamInv base s' := by
  unfold State.attachInstall at hs
  obtain ⟨a, ha, rfl⟩ := Option.map_eq_some_iff.mp hs
  obtain ⟨hlt, hnew, hnd⟩ := h.ids.attaching_new a ha
  have hlives := lives_foreground (h.ids.attaching_chan a ha)
  have hexits := exits_foreground (h.ids.attaching_chan a ha)
  have hslot : s.slot ≠ some a.id := by
    intro he
    have := h.slotKnown _ he
    rw [hnew] at this
    cases this
  constructor
  · exact h.terminal
  · intro i hi
    cases hi
    simp [State.setClient]
  · intro i hi
    by_cases he : i = a.id
    · simp [State.setClient, he]
    · simp only [State.setClient, he, ite_false]
      rw [isSome_setSlot]
      exact h.owedKnown i hi
  · exact h.resolved
  · constructor
    · intro i hi
      by_cases he : i = a.id
      · exact he ▸ hlt
      · refine h.ids.known i ?_
        rw [← isSome_setSlot (some ⟨a.id, a.connection⟩) i]
        simpa [State.setClient, he] using hi
    · intro i hi
      have hne : i ≠ a.id := fun he => hnd (he ▸ hi)
      have hs : ¬ s.slot = some i := by
        intro he
        have := h.slotKnown _ he
        rw [(h.ids.drawn_new i hi).2] at this
        cases this
      refine ⟨(h.ids.drawn_new i hi).1, ?_⟩
      simp [State.setClient, State.setSlot, hne, hs, (h.ids.drawn_new i hi).2]
    · exact h.ids.drawn_nodup
    · intro a' ha'
      cases ha'
    · intro a' ha'
      cases ha'
  · intro i c hc
    by_cases he : i = a.id
    · subst he
      simp only [State.setClient, ite_true, Option.some.injEq] at hc
      subst hc
      have hup : ∀ c : Client, c.chan = a.chan → c.upTo = c.renderedAt := by
        intro c hchan
        simp [Client.upTo, hchan, hlives]
      constructor
      · exact ⟨s.vtLog, List.prefix_refl _, rfl, by rw [← h.terminal]; rfl⟩
      · rw [hup _ rfl]; exact Nat.le_refl _
      · simp [State.attached, hlives]
      · exact fun _ => rfl
      · exact fun hs => absurd rfl hs
      · intro _ _
        rw [hup _ rfl]; rfl
      · intro ho
        have := h.owedKnown _ ho
        rw [hnew] at this
        cases this
      · simp [State.attached, hexits]
      · intro pre code post hp
        have hmem : ClientMsg.exit code ∈ a.chan.log := by rw [show a.chan.log = _ from hp]; simp
        exact absurd hexits (exits_mem hmem)
      · exact fun _ => hexits
    · have hne : (some a.id : Option ClientId) ≠ some i := fun h => he (Option.some.inj h).symm
      simp only [State.setClient, State.setSlot, he, ite_false] at hc
      split at hc
      · rename_i hs
        obtain ⟨ci, hci, rfl⟩ := Option.map_eq_some_iff.mp hc
        exact (h.clients i ci hci).leave hs hne
      · rename_i hs
        exact (h.clients i c hc).slot_other hs hne

/-! ### read_loop -/

theorem read {chunk : Bytes} (h : StreamInv base s) (hs : s.read chunk = some s') : StreamInv base s' := by
  unfold State.read at hs
  split at hs
  · rename_i hg
    have hread := hg.1
    have howes : ∀ i, ReadLoop.owes i s'.readLoop ↔ s.slot = some i := by
      intro i
      cases hs
      cases hslot : s.slot with
      | none => simp [ReadLoop.owes]
      | some id => simp [ReadLoop.owes]
    cases hs
    constructor
    · show s.session.terminal.feed chunk = _
      rw [replay_snoc, ← h.terminal]; rfl
    · exact h.slotKnown
    · intro i hi
      exact h.slotKnown i ((howes i).mp hi)
    · intro chunk' n i hl
      cases hslot : s.slot with
      | none => simp [hslot] at hl
      | some id =>
        simp only [hslot, ReadLoop.sending.injEq] at hl
        obtain ⟨rfl, rfl, rfl⟩ := hl
        simp [State.fed]
    · exact h.ids
    · intro i c hc
      have hok := h.clients i c hc
      rw [hread] at hok
      exact hok.read chunk (howes i)
  · cases hs

theorem sendOutput (h : StreamInv base s) (hs : s.sendOutput = some s') : StreamInv base s' := by
  unfold State.sendOutput at hs
  split at hs
  · rename_i chunk n id hl
    obtain ⟨s₁, hp, rfl⟩ := Option.map_eq_some_iff.mp hs
    obtain ⟨c, chan, hc, hlog, rfl⟩ := push_some hp
    obtain ⟨rfl, hlast⟩ := h.resolved _ _ _ hl
    have hok := fun i ci hi => hl ▸ h.clients i ci hi
    refine h.put hc nofun (fun _ hf => hf.elim) ((hok id c hc).deliver hlast hlog) fun i ci hne hi => ?_
    exact (hok i ci hi).loop_of ⟨fun hf => hf.elim, fun he => absurd he.symm hne⟩ fun _ => trivial
  · cases hs

theorem sendOutputFail (h : StreamInv base s) (hs : s.sendOutputFail = some s') : StreamInv base s' := by
  unfold State.sendOutputFail at hs
  split at hs
  · rename_i chunk n id hl
    cases hs
    exact h.loop _ nofun (fun i => by rw [hl]; rfl) (fun _ => by rw [hl]; trivial)
  · cases hs

theorem readDetach (h : StreamInv base s) (hs : s.readDetach = some s') : StreamInv base s' := by
  unfold State.readDetach at hs
  split at hs
  · rename_i id hl
    cases hs
    have hd := h.detach id
    have hloop : (s.detach id).readLoop = .detaching id := by
      unfold State.detach
      split
      · exact hl
      · exact hl
    have hout : (s.detach id).slot ≠ some id := by
      unfold State.detach
      split
      · exact nofun
      · assumption
    refine ⟨hd.terminal, hd.slotKnown, fun _ hf => hf.elim, nofun, hd.ids, fun i c hc => ?_⟩
    have hok := hd.clients i c hc
    rw [hloop] at hok
    by_cases he : i = id
    · subst he
      exact hok.loop_out hout (fun hf => hf) fun _ => trivial
    · exact hok.loop_of ⟨fun hf => hf.elim, fun ho => absurd ho.symm he⟩ fun _ => trivial
  · cases hs

/-! ### Notices, kill and reap -/

theorem tellSend {i : Nat} (h : StreamInv base s) (hs : s.tellSend i = some s') : StreamInv base s' := by
  unfold State.tellSend at hs
  split at hs
  · obtain ⟨s₁, hp, rfl⟩ := Option.map_eq_some_iff.mp hs
    exact (h.accept hp rfl rfl).congr rfl
  · cases hs

theorem tellDetach {i : Nat} (h : StreamInv base s) (hs : s.tellDetach i = some s') : StreamInv base s' := by
  unfold State.tellDetach at hs
  split at hs
  · cases hs
    exact (h.detach _).congr rfl
  · cases hs

theorem reapMark {code : Int} (h : StreamInv base s) (hs : s.reapMark code = some s') : StreamInv base s' := by
  unfold State.reapMark at hs
  split at hs
  · rename_i hl
    cases hs
    exact (h.loop (.marked code) nofun (fun i => by rw [hl]; rfl)
      (fun _ => by rw [hl]; trivial)).congr rfl
  · cases hs

theorem reapTake (h : StreamInv base s) (hs : s.reapTake = some s') : StreamInv base s' := by
  unfold State.reapTake at hs
  split at hs
  · rename_i code hl
    cases hs
    have hloop : (s.setSlot none).readLoop = .marked code := hl
    cases hslot : s.slot with
    | none =>
      exact h.clear.loop _ nofun (fun i => by rw [hloop]; rfl) nofun
    | some id =>
      exact h.clear.loop _ nofun (fun i => by rw [hloop]; rfl) (fun _ => by rw [hloop]; trivial)
  · cases hs

theorem reapSend (h : StreamInv base s) (hs : s.reapSend = some s') : StreamInv base s' := by
  unfold State.reapSend at hs
  split at hs
  · rename_i code id hl
    obtain ⟨s₁, hp, rfl⟩ := Option.map_eq_some_iff.mp hs
    obtain ⟨c, chan, hc, hlog, rfl⟩ := push_some hp
    have hok := fun i ci hi => hl ▸ h.clients i ci hi
    refine h.put hc nofun (fun _ hf => hf.elim) ((hok id c hc).deliverExit hlog) fun i ci _ hi => ?_
    exact (hok i ci hi).loop_of Iff.rfl nofun
  · cases hs

theorem reapFail (h : StreamInv base s) (hs : s.reapFail = some s') : StreamInv base s' := by
  unfold State.reapFail at hs
  split at hs
  · rename_i code id hl
    cases hs
    exact h.loop _ nofun (fun i => by rw [hl]; rfl) nofun
  · cases hs

/-! ### The connection handler -/

theorem forward (h : StreamInv base s) (hs : s.forward id = some s') : StreamInv base s' := by
  unfold State.forward at hs
  obtain ⟨c, hc, hs⟩ := Option.bind_eq_some_iff.mp hs
  split at hs
  · obtain ⟨⟨msg, chan⟩, hr, rfl⟩ := Option.map_eq_some_iff.mp hs
    exact h.update _ hc (Channel.log_recv hr) rfl rfl rfl
  · cases hs

theorem hangup (h : StreamInv base s) (hs : s.hangup id = some s') : StreamInv base s' := by
  unfold State.hangup at hs
  obtain ⟨c, hc, hs⟩ := Option.bind_eq_some_iff.mp hs
  split at hs
  · cases hs
    exact h.update _ hc (Channel.log_close _) rfl rfl rfl
  · cases hs

theorem teardown (h : StreamInv base s) (hs : s.teardown id = some s') : StreamInv base s' := by
  unfold State.teardown at hs
  obtain ⟨c, hc, hs⟩ := Option.bind_eq_some_iff.mp hs
  split at hs
  · cases hs
    exact (h.update { c with handler := .gone } hc rfl rfl rfl rfl).detach id
  · cases hs

/-! ### server::resize -/

theorem resizeLock {cols rows : UInt16} (h : StreamInv base s) (hs : s.resizeLock id cols rows = some s') :
    StreamInv base s' := by
  unfold State.resizeLock at hs
  obtain ⟨c, hc, hs⟩ := Option.bind_eq_some_iff.mp hs
  split at hs
  · cases hs
    exact ((h.resize cols rows).update { c with resize := .ioctl cols rows _, requested := (cols, rows) } hc rfl rfl rfl rfl).congr rfl
  · cases hs

theorem resizeIoctl (h : StreamInv base s) (hs : s.resizeIoctl id = some s') : StreamInv base s' := by
  unfold State.resizeIoctl at hs
  obtain ⟨c, hc, hs⟩ := Option.bind_eq_some_iff.mp hs
  split at hs
  · cases hs
    exact (h.update { c with resize := .afterIoctl _ } hc rfl rfl rfl rfl).congr rfl
  · cases hs

theorem resizeResolve (h : StreamInv base s) (hs : s.resizeResolve id = some s') : StreamInv base s' := by
  unfold State.resizeResolve at hs
  obtain ⟨c, hc, hs⟩ := Option.bind_eq_some_iff.mp hs
  split at hs
  · cases hs
    exact h.update _ hc rfl rfl rfl rfl
  · cases hs

theorem resizeSend (h : StreamInv base s) (hs : s.resizeSend id = some s') : StreamInv base s' := by
  unfold State.resizeSend at hs
  obtain ⟨c, hc, hs⟩ := Option.bind_eq_some_iff.mp hs
  split at hs
  · obtain ⟨s₁, hp, rfl⟩ := Option.map_eq_some_iff.mp hs
    have h₁ := h.accept hp rfl rfl
    cases hc₁ : s₁.clients id with
    | none =>
      refine h₁.congr ?_
      simp only [core, State.mapClient, hc₁, Option.map_none]
      congr
      funext i
      split
      · rename_i he; rw [he, hc₁]
      · rfl
    | some c₁ =>
      refine (h₁.update { c₁ with resize := .idle } hc₁ rfl rfl rfl rfl).congr ?_
      simp only [core, State.mapClient, State.setClient, hc₁, Option.map_some]
  · cases hs

theorem resizeDrop (h : StreamInv base s) (hs : s.resizeDrop id = some s') : StreamInv base s' := by
  unfold State.resizeDrop at hs
  obtain ⟨c, hc, hs⟩ := Option.bind_eq_some_iff.mp hs
  split at hs
  · split at hs
    · cases hs
      exact h.update _ hc rfl rfl rfl rfl
    · cases hs
  · cases hs

/-! ### Every step, every run -/

theorem step {a : Label} (h : StreamInv base s) (hs : Session.step s a = some s') : StreamInv base s' := by
  cases a with
  | openTerm =>
    simp only [Session.step, State.openTerm, Option.ite_none_right_eq_some, Option.some.injEq] at hs
    exact h.congr (hs.2 ▸ rfl)
  | reopen now =>
    simp only [Session.step, State.reopen, Option.ite_none_right_eq_some, Option.some.injEq] at hs
    exact h.congr (hs.2 ▸ rfl)
  | close deadline =>
    simp only [Session.step, State.close, Option.ite_none_right_eq_some, Option.some.injEq] at hs
    exact h.congr (hs.2 ▸ rfl)
  | getExisting =>
    simp only [Session.step, State.getExisting, Option.ite_none_right_eq_some, Option.some.injEq] at hs
    exact h.congr (hs.2 ▸ rfl)
  | checkExisting =>
    simp only [Session.step, State.checkExisting] at hs
    split at hs
    · cases hs
    · split at hs
      · cases hs; exact h.congr rfl
      · cases hs; exact h.congr rfl
  | otherAttach => exact h.otherAttach hs
  | drawId => exact h.drawId hs
  | attachLock id cols rows connection => exact h.attachLock hs
  | attachInstall => exact h.attachInstall hs
  | read chunk => exact h.read hs
  | eof =>
    simp only [Session.step, State.eof, Option.ite_none_right_eq_some, Option.some.injEq] at hs
    obtain ⟨hl, rfl⟩ := hs
    exact h.loop _ (fun _ _ _ he => by cases he) (fun i => by rw [hl]; rfl) (fun _ => by rw [hl]; trivial)
  | sendOutput => exact h.sendOutput hs
  | sendOutputFail => exact h.sendOutputFail hs
  | readDetach => exact h.readDetach hs
  | refresh name => cases hs; exact h.congr rfl
  | tell name =>
    obtain ⟨id, _, rfl⟩ := Option.map_eq_some_iff.mp hs
    exact h.congr rfl
  | tellSend i => exact h.tellSend hs
  | tellFail i =>
    simp only [Session.step, State.tellFail] at hs
    split at hs
    · cases hs; exact h.congr rfl
    · cases hs
  | tellDetach i => exact h.tellDetach hs
  | kill =>
    simp only [Session.step, State.kill, Option.ite_none_right_eq_some, Option.some.injEq] at hs
    exact h.congr (hs.2 ▸ rfl)
  | killClear =>
    simp only [Session.step, State.killClear, Option.ite_none_right_eq_some, Option.some.injEq] at hs
    exact h.clear.congr (hs.2 ▸ rfl)
  | killMark =>
    simp only [Session.step, State.killMark, Option.ite_none_right_eq_some, Option.some.injEq] at hs
    exact h.congr (hs.2 ▸ rfl)
  | reapMark code => exact h.reapMark hs
  | reapTake => exact h.reapTake hs
  | reapSend => exact h.reapSend hs
  | reapFail => exact h.reapFail hs
  | reapRemove =>
    simp only [Session.step, State.reapRemove, Option.ite_none_right_eq_some, Option.some.injEq] at hs
    obtain ⟨hl, rfl⟩ := hs
    exact (h.loop .done (fun _ _ _ he => by cases he) (fun i => by rw [hl]; rfl) fun hb => hb.elim).congr rfl
  | forward id => exact h.forward hs
  | hangup id => exact h.hangup hs
  | teardown id => exact h.teardown hs
  | resizeLock id cols rows => exact h.resizeLock hs
  | resizeIoctl id => exact h.resizeIoctl hs
  | resizeResolve id => exact h.resizeResolve hs
  | resizeSend id => exact h.resizeSend hs
  | resizeDrop id => exact h.resizeDrop hs

theorem start (p : PtySession T) (winsize : UInt16 × UInt16) (next holding : Nat) :
    StreamInv p.terminal (State.start p winsize next holding) where
  terminal := rfl
  slotKnown := nofun
  owedKnown := fun _ hf => hf.elim
  resolved := nofun
  ids := ⟨nofun, nofun, List.nodup_nil, nofun, nofun⟩
  clients := nofun

end StreamInv

theorem stream_inv {p : PtySession T} {winsize : UInt16 × UInt16} {next holding : Nat} {tr : List Label}
    (h : exec step (State.start p winsize next holding) tr = some s) : StreamInv p.terminal s :=
  exec_inv (fun _ _ _ hs hi => StreamInv.step hi hs) h (StreamInv.start p winsize next holding)

end

end Mux.Session
