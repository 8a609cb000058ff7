import Mux.StreamInv

/-!
# The attach stream law

Every client of a session receives the dump of its own attach and then the chunks
that follow it, one by one, until it leaves the slot. Without a Resize nothing else
is written to its terminal.
-/

namespace Mux.Session

open Lib

/-! ## Runs without a Resize -/

/-- Everything in the client's channel is a live chunk, an exit or a notice. -/
structure Plain (c : Client) : Prop where
  idle : c.resize = .idle
  live : ∀ bytes k, .output bytes (.replay k) ∉ c.chan.log

theorem sentTo_plain {T : Type} {s : State T} {a : Label} {id : ClientId} (h : ∀ i c, s.clients i = some c → c.resize = .idle)
    (bytes : Bytes) (k : Nat) : .output bytes (.replay k) ∉ sentTo s a id := by
  intro hm
  unfold sentTo at hm
  split at hm
  · rename_i i m hsend
    split at hm
    · have hm := List.mem_singleton.mp hm
      subst hm
      obtain ⟨j, c, d, -, hc, hr, -⟩ := sends_replay hsend
      rw [h j c hc] at hr
      cases hr
    · cases hm
  · cases hm

section
variable {T : Type} [Ghostty T] {base : Terminal T} {s s' : State T}

theorem plain_step {a : Label} (hi : StreamInv base s) (h : ∀ id c, s.clients id = some c → Plain c)
    (ha : ∀ id cols rows, a ≠ .resizeLock id cols rows) (hs : step s a = some s') :
    ∀ id c, s'.clients id = some c → Plain c := by
  intro id c' hc'
  rcases client_of_step hs hc' with ⟨c, hc, he⟩ | ⟨att, _, hatt, _, rfl⟩
  · refine ⟨?_, fun bytes k hm => ?_⟩
    · refine Classical.byContradiction fun hne => ?_
      obtain ⟨cols, rows, hlock⟩ := he.resize (h id c hc).idle hne
      exact ha id cols rows hlock
    · rw [he.log] at hm
      rcases List.mem_append.mp hm with hm | hm
      · exact (h id c hc).live bytes k hm
      · exact sentTo_plain (fun i ci hci => (h i ci hci).idle) bytes k hm
  · refine ⟨rfl, fun bytes k hm => ?_⟩
    obtain ⟨name, hname⟩ := hi.ids.attaching_chan att hatt _ hm
    cases hname

theorem outputs_plain {msgs : List ClientMsg} (h : ∀ bytes k, .output bytes (.replay k) ∉ msgs) :
    outputs msgs = (lives msgs).map Prod.fst := by
  induction msgs with
  | nil => rfl
  | cons m msgs ih =>
    have ih := ih fun bytes k hm => h bytes k (List.mem_cons_of_mem _ hm)
    unfold outputs lives at *
    cases m with
    | exit code => exact ih
    | foreground name => exact ih
    | output bytes origin =>
      cases origin with
      | live n => simpa [ClientMsg.output?, ClientMsg.live?] using ih
      | replay k => exact absurd (List.mem_cons_self ..) (h bytes k)

end

/-! ## The law -/

/-- What a client has been given by the time the session is in state `s`: its dump is the
terminal after exactly the first `renderedAt` chunks, its channel has accepted exactly the
chunks after these, up to some `last`, and its forwarder has written a part of them. While
it is in the slot it lacks at most the chunk the read loop is about to send it, and once
it has left it has everything fed by then but possibly that chunk. -/
structure StreamLaw {T : Type} [Ghostty T] (base : Terminal T) (s : State T) (id : ClientId) (c : Client) :
    Prop where
  dump : ∃ pre, pre <+: s.vtLog ∧ chunks pre = s.fed.take c.renderedAt ∧ c.renderedAt ≤ s.fed.length ∧
    c.dump = (replay base pre).renderScreenBytes
  stream : ∃ last, c.renderedAt ≤ last ∧ last ≤ s.fed.length ∧
    outputs c.chan.log = (s.fed.take last).drop c.renderedAt ∧
    (∃ written ≤ last, outputs c.chan.taken = (s.fed.take written).drop c.renderedAt) ∧
    (s.slot = some id → last = s.fed.length ∨ last + 1 = s.fed.length ∧ s.readLoop.owes id) ∧
    (s.slot ≠ some id → ∃ left, c.leftAt = some left ∧ last ≤ left ∧ left ≤ last + 1)
  exitOnce : (exits c.chan.log).length ≤ 1
  exitLast : ∀ pre code post, c.chan.log = pre ++ .exit code :: post → outputs post = []

section
variable {T : Type} [Ghostty T] {base : Terminal T} {s : State T}

theorem take_drop_eq {α : Type} (l : List α) (k n : Nat) : (l.drop k).take n = (l.take (k + n)).drop k := by
  rw [List.drop_take, Nat.add_sub_cancel_left]

theorem map_numbered (ops : List VtOp) (k n : Nat) :
    (((numbered ops).drop k).take n).map Prod.fst = ((chunks ops).take (k + n)).drop k := by
  rw [List.map_take, List.map_drop, numbered, List.zipIdx_map_fst, take_drop_eq]

theorem stream_law (hi : StreamInv base s) (hp : ∀ id c, s.clients id = some c → Plain c)
    {id : ClientId} {c : Client} (hc : s.clients id = some c) : StreamLaw base s id c := by
  have hok := hi.clients id c hc
  have hplain := hp id c hc
  have hlog : outputs c.chan.log = (s.fed.take c.upTo).drop c.renderedAt := by
    rw [outputs_plain hplain.live, hok.lives_eq, map_numbered]; rfl
  constructor
  · obtain ⟨pre, hpre, hk, hd⟩ := hok.rendered
    refine ⟨pre, hpre, ?_, ?_, hd⟩
    · obtain ⟨post, hpost⟩ := hpre
      rw [State.fed, ← hpost, ← hk]
      simp [chunks]
    · exact Nat.le_trans (Nat.le_add_right _ _) hok.upTo_le
  · refine ⟨c.upTo, Nat.le_add_right _ _, hok.upTo_le, hlog, ?_, fun hs => ?_, fun hs => ?_⟩
    · have hsub : outputs c.chan.taken <+: outputs c.chan.log :=
        (List.prefix_append c.chan.taken c.chan.queue).filterMap _
      rw [hlog] at hsub
      refine ⟨min (c.renderedAt + (outputs c.chan.taken).length) c.upTo, Nat.min_le_right _ _, ?_⟩
      rw [← List.take_take, List.drop_take, Nat.add_sub_cancel_left]
      exact List.prefix_iff_eq_take.mp hsub
    · by_cases ho : s.readLoop.owes id
      · exact Or.inr ⟨(hok.owed ho).1, ho⟩
      · exact Or.inl (hok.complete hs ho)
    · obtain ⟨m, hm, h1, h2, _⟩ := hok.outSlot hs
      exact ⟨m, hm, h1, h2⟩
  · exact hok.exits_le
  · intro pre code post hpost
    rw [outputs_plain, hok.exitLast pre code post hpost]
    · rfl
    · intro bytes k hm
      refine hplain.live bytes k ?_
      rw [hpost]
      exact List.mem_append_right _ (List.mem_cons_of_mem _ hm)

/-- Every client's stream, along every run without a Resize; and what empties the slot. -/
theorem attach_stream (p : PtySession T) (winsize : UInt16 × UInt16) (next holding : Nat) (tr : List Label)
    (h : exec step (State.start p winsize next holding) tr = some s)
    (hn : ∀ a ∈ tr, ∀ id cols rows, a ≠ .resizeLock id cols rows) :
    (∀ id c, s.clients id = some c → StreamLaw p.terminal s id c) ∧
      ∀ pre a post s₁ s₂ id, tr = pre ++ a :: post →
        exec step (State.start p winsize next holding) pre = some s₁ → step s₁ a = some s₂ →
        s₁.slot = some id → s₂.slot ≠ some id →
        releases s₁ a = some id ∨
          (∃ att, a = .attachInstall ∧ s₁.attaching = some att ∧ s₂.slot = some att.id ∧ s₁.clients att.id = none) ∨
          a = .killClear ∨ a = .reapTake := by
  constructor
  · have hplain : StreamInv p.terminal s ∧ ∀ id c, s.clients id = some c → Plain c :=
      exec_inv_of_meets (G := fun _ a => ∀ id cols rows, a ≠ .resizeLock id cols rows)
        (I := fun s => StreamInv p.terminal s ∧ ∀ id c, s.clients id = some c → Plain c)
        (fun s a s' ha hs hi => ⟨hi.1.step hs, plain_step hi.1 hi.2 ha hs⟩)
        (meets_of_mem fun a ha _ => hn a ha) h ⟨StreamInv.start p winsize next holding, nofun⟩
    exact fun id c hc => stream_law hplain.1 hplain.2 hc
  · intro pre a post s₁ s₂ id _ h₁ hs hslot hslot'
    rcases slot_of_step hs hslot hslot' with hr | ⟨att, rfl, hatt, hnew⟩ | hk
    · exact Or.inl hr
    · exact Or.inr (Or.inl ⟨att, rfl, hatt, hnew, ((stream_inv h₁).ids.attaching_new att hatt).2.1⟩)
    · exact Or.inr (Or.inr hk)

end

/-- Client 2 steals the slot while a chunk resolved for client 1 is still to be sent. -/
def stealRun : List Label :=
  [.drawId, .attachLock 1 80 24 none, .attachInstall, .read [97], .openTerm, .drawId,
    .attachLock 2 100 30 none, .attachInstall, .sendOutput, .forward 1, .read [98], .hangup 1, .teardown 1,
    .sendOutput, .forward 2, .eof, .reapMark 0, .reapTake, .reapSend, .forward 2, .reapRemove]

theorem attach_stream_steal : ∃ s c, exec step (State.start shell (80, 24) 1 1) stealRun = some s ∧
    s.clients 2 = some c ∧ c.renderedAt = 1 ∧ outputs c.chan.taken = [[98]] ∧ StreamLaw shell.terminal s 2 c :=
  ⟨_, _, rfl, rfl, rfl, rfl,
    (attach_stream shell (80, 24) 1 1 stealRun rfl (by simp [stealRun])).1 2 _ rfl⟩

end Mux.Session
