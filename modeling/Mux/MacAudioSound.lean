import Mathlib.Tactic.NormNum
import Mux.AlsaCaptureSound
import Mux.MacAudio

/-!
# What the Mac's helper plays

The playback buffer is a run of the newest samples of the epoch that the last State message named: the queue is
stopped and the buffer cleared before the next epoch is stored. Whatever the rounding, the phase stays a fraction,
so a frame consumes at most two samples and lies between two neighbours of the buffer.
-/

namespace Mux.MacAudio

open Lib
open Audio (State)

/-! ## The playback buffer -/

structure Playback.Sound (p : Playback) : Prop where
  low : 0 ≤ p.phase
  high : p.phase < 1
  samples : p.samples = queueOf queueMax p.history
  covered : Covered queueMax 2 p.history

theorem Playback.sound_default : Playback.default.Sound where
  low := le_refl 0
  high := zero_lt_one
  samples := rfl
  covered := covered_nil queueMax 2

theorem Playback.Sound.clear {p : Playback} (h : p.Sound) : p.clear.Sound where
  low := le_refl 0
  high := zero_lt_one
  samples := by
    unfold Playback.clear
    rw [queueOf_snoc, afterHappening]
  covered := h.covered.snoc fun k hk => by cases hk

theorem covered_append_arrived {α : Type*} {n m : Nat} {history : List (Happening α)} (h : Covered n m history)
    (new : List α) : Covered n m (history ++ new.map .arrived) := by
  induction new using List.reverseRecOn with
  | nil => rwa [List.map_nil, List.append_nil]
  | append_singleton new a ih =>
    rw [List.map_append, List.map_singleton, ← List.append_assoc]
    apply ih.snoc
    intro k hk
    cases hk

theorem Playback.Sound.push {p : Playback} (h : p.Sound) (new : List Sample) : (p.push new).Sound := by
  unfold Playback.push
  refine ⟨h.low, h.high, ?_, covered_append_arrived h.covered new⟩
  simp only
  rw [queueOf_append_arrived, ← h.samples]

theorem Playback.mem_push {p : Playback} {new : List Sample} {s : Sample} (h : s ∈ (p.push new).samples) :
    s ∈ p.samples ∨ s ∈ new := by
  simp only [Playback.push] at h
  exact List.mem_append.mp ((keepLast_suffix queueMax _).subset h)

/-- Silence, or a value between two neighbours. -/
def Between (l : List Sample) (v : Int16) : Prop :=
  v = 0 ∨ ∃ a b, [a, b] <:+: l ∧ min a.value.toInt b.value.toInt ≤ v.toInt ∧
    v.toInt ≤ max a.value.toInt b.value.toInt

theorem Between.of_suffix {l r : List Sample} {v : Int16} (h : Between l v) (hs : l <:+ r) : Between r v := by
  rcases h with h0 | ⟨a, b, hab, hv⟩
  · exact .inl h0
  · exact .inr ⟨a, b, hab.trans hs.isInfix, hv⟩

section
variable (F : Rounding)

theorem stepFor_bounds (n : Nat) : 0 ≤ stepFor F n ∧ stepFor F n ≤ 5 / 4 := by
  unfold stepFor
  have hlow : ∀ x : Rat, 0 ≤ x → 0 ≤ F.round x := by
    intro x hx
    have := F.int_le_round (n := 0) (by decide) (by exact_mod_cast hx)
    exact_mod_cast this
  have hhigh : ∀ x : Rat, x ≤ 5 / 4 → F.round x ≤ 5 / 4 := by
    intro x hx
    have := F.round_le (n := 5) (by decide) (by push_cast; exact hx)
    push_cast at this
    exact this
  split_ifs
  · exact ⟨hlow _ (by norm_num), hhigh _ (by norm_num)⟩
  · exact ⟨hlow _ (by norm_num), hhigh _ (by norm_num)⟩
  · exact ⟨by norm_num, by norm_num⟩

/-- One less, rounded, is a quarter less at the end of a quarter. -/
theorem round_sub_one {x : Rat} {n : Int} (hn : n.natAbs ≤ 2 ^ 30) (h1 : 1 ≤ x) (hx : x ≤ (n + 4) / 4) :
    0 ≤ F.round (x - 1) ∧ F.round (x - 1) ≤ n / 4 := by
  constructor
  · have := F.int_le_round (n := 0) (x := x - 1) (by decide) (by push_cast; linarith)
    exact_mod_cast this
  · exact F.round_le (by omega) (by linarith)

/-- The loop has come to its end: the phase is a fraction again, and at most two samples are popped. -/
theorem pops_spec {x : Rat} (h0 : 0 ≤ x) (hx : x ≤ 9 / 4) :
    (pops F 3 x).1 ≤ 2 ∧ 0 ≤ (pops F 3 x).2 ∧ (pops F 3 x).2 < 1 := by
  by_cases h1 : 1 ≤ x
  · obtain ⟨hy0, hy⟩ := round_sub_one F (n := 5) (by decide) h1 (by push_cast; linarith)
    push_cast at hy
    by_cases h2 : 1 ≤ F.round (x - 1)
    · obtain ⟨hz0, hz⟩ := round_sub_one F (n := 1) (by decide) h2 (by push_cast; linarith)
      push_cast at hz
      have h3 : ¬ 1 ≤ F.round (F.round (x - 1) - 1) := by
        have : F.round (F.round (x - 1) - 1) < 1 := by linarith
        exact not_le.mpr this
      simp only [pops, if_pos h1, if_pos h2, if_neg h3]
      exact ⟨by omega, hz0, not_le.mp h3⟩
    · simp only [pops, if_pos h1, if_neg h2]
      exact ⟨by omega, hy0, not_le.mp h2⟩
  · simp only [pops, if_neg h1]
    exact ⟨by omega, h0, not_le.mp h1⟩

theorem interpolate_between {a b : Int16} {t : Rat} (h0 : 0 ≤ t) (h1 : t < 1) :
    min a.toInt b.toInt ≤ (toI16 (F.interpolate a.toInt b.toInt t)).toInt ∧
      (toI16 (F.interpolate a.toInt b.toInt t)).toInt ≤ max a.toInt b.toInt := by
  have ha := a.le_toInt
  have ha' := a.toInt_lt
  have hb := b.le_toInt
  have hb' := b.toInt_lt
  obtain ⟨hlow, hhigh⟩ := F.interpolate_between (a := a.toInt) (b := b.toInt) (by omega) (by omega) h0 h1.le
  have hle := Alsa.le_truncate hlow
  have hge := Alsa.truncate_le hhigh
  have hsame : max (-32768) (min 32767 (Alsa.truncate (F.interpolate a.toInt b.toInt t))) =
      Alsa.truncate (F.interpolate a.toInt b.toInt t) := by
    omega
  have hexact : (toI16 (F.interpolate a.toInt b.toInt t)).toInt = Alsa.truncate (F.interpolate a.toInt b.toInt t) := by
    unfold toI16
    rw [hsame]
    exact Int16.toInt_ofInt_of_le (by omega) (by omega)
  rw [hexact]
  exact ⟨hle, hge⟩

theorem Playback.Sound.frame {p q : Playback} {step : Rat} {v : Int16} (h : p.Sound) (hs0 : 0 ≤ step)
    (hs1 : step ≤ 5 / 4) (hf : p.frame F step = some (v, q)) : q.Sound ∧ q.samples <:+ p.samples ∧ Between p.samples v := by
  cases hl : p.samples with
  | nil => simp [Playback.frame, hl] at hf
  | cons a rest =>
    cases rest with
    | nil => simp [Playback.frame, hl] at hf
    | cons b rest =>
      simp only [Playback.frame, hl, Option.some.injEq, Prod.mk.injEq] at hf
      obtain ⟨rfl, rfl⟩ := hf
      have hlow := h.low
      have hhigh := h.high
      have h0 : 0 ≤ F.round (p.phase + step) := by
        have := F.int_le_round (n := 0) (x := p.phase + step) (by decide) (by push_cast; linarith)
        exact_mod_cast this
      have h9 : F.round (p.phase + step) ≤ 9 / 4 := by
        have := F.round_le (n := 9) (x := p.phase + step) (by decide) (by push_cast; linarith)
        push_cast at this
        exact this
      obtain ⟨hpops, hphase0, hphase1⟩ := pops_spec F h0 h9
      refine ⟨⟨hphase0, hphase1, ?_, ?_⟩, List.drop_suffix _ _, .inr ⟨a, b, ⟨[], rest, rfl⟩, ?_⟩⟩
      · simp only
        rw [queueOf_snoc, afterHappening, ← h.samples, hl]
      · refine h.covered.snoc ?_
        intro k hk
        cases hk
        refine ⟨hpops, ?_⟩
        rw [← h.samples, hl, List.length_cons, List.length_cons]
        omega
      · exact interpolate_between F hlow hhigh

/-- Both ways a frame of the loop can go. -/
theorem Playback.loop_succ (p : Playback) (step : Rat) (count : Nat) :
    (∃ v q, p.frame F step = some (v, q) ∧
      p.loop F step (count + 1) = (v :: (q.loop F step count).1, (q.loop F step count).2)) ∨
    (p.frame F step = none ∧ p.loop F step (count + 1) = (List.replicate (count + 1) 0, { p with phase := 0 })) := by
  rw [Playback.loop]
  cases hf : p.frame F step with
  | none => exact .inr ⟨rfl, rfl⟩
  | some r => exact .inl ⟨r.1, r.2, rfl, rfl⟩

theorem Playback.Sound.loop {p : Playback} {step : Rat} (h : p.Sound) (hs0 : 0 ≤ step) (hs1 : step ≤ 5 / 4)
    (count : Nat) : (p.loop F step count).2.Sound ∧ (p.loop F step count).2.samples <:+ p.samples ∧
      (p.loop F step count).1.length = count ∧ ∀ v ∈ (p.loop F step count).1, Between p.samples v := by
  induction count generalizing p with
  | zero => exact ⟨h, List.suffix_refl _, rfl, fun v hv => by cases hv⟩
  | succ count ih =>
    rcases p.loop_succ F step count with ⟨v, q, hf, heq⟩ | ⟨-, heq⟩
    · obtain ⟨hq, hsuffix, hv⟩ := h.frame F hs0 hs1 hf
      obtain ⟨hr, hsuffix', hlen, hvs⟩ := ih hq
      rw [heq]
      refine ⟨hr, hsuffix'.trans hsuffix, by rw [List.length_cons, hlen], ?_⟩
      intro w hw
      rcases List.mem_cons.mp hw with rfl | hw
      · exact hv
      · exact (hvs w hw).of_suffix hsuffix
    · rw [heq]
      refine ⟨⟨le_refl 0, zero_lt_one, h.samples, h.covered⟩, List.suffix_refl _, List.length_replicate, ?_⟩
      intro w hw
      exact .inl (List.eq_of_mem_replicate hw)

theorem Playback.Sound.callback {p : Playback} (h : p.Sound) (count : Nat) (locked : Bool) :
    (p.callback F count locked).2.Sound ∧ (p.callback F count locked).2.samples <:+ p.samples ∧
      (p.callback F count locked).1.length = count ∧ ∀ v ∈ (p.callback F count locked).1, Between p.samples v := by
  unfold Playback.callback
  by_cases hl : locked = true
  · rw [if_pos hl]
    exact ⟨h, List.suffix_refl _, List.length_replicate, fun v hv => .inl (List.eq_of_mem_replicate hv)⟩
  · rw [if_neg hl]
    obtain ⟨hs0, hs1⟩ := stepFor_bounds F p.samples.length
    exact h.loop F hs0 hs1 count

theorem Playback.Sound.fill {p : Playback} (h : p.Sound) (n : Nat) :
    (p.fill F n).2.Sound ∧ (p.fill F n).2.samples <:+ p.samples ∧ ∀ v ∈ (p.fill F n).1, Between p.samples v := by
  induction n generalizing p with
  | zero => exact ⟨h, List.suffix_refl _, fun v hv => by cases hv⟩
  | succ n ih =>
    obtain ⟨hq, hsuffix, -, hv⟩ := h.callback F bufferFrames false
    obtain ⟨hr, hsuffix', hvs⟩ := ih hq
    refine ⟨hr, hsuffix'.trans hsuffix, ?_⟩
    intro v hmem
    rcases List.mem_append.mp hmem with hfirst | hrest
    · exact hv v hfirst
    · exact (hvs v hrest).of_suffix hsuffix

end

/-! ## The helper -/

/-- The flags of the queues in each phase. -/
def Helper.Flags (h : Helper) : Prop :=
  match h.phase with
  | .waiting => h.recording = h.state.capture ∧ h.playing = (h.state.playback || h.drainUntil.isSome)
  | .clearing _ => h.recording = h.state.capture ∧ h.playing = false
  | .storing next => h.recording = h.state.capture ∧ (h.playing = true → next.playbackEpoch = h.state.playbackEpoch)
  | .starting => True
  | .draining => h.recording = h.state.capture ∧ h.playing = false ∧ h.state.playback = false ∧ h.drainUntil = none
  | .ended => h.recording = false ∧ h.playing = false

/-- `epoch`, `stored` and `silent` say which samples wait, and when there are none. -/
structure Helper.Inv (h : Helper) : Prop where
  output : h.output.Sound
  flags : h.Flags
  epoch : ∀ s ∈ h.output.samples, s.epoch = h.state.playbackEpoch
  stored : ∀ next, h.phase = .storing next → next.playbackEpoch ≠ h.state.playbackEpoch → h.output.samples = []
  silent : h.phase ≠ .draining → h.phase ≠ .ended → h.state.playback = false → h.drainUntil = none → h.output.samples = []
  drain : h.drainUntil.isSome = true → h.state.playback = false
  capture : h.captureEpoch = h.state.captureEpoch

theorem Helper.inv_open (now : Nat) : (Helper.open now).Inv where
  output := Playback.sound_default
  flags := ⟨rfl, rfl⟩
  epoch := fun _ hs => (List.not_mem_nil hs).elim
  stored := fun _ h => nomatch h
  silent := fun _ _ _ _ => rfl
  drain := fun h => nomatch h
  capture := rfl

theorem Helper.Inv.end {h : Helper} (hi : h.Inv) : h.end.Inv where
  output := hi.output
  flags := ⟨rfl, rfl⟩
  epoch := hi.epoch
  stored := fun _ h => nomatch h
  silent := fun _ h => absurd rfl h
  drain := hi.drain
  capture := hi.capture

/-- The buffer is emptied. -/
theorem Helper.Inv.clear {h : Helper} {p : Phase} (hi : h.Inv) (hflags : Helper.Flags { h with phase := p }) :
    Helper.Inv { h with output := h.output.clear, phase := p } where
  output := hi.output.clear
  flags := hflags
  epoch := fun _ hs => (List.not_mem_nil hs).elim
  stored := fun _ _ _ => rfl
  silent := fun _ _ _ _ => rfl
  drain := hi.drain
  capture := hi.capture

/-- What is played comes from the buffer; nothing else of the helper changes. -/
theorem Helper.Inv.played {h : Helper} (hi : h.Inv) {output : Playback} (ho : output.Sound)
    (hsuffix : output.samples <:+ h.output.samples) {recording playing : Bool} {p : Phase}
    (hflags : Helper.Flags { h with recording := recording, playing := playing, phase := p })
    (hstored : ∀ next, p ≠ .storing next) (hsilent : p ≠ .draining → p ≠ .ended → h.phase ≠ .draining ∧ h.phase ≠ .ended)
    (heard : List Int16) (frames : Nat) :
    Helper.Inv { h with
      output := output, recording := recording, playing := playing, phase := p, heard := heard, outputFrames := frames } where
  output := ho
  flags := hflags
  epoch := fun s hs => hi.epoch s (hsuffix.subset hs)
  stored := fun next hp => absurd hp (hstored next)
  silent := by
    intro hd he hplay hnone
    obtain ⟨hd', he'⟩ := hsilent hd he
    have hnil := hi.silent hd' he' hplay hnone
    rw [hnil] at hsuffix
    exact List.suffix_nil.mp hsuffix
  drain := hi.drain
  capture := hi.capture

theorem Helper.Inv.heard {h : Helper} (hi : h.Inv) {output : Playback} (ho : output.Sound)
    (hsuffix : output.samples <:+ h.output.samples) (heard : List Int16) (frames : Nat) :
    Helper.Inv { h with output := output, heard := heard, outputFrames := frames } := by
  have hempty : h.output.samples = [] → output.samples = [] := by
    intro hnil
    rw [hnil] at hsuffix
    exact List.suffix_nil.mp hsuffix
  exact ⟨ho, hi.flags, fun s hs => hi.epoch s (hsuffix.subset hs), fun next hp hne => hempty (hi.stored next hp hne),
    fun hd he hplay hnone => hempty (hi.silent hd he hplay hnone), hi.drain, hi.capture⟩

section
variable (F : Rounding)

/-- A call that succeeds leaves the queues as it was asked to; what it plays comes from the buffer. -/
theorem Helper.audioState_some {h q : Helper} {capture playback ok : Bool} (ho : h.output.Sound)
    (hq : h.audioState F capture playback ok = some q) :
    ∃ output new frames,
      q = { h with recording := capture, playing := playback, output := output, heard := h.heard ++ new, outputFrames := frames } ∧
      output.Sound ∧ output.samples <:+ h.output.samples ∧ (new ≠ [] → playback = true) ∧ ∀ v ∈ new, Between h.output.samples v := by
  unfold Helper.audioState at hq
  split_ifs at hq with h1 h2 h3
  · cases hq
    have hp : playback = true := by
      rw [Bool.and_eq_true] at h3
      exact h3.1
    subst hp
    obtain ⟨hs, hsuffix, hv⟩ := ho.fill F buffers
    exact ⟨_, _, _, rfl, hs, hsuffix, fun _ => rfl, hv⟩
  · cases hq
    exact ⟨h.output, [], h.outputFrames, by rw [List.append_nil], ho, List.suffix_refl _, by simp, by simp⟩

theorem Helper.thenPhase_cases (h : Helper) (r : Option Helper) (p : Phase) :
    (∃ q, r = some q ∧ h.thenPhase r p = { q with phase := p }) ∨ h.thenPhase r p = h.end := by
  cases r with
  | none => exact .inr rfl
  | some q => exact .inl ⟨q, rfl, rfl⟩

theorem Helper.Inv.thenPhase {h : Helper} {capture playback ok : Bool} {p : Phase} (hi : h.Inv)
    (hflags : Helper.Flags { h with recording := capture, playing := playback, phase := p })
    (hstored : ∀ next, p ≠ .storing next) (hsilent : p ≠ .draining → p ≠ .ended → h.phase ≠ .draining ∧ h.phase ≠ .ended) :
    (h.thenPhase (h.audioState F capture playback ok) p).Inv := by
  rcases h.thenPhase_cases (h.audioState F capture playback ok) p with ⟨q, hq, heq⟩ | heq
  · obtain ⟨output, new, frames, rfl, ho, hsuffix, -⟩ := h.audioState_some F hi.output hq
    rw [heq]
    exact hi.played ho hsuffix hflags hstored hsilent _ _
  · rw [heq]
    exact hi.end

theorem Helper.Inv.onEvents {h : Helper} (hi : h.Inv) (hp : h.phase = .waiting) (next : State) (now : Nat) (ok : Bool) :
    (h.onEvents F next now ok).Inv := by
  have hflags := hi.flags
  simp only [Helper.Flags, hp] at hflags
  have hsilent : h.state.playback = false → h.drainUntil = none → h.output.samples = [] :=
    hi.silent (by simp [hp]) (by simp [hp])
  have hi' : Helper.Inv { h with lastControl := now } :=
    ⟨hi.output, hi.flags, hi.epoch, hi.stored, hi.silent, hi.drain, hi.capture⟩
  unfold Helper.onEvents
  by_cases hne : next.playbackEpoch ≠ h.state.playbackEpoch
  · simp only [if_pos hne]
    apply hi'.thenPhase F
    · exact ⟨rfl, rfl⟩
    · intro _ heq
      cases heq
    · intro _ _
      simp [hp]
  · simp only [if_neg hne]
    refine ⟨hi.output, ⟨hflags.1, fun _ => not_not.mp hne⟩, hi.epoch, ?_, fun _ _ => hsilent, hi.drain, hi.capture⟩
    intro next' heq hne'
    cases heq
    exact absurd hne' hne

/-- A buffer of the same epoch, while something plays or drains. -/
theorem Helper.Inv.buffer {h : Helper} (hi : h.Inv) (hp : h.phase = .waiting)
    (hplays : ¬ (h.state.playback = false ∧ h.drainUntil = none)) {output : Playback} (ho : output.Sound)
    (hepoch : ∀ s ∈ output.samples, s.epoch = h.state.playbackEpoch) : Helper.Inv { h with output := output } where
  output := ho
  flags := hi.flags
  epoch := hepoch
  stored := by
    intro next heq
    rw [hp] at heq
    cases heq
  silent := fun _ _ hplay hnone => absurd ⟨hplay, hnone⟩ hplays
  drain := hi.drain
  capture := hi.capture

theorem Helper.Inv.onOutput {h : Helper} (hi : h.Inv) (hp : h.phase = .waiting) (epoch : Nat) (pcm : Lib.Bytes) :
    (h.onOutput epoch pcm).Inv := by
  unfold Helper.onOutput
  split_ifs with hbad hother
  · exact hi.end
  · exact hi
  · obtain ⟨hsame, hplays⟩ := not_or.mp hother
    refine hi.buffer hp hplays (hi.output.push _) ?_
    intro s hs
    rcases Playback.mem_push hs with hold | hnew
    · exact hi.epoch s hold
    · obtain ⟨v, -, rfl⟩ := List.mem_map.mp hnew
      exact not_not.mp hsame

/-- The drain that a State leaves is one of a playback that is over. -/
theorem Helper.drainAfter_some {h : Helper} {next : State} {now deadline : Nat} (hd : h.drainAfter next now = some deadline) :
    next.playback = false := by
  by_contra hplay
  rw [Bool.not_eq_false] at hplay
  simp [Helper.drainAfter, hplay] at hd

/-- Without a drain, a playback that does not run did not run before. -/
theorem Helper.drainAfter_none {h : Helper} {next : State} {now : Nat} (hd : h.drainAfter next now = none)
    (hplay : next.playback = false) : h.state.playback = false ∧ h.drainUntil = none := by
  unfold Helper.drainAfter at hd
  rw [hplay] at hd
  cases hbefore : h.state.playback with
  | false => simpa [hbefore] using hd
  | true => simp [hbefore] at hd

theorem Helper.Inv.go {h h' : Helper} {now : Nat} {ok : Bool} (hi : h.Inv) (hg : h.go F now ok = some h') : h'.Inv := by
  have hflags := hi.flags
  unfold Helper.go at hg
  cases hp : h.phase with
  | waiting => simp [hp] at hg
  | ended => simp [hp] at hg
  | clearing next =>
    simp only [hp, Option.some.injEq] at hg
    simp only [Helper.Flags, hp] at hflags
    subst hg
    refine hi.clear ⟨hflags.1, fun hplay => ?_⟩
    rw [hflags.2] at hplay
    cases hplay
  | storing next =>
    simp only [hp, Option.some.injEq] at hg
    subst hg
    refine ⟨hi.output, trivial, ?_, (fun _ heq => nomatch heq), ?_, ?_, rfl⟩
    · intro s hs
      by_cases hne : next.playbackEpoch = h.state.playbackEpoch
      · exact (hi.epoch s hs).trans hne.symm
      · have hnil := hi.stored next hp hne
        exact absurd hs (by simp [hnil])
    · intro _ _ hplay hnone
      obtain ⟨hbefore, hdrain⟩ := h.drainAfter_none hnone hplay
      exact hi.silent (by simp [hp]) (by simp [hp]) hbefore hdrain
    · intro hsome
      obtain ⟨deadline, hd⟩ := Option.isSome_iff_exists.mp hsome
      exact h.drainAfter_some hd
  | starting =>
    simp only [hp, Option.some.injEq] at hg
    subst hg
    apply hi.thenPhase F
    · exact ⟨rfl, rfl⟩
    · intro _ heq
      cases heq
    · intro _ _
      simp [hp]
  | draining =>
    simp only [hp, Option.some.injEq] at hg
    simp only [Helper.Flags, hp] at hflags
    subst hg
    obtain ⟨hrecording, hplaying, hplayback, hdrain⟩ := hflags
    refine hi.clear ⟨hrecording, ?_⟩
    simp [hplaying, hplayback, hdrain]

theorem Helper.Inv.onDrain {h h' : Helper} {now : Nat} {ok : Bool} (hi : h.Inv)
    (hg : h.onDrain F now ok = some h') : h'.Inv := by
  unfold Helper.onDrain at hg
  cases hd : h.drainUntil with
  | none => simp [hd] at hg
  | some deadline =>
    simp only [hd] at hg
    have hplay : h.state.playback = false := hi.drain (by rw [hd]; rfl)
    by_cases hover : deadline ≤ now
    · simp only [if_pos hover, Option.some.injEq] at hg
      subst hg
      rcases Helper.thenPhase_cases { h with drainUntil := none }
        (Helper.audioState F { h with drainUntil := none } h.state.capture false ok) .draining with ⟨q, hq, heq⟩ | heq
      · obtain ⟨output, new, frames, rfl, ho, hsuffix, -⟩ :=
          Helper.audioState_some F (h := { h with drainUntil := none }) hi.output hq
        rw [heq]
        exact ⟨ho, ⟨rfl, rfl, hplay, rfl⟩, fun s hs => hi.epoch s (hsuffix.subset hs), (fun _ h => nomatch h),
          fun h => absurd rfl h, (fun h => nomatch h), hi.capture⟩
      · rw [heq]
        exact ⟨hi.output, ⟨rfl, rfl⟩, hi.epoch, (fun _ h => nomatch h), fun _ h => absurd rfl h, (fun h => nomatch h),
          hi.capture⟩
    · simp only [if_neg hover, Option.some.injEq] at hg
      subst hg
      exact hi

theorem Helper.Inv.onClock {h : Helper} (hi : h.Inv) (now : Nat) : (h.onClock now).Inv := by
  unfold Helper.onClock
  simp only
  split_ifs
  · exact hi.end
  · exact hi.end
  · exact ⟨hi.output, hi.flags, hi.epoch, hi.stored, hi.silent, hi.drain, hi.capture⟩
  · exact hi.end
  · exact ⟨hi.output, hi.flags, hi.epoch, hi.stored, hi.silent, hi.drain, hi.capture⟩

/-- The capture callback touches nothing but the channel and the counter. -/
theorem Helper.capture_eq (h : Helper) (samples : List Int16) : ∃ frames captured,
    h.capture samples = { h with inputFrames := frames, pending := none, captured := captured } := by
  unfold Helper.capture
  simp only
  split_ifs
  · exact ⟨_, _, rfl⟩
  · cases h.captured.send (leBytes 8 h.captureEpoch ++ bytesOf samples) with
    | none => exact ⟨_, _, rfl⟩
    | some c => exact ⟨_, _, rfl⟩

theorem Helper.inv_step {h h' : Helper} {l : Label} (hs : step F h l = some h') (hi : h.Inv) : h'.Inv := by
  cases l with
  | message f now ok =>
    cases f with
    | events next =>
      obtain ⟨hp, rfl⟩ : h.phase = .waiting ∧ h.onEvents F next now ok = h' := by simpa [step] using hs
      exact hi.onEvents F hp next now ok
    | output epoch pcm =>
      obtain ⟨hp, rfl⟩ : h.phase = .waiting ∧ h.onOutput epoch pcm = h' := by simpa [step] using hs
      exact hi.onOutput hp epoch pcm
  | hangup =>
    obtain ⟨-, rfl⟩ : h.phase ≠ .ended ∧ h.end = h' := by simpa [step] using hs
    exact hi.end
  | go now ok => exact hi.go F hs
  | drain now ok =>
    obtain ⟨-, hd⟩ : h.phase = .waiting ∧ h.onDrain F now ok = some h' := by simpa [step] using hs
    exact hi.onDrain F hd
  | clock now =>
    obtain ⟨-, rfl⟩ : h.phase = .waiting ∧ h.onClock now = h' := by simpa [step] using hs
    exact hi.onClock now
  | inputReady samples =>
    obtain ⟨-, rfl⟩ : (h.recording = true ∧ h.pending = none ∧ samples.length ≤ bufferFrames) ∧
        { h with pending := some samples } = h' := by simpa [step] using hs
    exact ⟨hi.output, hi.flags, hi.epoch, hi.stored, hi.silent, hi.drain, hi.capture⟩
  | inputCallback =>
    obtain ⟨samples, -, rfl⟩ : ∃ samples, h.pending = some samples ∧ h.capture samples = h' := by simpa [step] using hs
    obtain ⟨frames, captured, heq⟩ := h.capture_eq samples
    rw [heq]
    exact ⟨hi.output, hi.flags, hi.epoch, hi.stored, hi.silent, hi.drain, hi.capture⟩
  | outputCallback locked =>
    obtain ⟨-, rfl⟩ : h.playing = true ∧
        { h with
          output := (h.output.callback F bufferFrames locked).2
          heard := h.heard ++ (h.output.callback F bufferFrames locked).1
          outputFrames := h.outputFrames + bufferFrames } = h' := by simpa [step] using hs
    obtain ⟨ho, hsuffix, -⟩ := hi.output.callback F bufferFrames locked
    exact hi.heard ho hsuffix _ _
  | upload =>
    obtain ⟨-, r, -, rfl⟩ : h.phase ≠ .ended ∧ ∃ r, h.captured.recv = some r ∧ { h with captured := r.2 } = h' := by
      simpa [step] using hs
    exact ⟨hi.output, hi.flags, hi.epoch, hi.stored, hi.silent, hi.drain, hi.capture⟩

theorem Helper.inv_of_run {now : Nat} {ls : List Label} {h : Helper} (hrun : exec (step F) (.open now) ls = some h) :
    h.Inv :=
  exec_inv (fun _ _ _ hs hi => Helper.inv_step F hs hi) hrun (Helper.inv_open now)

/-! ## What is heard -/

/-- From `h` to `h'` the output queue is handed samples of the buffer, and only while it plays. -/
def Plays (h h' : Helper) : Prop :=
  ∃ new, h'.heard = h.heard ++ new ∧ (new ≠ [] → h'.playing = true) ∧ ∀ v ∈ new, Between h.output.samples v

theorem Plays.of_eq {h h' : Helper} (heq : h'.heard = h.heard) : Plays h h' :=
  ⟨[], by rw [heq, List.append_nil], fun hne => absurd rfl hne, fun v hv => (List.not_mem_nil hv).elim⟩

theorem plays_thenPhase {h : Helper} {capture playback ok : Bool} (p : Phase) (ho : h.output.Sound) :
    Plays h (h.thenPhase (h.audioState F capture playback ok) p) := by
  rcases h.thenPhase_cases (h.audioState F capture playback ok) p with ⟨q, hq, heq⟩ | heq
  · obtain ⟨output, new, frames, rfl, -, -, hplays, hv⟩ := h.audioState_some F ho hq
    rw [heq]
    exact ⟨new, rfl, hplays, hv⟩
  · rw [heq]
    exact .of_eq rfl

theorem plays_step {h h' : Helper} {l : Label} (hs : step F h l = some h') (ho : h.output.Sound) : Plays h h' := by
  cases l with
  | message f now ok =>
    cases f with
    | events next =>
      obtain ⟨-, rfl⟩ : h.phase = .waiting ∧ h.onEvents F next now ok = h' := by simpa [step] using hs
      unfold Helper.onEvents
      by_cases hne : next.playbackEpoch ≠ h.state.playbackEpoch
      · simp only [if_pos hne]
        exact plays_thenPhase F (h := { h with lastControl := now }) _ ho
      · simp only [if_neg hne]
        exact .of_eq rfl
    | output epoch pcm =>
      obtain ⟨-, rfl⟩ : h.phase = .waiting ∧ h.onOutput epoch pcm = h' := by simpa [step] using hs
      unfold Helper.onOutput
      split_ifs <;> exact .of_eq rfl
  | hangup =>
    obtain ⟨-, rfl⟩ : h.phase ≠ .ended ∧ h.end = h' := by simpa [step] using hs
    exact .of_eq rfl
  | go now ok =>
    simp only [step, Helper.go] at hs
    cases hp : h.phase with
    | waiting => simp [hp] at hs
    | ended => simp [hp] at hs
    | starting =>
      simp only [hp, Option.some.injEq] at hs
      subst hs
      exact plays_thenPhase F _ ho
    | _ =>
      simp only [hp, Option.some.injEq] at hs
      subst hs
      exact .of_eq rfl
  | drain now ok =>
    obtain ⟨-, hd⟩ : h.phase = .waiting ∧ h.onDrain F now ok = some h' := by simpa [step] using hs
    unfold Helper.onDrain at hd
    cases hdrain : h.drainUntil with
    | none => simp [hdrain] at hd
    | some deadline =>
      simp only [hdrain] at hd
      split_ifs at hd
      · cases hd
        exact plays_thenPhase F (h := { h with drainUntil := none }) _ ho
      · cases hd
        exact .of_eq rfl
  | clock now =>
    obtain ⟨-, rfl⟩ : h.phase = .waiting ∧ h.onClock now = h' := by simpa [step] using hs
    unfold Helper.onClock
    simp only
    split_ifs <;> exact .of_eq rfl
  | inputReady samples =>
    obtain ⟨-, rfl⟩ : (h.recording = true ∧ h.pending = none ∧ samples.length ≤ bufferFrames) ∧
        { h with pending := some samples } = h' := by simpa [step] using hs
    exact .of_eq rfl
  | inputCallback =>
    obtain ⟨samples, -, rfl⟩ : ∃ samples, h.pending = some samples ∧ h.capture samples = h' := by simpa [step] using hs
    obtain ⟨frames, captured, heq⟩ := h.capture_eq samples
    rw [heq]
    exact .of_eq rfl
  | outputCallback locked =>
    obtain ⟨hplaying, rfl⟩ : h.playing = true ∧
        { h with
          output := (h.output.callback F bufferFrames locked).2
          heard := h.heard ++ (h.output.callback F bufferFrames locked).1
          outputFrames := h.outputFrames + bufferFrames } = h' := by simpa [step] using hs
    obtain ⟨-, -, -, hv⟩ := ho.callback F bufferFrames locked
    exact ⟨_, rfl, fun _ => hplaying, hv⟩
  | upload =>
    obtain ⟨-, r, -, rfl⟩ : h.phase ≠ .ended ∧ ∃ r, h.captured.recv = some r ∧ { h with captured := r.2 } = h' := by
      simpa [step] using hs
    exact .of_eq rfl

/-- Whatever arrives, whatever fails and wherever the callbacks fall: at its `select` the task has both queues as
the last State and its drain ask, the microphone is on at no other State than one that asks for it, or while that is
being undone, and what is played lies between neighbours of a buffer that holds the newest samples of the State's
epoch alone. -/
theorem helper_plays_its_epoch {now : Nat} {ls : List Label} {h : Helper} (hrun : exec (step F) (.open now) ls = some h) :
    (h.phase = .waiting → h.recording = h.state.capture ∧ h.playing = (h.state.playback || h.drainUntil.isSome)) ∧
    (h.recording = true → h.state.capture = true ∨ h.phase = .starting) ∧
    (h.output.samples = queueOf queueMax h.output.history ∧ Covered queueMax 2 h.output.history) ∧
    (∀ s ∈ h.output.samples, s.epoch = h.state.playbackEpoch) ∧
    (h.phase = .waiting → h.playing = false → h.output.samples = []) ∧
    (∀ next, h.phase = .storing next → next.playbackEpoch ≠ h.state.playbackEpoch →
      h.playing = false ∧ h.output.samples = []) ∧
    ∀ l h', step F h l = some h' → Plays h h' := by
  have hi := Helper.inv_of_run F hrun
  have hflags := hi.flags
  unfold Helper.Flags at hflags
  refine ⟨?_, ?_, ⟨hi.output.samples, hi.output.covered⟩, hi.epoch, ?_, ?_, fun l h' hs => plays_step F hs hi.output⟩
  · intro hp
    rwa [hp] at hflags
  · intro hr
    cases hp : h.phase with
    | starting => exact .inr rfl
    | ended =>
      rw [hp] at hflags
      rw [hflags.1] at hr
      cases hr
    | _ =>
      rw [hp] at hflags
      exact .inl (hflags.1.symm.trans hr)
  · intro hp hq
    rw [hp] at hflags
    rw [hflags.2, Bool.or_eq_false_iff] at hq
    apply hi.silent (by simp [hp]) (by simp [hp]) hq.1
    simpa using hq.2
  · intro next hp hne
    rw [hp] at hflags
    refine ⟨?_, hi.stored next hp hne⟩
    by_contra hplay
    exact hne (hflags.2 (by simpa using hplay))

end

/-- A playback of two samples, one callback of the output and the State that ends it. -/
def twoSamples : List Label :=
  [.message (.events ⟨true, true, 1, 1⟩) 0 true, .go 0 true, .go 0 true, .go 0 true,
    .message (.output 1 [100, 0, 44, 1, 44, 1]) 0 true, .message (.output 7 [1, 1]) 0 true, .outputCallback false,
    .message (.events ⟨false, false, 1, 1⟩) 10 true, .go 10 true, .go 10 true]

theorem helper_plays_its_epoch_two_samples : ∃ h, exec (step .exact) (.open 0) twoSamples = some h ∧ h.phase = .waiting ∧
    h.recording = false ∧ h.playing = true ∧ h.drainUntil = some 210 ∧ (h.heard.drop 1920).take 4 = [100, 299, 300, 0] ∧
    ∀ s ∈ h.output.samples, s.epoch = 1 := by
  have hrun : exec (step .exact) (.open 0) twoSamples =
      some ((exec (step .exact) (.open 0) twoSamples).get (by decide +kernel)) := (Option.some_get _).symm
  have hfacts := helper_plays_its_epoch .exact hrun
  refine ⟨_, hrun, by decide +kernel, by decide +kernel, by decide +kernel, by decide +kernel, by decide +kernel, ?_⟩
  intro s hs
  rw [hfacts.2.2.2.1 s hs]
  decide +kernel

end Mux.MacAudio
