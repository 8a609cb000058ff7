import Mux.AudioSound
import Mux.MacAudioSound

/-!
# What reaches the Mac's helper

The task is always on its way to the State it was told last, whatever its callbacks do meanwhile; it listens only
when a State has asked for that; and what enters the playback buffer are the samples of the frames it was given.
-/

namespace Mux.MacAudio

open Lib
open Audio (State)

/-- The State the task goes to. -/
def Helper.target (h : Helper) : State :=
  match h.phase with
  | .clearing next | .storing next => next
  | _ => h.state

/-- The microphone is on, or a State asks for it, or samples of it are on their way. -/
def Helper.Listening (h : Helper) : Prop :=
  h.state.capture = true ∨ h.target.capture = true ∨ h.recording = true ∨ h.pending ≠ none ∨ h.captured.log ≠ []

/-- Everything that ever entered the playback buffer. -/
def Helper.buffered (h : Helper) : List Sample := arrivals h.output.history

/-! ## The playback buffer only loses samples on its own -/

section
variable (F : Rounding)

theorem arrivals_frame {p q : Playback} {step : Rat} {v : Int16} (h : p.frame F step = some (v, q)) :
    arrivals q.history = arrivals p.history := by
  cases hl : p.samples with
  | nil => simp [Playback.frame, hl] at h
  | cons a rest =>
    cases rest with
    | nil => simp [Playback.frame, hl] at h
    | cons b rest =>
      simp only [Playback.frame, hl, Option.some.injEq, Prod.mk.injEq] at h
      obtain ⟨-, rfl⟩ := h
      simp [arrivals_snoc, Happening.arrival]

theorem arrivals_loop (p : Playback) (step : Rat) (count : Nat) :
    arrivals (p.loop F step count).2.history = arrivals p.history := by
  induction count generalizing p with
  | zero => rfl
  | succ count ih =>
    rcases p.loop_succ F step count with ⟨v, q, hf, heq⟩ | ⟨-, heq⟩
    · rw [heq]
      exact (ih q).trans (arrivals_frame F hf)
    · rw [heq]

theorem arrivals_callback (p : Playback) (count : Nat) (locked : Bool) :
    arrivals (p.callback F count locked).2.history = arrivals p.history := by
  unfold Playback.callback
  cases locked with
  | true => rfl
  | false => exact arrivals_loop F p _ count

theorem arrivals_fill (p : Playback) (n : Nat) : arrivals (p.fill F n).2.history = arrivals p.history := by
  induction n generalizing p with
  | zero => rfl
  | succ n ih => exact (ih _).trans (arrivals_callback F p bufferFrames false)

theorem arrivals_clear (p : Playback) : arrivals p.clear.history = arrivals p.history := by
  simp [Playback.clear, arrivals_snoc, Happening.arrival]

/-! ## The steps of the helper -/

/-- What a step changes of what it was told and of what it was given: `next` when it is told a State, and `new`
when it is given samples. -/
structure Flow (next : Option State) (new : List Sample) (h h' : Helper) : Prop where
  target : h'.phase ≠ .ended → h.phase ≠ .ended ∧ h'.target = next.getD h.target
  listening : h'.Listening → h.Listening ∨ ∃ st, next = some st ∧ st.capture = true
  buffered : h'.buffered.Sublist (h.buffered ++ new)

theorem flow_end (h : Helper) (next : Option State) (new : List Sample) : Flow next new h h.end where
  target hne := absurd rfl hne
  listening := by
    intro hl
    refine .inl ?_
    rcases hl with hl | hl | hl | hl | hl
    · exact .inl hl
    · exact .inl hl
    · cases hl
    · exact absurd rfl hl
    · exact .inr (.inr (.inr (.inr hl)))
  buffered := List.sublist_append_left _ _

theorem arrivals_audioState {h q : Helper} {capture playback ok : Bool}
    (hq : h.audioState F capture playback ok = some q) : q.buffered = h.buffered := by
  unfold Helper.audioState at hq
  split_ifs at hq
  · cases hq
    exact arrivals_fill F h.output buffers
  · cases hq
    rfl

/-- The target that a step names, where it names none it stays. -/
theorem listening_target {h : Helper} {t : State} {next : Option State} (ht : t = next.getD h.target)
    (hc : t.capture = true) : h.Listening ∨ ∃ st, next = some st ∧ st.capture = true := by
  subst ht
  cases next with
  | none => exact .inl (.inr (.inl hc))
  | some st => exact .inr ⟨st, rfl, hc⟩

theorem flow_thenPhase {h : Helper} (playback ok : Bool) (p : Phase) (next : Option State) (ho : h.output.Sound)
    (hp : h.phase ≠ .ended) (ht : Helper.target { h with phase := p } = next.getD h.target) :
    Flow next [] h (h.thenPhase (h.audioState F h.state.capture playback ok) p) := by
  rcases h.thenPhase_cases (h.audioState F h.state.capture playback ok) p with ⟨q, hq, heq⟩ | heq
  · have hbuffered := arrivals_audioState F hq
    obtain ⟨output, heard, frames, rfl, -⟩ := h.audioState_some F ho hq
    rw [heq]
    refine ⟨fun _ => ⟨hp, ht⟩, ?_, ?_⟩
    · intro hl
      rcases hl with hl | hl | hl | hl | hl
      · exact .inl (.inl hl)
      · exact listening_target ht hl
      · exact .inl (.inl hl)
      · exact .inl (.inr (.inr (.inr (.inl hl))))
      · exact .inl (.inr (.inr (.inr (.inr hl))))
    · rw [List.append_nil]
      exact (show _ = h.buffered from hbuffered) ▸ List.Sublist.refl _
  · rw [heq]
    exact flow_end h next []

/-- A step that keeps the State, the target and the microphone. -/
theorem flow_quiet {h h' : Helper} (hp : h.phase ≠ .ended) (ht : h'.target = h.target)
    (hs : h'.state.capture = h.state.capture)
    (hr : h'.recording = h.recording) (hpending : h'.pending = h.pending) (hlog : h'.captured.log = h.captured.log)
    (hb : h'.buffered = h.buffered) : Flow none [] h h' where
  target _ := ⟨hp, ht⟩
  listening := by
    intro hl
    unfold Helper.Listening at hl ⊢
    rw [ht, hs, hr, hpending, hlog] at hl
    exact .inl hl
  buffered := by
    rw [hb, List.append_nil]

theorem flow_onEvents {h : Helper} (hi : h.Inv) (hp : h.phase = .waiting) (next : State) (now : Nat) (ok : Bool) :
    Flow (some next) [] h (h.onEvents F next now ok) := by
  have hne : h.phase ≠ .ended := by simp [hp]
  unfold Helper.onEvents
  by_cases he : next.playbackEpoch ≠ h.state.playbackEpoch
  · simp only [if_pos he]
    have hflow := flow_thenPhase F (h := { h with lastControl := now }) false ok (.clearing next) (some next)
      hi.output hne rfl
    exact ⟨hflow.target, hflow.listening, hflow.buffered⟩
  · simp only [if_neg he]
    refine ⟨fun _ => ⟨hne, rfl⟩, ?_, List.sublist_append_left _ _⟩
    intro hl
    rcases hl with hl | hl | hl | hl | hl
    · exact .inl (.inl hl)
    · exact .inr ⟨next, rfl, hl⟩
    · exact .inl (.inr (.inr (.inl hl)))
    · exact .inl (.inr (.inr (.inr (.inl hl))))
    · exact .inl (.inr (.inr (.inr (.inr hl))))

/-- The samples of a frame. -/
def samplesIn (epoch : Nat) (pcm : Lib.Bytes) : List Sample := (Alsa.samplesOf pcm).map fun v => ⟨epoch, v⟩

theorem flow_buffer {h : Helper} {output : Playback} {new : List Sample} (hne : h.phase ≠ .ended)
    (hb : (arrivals output.history).Sublist (h.buffered ++ new)) : Flow none new h { h with output := output } :=
  ⟨fun _ => ⟨hne, rfl⟩, .inl, hb⟩

theorem flow_onOutput {h : Helper} (hp : h.phase = .waiting) (epoch : Nat) (pcm : Lib.Bytes) :
    Flow none (samplesIn epoch pcm) h (h.onOutput epoch pcm) := by
  have hne : h.phase ≠ .ended := by simp [hp]
  unfold Helper.onOutput
  split_ifs
  · exact flow_end h none _
  · exact ⟨fun _ => ⟨hne, rfl⟩, .inl, List.sublist_append_left _ _⟩
  · apply flow_buffer hne
    have hpush : arrivals (h.output.push (samplesIn epoch pcm)).history = h.buffered ++ samplesIn epoch pcm :=
      arrivals_append_arrived _ _
    exact hpush ▸ List.Sublist.refl _

theorem flow_go {h h' : Helper} {now : Nat} {ok : Bool} (hi : h.Inv) (hg : h.go F now ok = some h') :
    Flow none [] h h' := by
  unfold Helper.go at hg
  cases hp : h.phase with
  | waiting => simp [hp] at hg
  | ended => simp [hp] at hg
  | clearing next =>
    simp only [hp, Option.some.injEq] at hg
    subst hg
    refine flow_quiet (by simp [hp]) ?_ rfl rfl rfl rfl (arrivals_clear h.output)
    simp [Helper.target, hp]
  | storing next =>
    simp only [hp, Option.some.injEq] at hg
    subst hg
    have ht : h.target = next := by simp [Helper.target, hp]
    refine ⟨fun _ => ⟨by simp [hp], ht.symm⟩, ?_, List.sublist_append_left _ _⟩
    intro hl
    rcases hl with hl | hl | hl | hl | hl
    · exact .inl (.inr (.inl (by rw [ht]; exact hl)))
    · exact .inl (.inr (.inl (by rw [ht]; exact hl)))
    · exact .inl (.inr (.inr (.inl hl)))
    · exact .inl (.inr (.inr (.inr (.inl hl))))
    · exact .inl (.inr (.inr (.inr (.inr hl))))
  | starting =>
    simp only [hp, Option.some.injEq] at hg
    subst hg
    exact flow_thenPhase F _ ok .waiting none hi.output (by simp [hp]) (by simp [Helper.target, hp])
  | draining =>
    simp only [hp, Option.some.injEq] at hg
    subst hg
    refine flow_quiet (by simp [hp]) ?_ rfl rfl rfl rfl (arrivals_clear h.output)
    simp [Helper.target, hp]

theorem flow_onDrain {h h' : Helper} {now : Nat} {ok : Bool} (hi : h.Inv) (hp : h.phase = .waiting)
    (hg : h.onDrain F now ok = some h') : Flow none [] h h' := by
  have hne : h.phase ≠ .ended := by simp [hp]
  unfold Helper.onDrain at hg
  cases hd : h.drainUntil with
  | none => simp [hd] at hg
  | some deadline =>
    simp only [hd] at hg
    split_ifs at hg
    · cases hg
      have hflow := flow_thenPhase F (h := { h with drainUntil := none }) false ok .draining none hi.output hne
        (by simp [Helper.target, hp])
      exact ⟨hflow.target, hflow.listening, hflow.buffered⟩
    · cases hg
      exact flow_quiet hne rfl rfl rfl rfl rfl rfl

theorem flow_onClock {h : Helper} (hp : h.phase = .waiting) (now : Nat) : Flow none [] h (h.onClock now) := by
  have hne : h.phase ≠ .ended := by simp [hp]
  unfold Helper.onClock
  simp only
  split_ifs
  · exact flow_end h none []
  · exact flow_end h none []
  · exact flow_quiet hne rfl rfl rfl rfl rfl rfl
  · exact flow_end h none []
  · exact flow_quiet hne rfl rfl rfl rfl rfl rfl

/-- Every step but the messages is the helper's own. -/
theorem flow_step {h h' : Helper} {l : Label} (hi : h.Inv) (hl : ∀ f now ok, l ≠ .message f now ok)
    (hs : step F h l = some h') : Flow none [] h h' := by
  cases l with
  | message f now ok => exact absurd rfl (hl f now ok)
  | hangup =>
    obtain ⟨-, rfl⟩ : h.phase ≠ .ended ∧ h.end = h' := by simpa [step] using hs
    exact flow_end h none []
  | go now ok => exact flow_go F hi hs
  | drain now ok =>
    obtain ⟨hp, hd⟩ : h.phase = .waiting ∧ h.onDrain F now ok = some h' := by simpa [step] using hs
    exact flow_onDrain F hi hp hd
  | clock now =>
    obtain ⟨hp, rfl⟩ : h.phase = .waiting ∧ h.onClock now = h' := by simpa [step] using hs
    exact flow_onClock hp now
  | inputReady samples =>
    obtain ⟨⟨hr, -, -⟩, rfl⟩ : (h.recording = true ∧ h.pending = none ∧ samples.length ≤ bufferFrames) ∧
        { h with pending := some samples } = h' := by simpa [step] using hs
    refine ⟨?_, fun _ => .inl (.inr (.inr (.inl hr))), List.sublist_append_left _ _⟩
    intro hne
    exact ⟨hne, rfl⟩
  | inputCallback =>
    obtain ⟨samples, hpending, rfl⟩ : ∃ samples, h.pending = some samples ∧ h.capture samples = h' := by
      simpa [step] using hs
    obtain ⟨frames, captured, heq⟩ := h.capture_eq samples
    rw [heq]
    refine ⟨fun hne => ⟨hne, rfl⟩, fun _ => .inl (.inr (.inr (.inr (.inl ?_)))), List.sublist_append_left _ _⟩
    simp [hpending]
  | outputCallback locked =>
    obtain ⟨hplaying, rfl⟩ : h.playing = true ∧
        { h with
          output := (h.output.callback F bufferFrames locked).2
          heard := h.heard ++ (h.output.callback F bufferFrames locked).1
          outputFrames := h.outputFrames + bufferFrames } = h' := by simpa [step] using hs
    have hbuffered := arrivals_callback F h.output bufferFrames locked
    refine ⟨fun hne => ⟨hne, rfl⟩, .inl, ?_⟩
    rw [List.append_nil]
    exact (show _ = h.buffered from hbuffered) ▸ List.Sublist.refl _
  | upload =>
    obtain ⟨hp, r, hr, rfl⟩ : h.phase ≠ .ended ∧ ∃ r, h.captured.recv = some r ∧ { h with captured := r.2 } = h' := by
      simpa [step] using hs
    exact flow_quiet hp rfl rfl rfl rfl (Channel.log_recv hr) rfl

end

end Mux.MacAudio
