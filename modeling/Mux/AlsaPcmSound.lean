import Mathlib.Algebra.Group.Nat.Defs
import Mathlib.Tactic.Ring
import Mux.AlsaPcm

/-!
# What is played is what was written

`application` keeps the quotient and the rest of the true count as long as it moves by less
than half the boundary between two calls. Between two prepares the sender is where the last
pointer result was, the application is ahead of it by at most the buffer, and the ring
mirrors what was written over that window; so each datagram carries the samples the
application wrote at its positions.
-/

namespace Mux.Alsa

open Lib

/-! ## The application pointer -/

/-- The record as it is after `application` has returned `n`. -/
def MuxPcm.at (p : MuxPcm) (n : Nat) : MuxPcm :=
  { p with appCycles := p.boundary * (n / p.boundary), lastApp := n % p.boundary }

def MuxPcm.Tracks (p : MuxPcm) (n : Nat) : Prop :=
  p.appCycles = p.boundary * (n / p.boundary) ∧ p.lastApp = n % p.boundary

theorem tracks_at (p : MuxPcm) (n : Nat) : (p.at n).Tracks n := ⟨rfl, rfl⟩

theorem at_boundary (p : MuxPcm) (n : Nat) : (p.at n).boundary = p.boundary := rfl

/-- Less than `b` apart, the quotients are the same or next to each other. -/
theorem mul_div_cases {b n m : Nat} (hle : n ≤ m) (hlt : m < n + b) :
    b * (m / b) = b * (n / b) ∨ b * (m / b) = b * (n / b) + b := by
  have hb : 0 < b := by omega
  have hn := Nat.div_add_mod n b
  have hm := Nat.div_add_mod m b
  have hnlt := Nat.mod_lt n hb
  have hq : n / b ≤ m / b := Nat.div_le_div_right hle
  have hnear : m / b < n / b + 2 := by
    by_contra hfar
    have hmul := Nat.mul_le_mul_left b (Nat.le_of_not_lt hfar)
    rw [Nat.mul_add] at hmul
    omega
  rcases Nat.eq_or_lt_of_le hq with heq | hlt
  · exact Or.inl (by rw [heq])
  · have hnext : m / b = n / b + 1 := by omega
    exact Or.inr (by rw [hnext, Nat.mul_add, Nat.mul_one])

/-- The unwrapping over plain numbers. -/
theorem quotient_of_near {b n m : Nat} (h1 : 2 * m < 2 * n + b) (h2 : 2 * n < 2 * m + b) :
    (if m % b < n % b ∧ n % b - m % b > b / 2 then b * (n / b) + b
      else if m % b > n % b ∧ m % b - n % b > b / 2 ∧ b * (n / b) ≥ b then b * (n / b) - b
      else b * (n / b)) = b * (m / b) := by
  have hb : 0 < b := by omega
  have hn := Nat.div_add_mod n b
  have hm := Nat.div_add_mod m b
  have hnlt := Nat.mod_lt n hb
  have hmlt := Nat.mod_lt m hb
  have hsame : b * (m / b) = b * (n / b) ∨ b * (m / b) = b * (n / b) + b ∨ b * (n / b) = b * (m / b) + b := by
    rcases Nat.le_total n m with hle | hle
    · rcases mul_div_cases (b := b) hle (by omega) with h | h
      · exact Or.inl h
      · exact Or.inr (Or.inl h)
    · rcases mul_div_cases (b := b) hle (by omega) with h | h
      · exact Or.inl h.symm
      · exact Or.inr (Or.inr h)
  rcases hsame with heq | hup | hdown
  · have hnot : ¬ (m % b < n % b ∧ n % b - m % b > b / 2) := by omega
    have hnot' : ¬ (m % b > n % b ∧ m % b - n % b > b / 2 ∧ b * (n / b) ≥ b) := by omega
    rw [if_neg hnot, if_neg hnot', heq]
  · rw [if_pos ⟨by omega, by omega⟩, hup]
  · have hnot : ¬ (m % b < n % b ∧ n % b - m % b > b / 2) := by omega
    rw [if_neg hnot, if_pos ⟨by omega, by omega, by omega⟩, hdown]
    omega

theorem application_of_tracks {p : MuxPcm} {n m : Nat} (h : p.Tracks n) (h1 : 2 * m < 2 * n + p.boundary)
    (h2 : 2 * n < 2 * m + p.boundary) (hm : m < word) : p.application (m % p.boundary) = (m, p.at m) := by
  have hquot := quotient_of_near h1 h2
  have hdiv := Nat.div_add_mod m p.boundary
  have hcycles : (if m % p.boundary < p.lastApp ∧ p.lastApp - m % p.boundary > p.boundary / 2 then
        (p.appCycles + p.boundary) % word
      else if m % p.boundary > p.lastApp ∧ m % p.boundary - p.lastApp > p.boundary / 2 ∧ p.appCycles ≥ p.boundary then
        p.appCycles - p.boundary
      else p.appCycles) = p.boundary * (m / p.boundary) := by
    rw [h.1, h.2]
    by_cases hup : m % p.boundary < n % p.boundary ∧ n % p.boundary - m % p.boundary > p.boundary / 2
    · rw [if_pos hup] at hquot ⊢
      rw [hquot]
      exact Nat.mod_eq_of_lt (by omega)
    · rw [if_neg hup] at hquot ⊢
      exact hquot
  unfold MuxPcm.application
  simp only [hcycles, hdiv]
  rw [Nat.mod_eq_of_lt hm]
  rfl

/-- `application` fed one value after another: what it returns. -/
def MuxPcm.applications (p : MuxPcm) : List Nat → List Nat
  | [] => []
  | value :: values => (p.application value).1 :: (p.application value).2.applications values

/-- True counts that move by less than half the boundary at a time. -/
def Moderate (boundary : Nat) : Nat → List Nat → Prop
  | _, [] => True
  | n, m :: ms => 2 * m < 2 * n + boundary ∧ 2 * n < 2 * m + boundary ∧ m < word ∧ Moderate boundary m ms

theorem applications_of_tracks {p : MuxPcm} {n : Nat} {counts : List Nat} (h : p.Tracks n)
    (hc : Moderate p.boundary n counts) : p.applications (counts.map (· % p.boundary)) = counts := by
  induction counts generalizing p n with
  | nil => rfl
  | cons m ms ih =>
    obtain ⟨h1, h2, hm, hrest⟩ := hc
    rw [List.map_cons, MuxPcm.applications, application_of_tracks h h1 h2 hm]
    have hnext := ih (tracks_at p m) hrest
    rw [at_boundary] at hnext
    rw [hnext]

theorem application_returns_true_count {p : MuxPcm} (hp : p.appCycles = 0 ∧ p.lastApp = 0) (hb : 2 ≤ p.boundary)
    {counts : List Nat} (hlt : ∀ n ∈ counts, n < word)
    (hnear : (0 :: counts).IsChain fun n m => 2 * (n - m) < p.boundary ∧ 2 * (m - n) < p.boundary) :
    p.applications ((0 :: counts).map (· % p.boundary)) = 0 :: counts := by
  have hmoderate : ∀ (n : Nat) (ms : List Nat), (∀ m ∈ ms, m < word) →
      (n :: ms).IsChain (fun n m => 2 * (n - m) < p.boundary ∧ 2 * (m - n) < p.boundary) →
      Moderate p.boundary n ms := by
    intro n ms
    induction ms generalizing n with
    | nil => intro _ _; trivial
    | cons m ms ih =>
      intro hms hchain
      rw [List.isChain_cons_cons] at hchain
      refine ⟨by omega, by omega, hms m List.mem_cons_self, ?_⟩
      exact ih m (fun k hk => hms k (List.mem_cons_of_mem _ hk)) hchain.2
  have htracks : p.Tracks 0 := by
    constructor
    · rw [hp.1, Nat.zero_div, Nat.mul_zero]
    · rw [hp.2, Nat.zero_mod]
  refine applications_of_tracks htracks ⟨by omega, by omega, by decide, hmoderate 0 counts hlt hnear⟩

/-- Up and down over a boundary of ten, twice. -/
theorem application_returns_true_count_wrapping :
    (opened 10).pcm.applications [0, 4, 8, 2, 9, 1, 5] = [0, 4, 8, 12, 9, 11, 15] :=
  @application_returns_true_count (opened 10).pcm ⟨rfl, rfl⟩ (by decide) [4, 8, 12, 9, 11, 15] (by decide) (by decide)

/-! ## The play position -/

/-- Whole frames in a time. -/
def framesIn (elapsed : Nat) : Nat := elapsed * rate / 1000000000

theorem framesIn_mono {a b : Nat} (h : a ≤ b) : framesIn a ≤ framesIn b :=
  Nat.div_le_div_right (Nat.mul_le_mul_right rate h)

theorem framesIn_small {e : Nat} (h : e < word) : framesIn e < 2 ^ 50 := by
  unfold framesIn rate
  unfold word at h
  omega

theorem position_eq {p : MuxPcm} {now : Nat} (h : p.base + framesIn (p.elapsed now) < word) :
    p.position now = p.base + framesIn (p.elapsed now) := by
  have hsplit : p.elapsed now / 1000000000 * rate + p.elapsed now % 1000000000 * rate / 1000000000 =
      framesIn (p.elapsed now) := by
    unfold framesIn rate
    omega
  unfold MuxPcm.position
  rw [Nat.add_assoc, hsplit, Nat.mod_eq_of_lt h]

theorem elapsed_of_running {p : MuxPcm} {now : Nat} (hr : p.running = true) (h : p.startNs ≤ now) (hn : now < word) :
    p.elapsed now = now - p.startNs := by
  unfold MuxPcm.elapsed
  rw [if_pos hr]
  have hsum : now + word - p.startNs = now - p.startNs + word := by omega
  rw [hsum, Nat.add_mod_right, Nat.mod_eq_of_lt (by omega)]

theorem elapsed_of_idle {p : MuxPcm} {now : Nat} (hr : p.running = false) : p.elapsed now = 0 := by
  unfold MuxPcm.elapsed
  rw [hr]
  rfl

/-! ## Sending -/

theorem sendLoop_boundary {pos : Nat} (fuel : Nat) (p : MuxPcm) (results : List SendResult) :
    (p.sendLoop pos fuel results).1.boundary = p.boundary := by
  induction fuel generalizing p results with
  | zero => rfl
  | succ fuel ih =>
    by_cases hlt : p.sent < pos
    · simp only [MuxPcm.sendLoop, if_pos hlt]
      rw [ih]
    · simp only [MuxPcm.sendLoop, if_neg hlt]

theorem sendLoop_spec {pos : Nat} : ∀ (fuel : Nat) (p : MuxPcm) (results : List SendResult), p.sent ≤ pos →
    pos - p.sent ≤ fuel →
    (p.sendLoop pos fuel results).1 = { p with dead := (p.sendLoop pos fuel results).1.dead, sent := pos } ∧
      (p.sendLoop pos fuel results).2.flatMap pcmOf =
        (List.range' p.sent (pos - p.sent)).flatMap fun k => leBytes 2 (p.playback (k % ring)) := by
  intro fuel
  induction fuel with
  | zero =>
    intro p results hle hfuel
    have heq : p.sent = pos := by omega
    subst heq
    simp [MuxPcm.sendLoop]
  | succ fuel ih =>
    intro p results hle hfuel
    by_cases hlt : p.sent < pos
    · have hcount : ∃ count, (if pos - p.sent > packet then packet else pos - p.sent) = count ∧ 0 < count ∧
          count ≤ pos - p.sent := by
        refine ⟨_, rfl, ?_⟩
        unfold packet
        split <;> omega
      obtain ⟨count, hdef, hpos, hcle⟩ := hcount
      obtain ⟨h1, h2⟩ := ih { p with dead := p.dead || results.headD .delivered == .failed, sent := p.sent + count }
        results.tail (by simp only; omega) (by simp only; omega)
      simp only [MuxPcm.sendLoop, if_pos hlt, hdef]
      refine ⟨h1, ?_⟩
      rw [List.flatMap_cons, h2]
      have hparts : List.range' p.sent (pos - p.sent) =
          List.range' p.sent count ++ List.range' (p.sent + count) (pos - (p.sent + count)) := by
        rw [List.range'_append_1]
        congr 1
        omega
      rw [hparts, List.flatMap_append]
      congr 1
      rw [List.range'_eq_map_range, List.flatMap_map]
      rfl
    · have heq : p.sent = pos := by omega
      subst heq
      simp [MuxPcm.sendLoop]

/-! ## Between two prepares -/

def World.latest (w : World) (k : Nat) : Nat := (w.written k).getD 0

/-- What the socket was handed: each position below `sent` once, in order, with the sample
that was written there last. -/
structure Handed (w : World) : Prop where
  written : ∀ k < w.pcm.sent, (w.written k).isSome = true
  socket : w.socket.flatMap pcmOf = (List.range w.pcm.sent).flatMap fun k => leBytes 2 (w.latest k)

/-- The window between the sender and the end of what was written. -/
structure Streaming (w : World) : Prop where
  low : w.hw ≤ w.applPtr
  mid : w.applPtr ≤ w.extent
  high : w.extent ≤ w.hw + ring
  mirrors : Mirrors ring w.pcm.playback w.written w.hw w.extent
  tracks : ∃ m, w.pcm.Tracks m ∧ w.hw ≤ m ∧ m ≤ w.hw + ring
  sent : w.pcm.sent = w.hw
  base : w.pcm.base = 0

/-- The clock has got to the last pointer result. -/
structure Live (w : World) : Prop where
  running : w.pcm.running = true
  began : w.pcm.startNs ≤ w.clock
  reached : w.hw ≤ framesIn (w.clock - w.pcm.startNs)

def PhaseInv (w : World) : Phase → Prop
  | .setup => True
  | .prepared => Handed w ∧ Streaming w ∧ w.pcm.running = false ∧ w.hw = 0
  | .started => Handed w ∧ Streaming w ∧ Live w
  | .stopped => Handed w ∧ w.pcm.running = false

structure Inv (boundary : Nat) (w : World) : Prop where
  clock : w.clock < word
  boundary : w.pcm.boundary = boundary
  phase : PhaseInv w w.phase

section
variable {boundary : Nat} (hboundary : 2 * ring < boundary) {w : World}

include hboundary

theorem application_of_streaming (hw : Streaming w) (hb : w.pcm.boundary = boundary) (hsmall : w.hw < 2 ^ 50) :
    w.pcm.application (w.applPtr % w.pcm.boundary) = (w.applPtr, w.pcm.at w.applPtr) := by
  obtain ⟨m, htracks, h1, h2⟩ := hw.tracks
  have hlow := hw.low
  have hmid := hw.mid
  have hhigh := hw.high
  unfold ring at hboundary h2 hhigh
  refine application_of_tracks htracks (by omega) (by omega) ?_
  unfold word
  omega

theorem advance_eq {hw pos : Nat} (h1 : hw ≤ pos) (h2 : pos ≤ hw + ring) :
    advance boundary hw (pos % boundary) = pos := by
  have hdiff : pos - hw < boundary := by
    unfold ring at hboundary h2
    omega
  have hpos := Nat.div_add_mod pos boundary
  have hhw := Nat.div_add_mod hw boundary
  have hmod : (pos % boundary + boundary - hw % boundary) % boundary = pos - hw := by
    rcases mul_div_cases (b := boundary) h1 (by omega) with hq | hq
    · have hsum : pos % boundary + boundary - hw % boundary = pos - hw + boundary := by omega
      rw [hsum, Nat.add_mod_right, Nat.mod_eq_of_lt hdiff]
    · have hsum : pos % boundary + boundary - hw % boundary = pos - hw := by omega
      rw [hsum, Nat.mod_eq_of_lt hdiff]
  unfold advance
  rw [hmod]
  omega

/-! ## Pointer -/

theorem pointer_started (hw : Streaming w) (hl : Live w) (hb : w.pcm.boundary = boundary)
    {now : Nat} (hle : w.clock ≤ now) (hnow : now < word) (draining : Bool) (results : List SendResult) :
    w.pcm.pointer (w.applPtr % w.pcm.boundary) draining now results = (none, w.pcm.at w.applPtr, []) ∨
      ∃ pos, w.hw ≤ pos ∧ pos ≤ w.applPtr ∧ pos ≤ framesIn (now - w.pcm.startNs) ∧
        w.pcm.pointer (w.applPtr % w.pcm.boundary) draining now results =
          (some (pos % w.pcm.boundary), (w.pcm.at w.applPtr).sendLoop pos pos results) := by
  have hbegan := hl.began
  have helapsed := elapsed_of_running hl.running (Nat.le_trans hl.began hle) hnow
  have hsmall : framesIn (now - w.pcm.startNs) < 2 ^ 50 := framesIn_small (by omega)
  have hreached : w.hw ≤ framesIn (now - w.pcm.startNs) := Nat.le_trans hl.reached (framesIn_mono (by omega))
  have happ := application_of_streaming hboundary hw hb (by omega)
  have hpos : w.pcm.position now = framesIn (now - w.pcm.startNs) := by
    rw [position_eq, hw.base, helapsed, Nat.zero_add]
    rw [hw.base, helapsed]
    unfold word
    omega
  have hrunning : (w.pcm.at w.applPtr).running = true := hl.running
  unfold MuxPcm.pointer
  simp only [happ, hpos, hrunning, Bool.true_and, if_true, at_boundary]
  have hlow := hw.low
  by_cases hover : framesIn (now - w.pcm.startNs) > w.applPtr
  · cases draining with
    | false => exact Or.inl (by simp [hover])
    | true => exact Or.inr ⟨w.applPtr, hlow, Nat.le_refl _, by omega, by simp [hover]⟩
  · exact Or.inr ⟨framesIn (now - w.pcm.startNs), hreached, by omega, Nat.le_refl _, by simp [hover]⟩

end

theorem pointer_idle {p : MuxPcm} (hr : p.running = false) (applPtr : Nat) (draining : Bool) (now : Nat)
    (results : List SendResult) :
    (p.pointer applPtr draining now results).2 = ((p.application applPtr).2, []) := by
  have hidle : (p.application applPtr).2.running = false := hr
  unfold MuxPcm.pointer
  simp [hidle]

theorem pointer_boundary (p : MuxPcm) (applPtr : Nat) (draining : Bool) (now : Nat) (results : List SendResult) :
    (p.pointer applPtr draining now results).2.1.boundary = p.boundary := by
  unfold MuxPcm.pointer
  simp only
  generalize (if (draining && decide (p.position now > (p.application applPtr).1)) = true
    then (p.application applPtr).1 else p.position now) = pos
  by_cases hunderrun : ((p.application applPtr).2.running && decide (pos > (p.application applPtr).1)) = true
  · rw [if_pos hunderrun]
    rfl
  · rw [if_neg hunderrun]
    by_cases hr : (p.application applPtr).2.running = true
    · rw [if_pos hr]
      exact sendLoop_boundary _ _ _
    · rw [if_neg hr]
      rfl

theorem pointer_prepared {p : MuxPcm} (hr : p.running = false) (hb : p.base = 0) (applPtr : Nat) (draining : Bool)
    (now : Nat) (results : List SendResult) : (p.pointer applPtr draining now results).1 = some 0 := by
  have hidle : (p.application applPtr).2.running = false := hr
  have hpos : p.position now = 0 := by
    rw [position_eq, hb, elapsed_of_idle hr]
    · rfl
    · rw [hb, elapsed_of_idle hr]
      decide
  unfold MuxPcm.pointer
  simp [hidle, hpos]

theorem Handed.extend {w : World} (h : Handed w) {pos : Nat} (hle : w.pcm.sent ≤ pos) {results : List SendResult}
    (hm : Mirrors ring w.pcm.playback w.written w.pcm.sent pos) {p : MuxPcm} (hsent : p.sent = w.pcm.sent)
    (hplay : p.playback = w.pcm.playback) (clock hw : Nat) :
    Handed { w with
      pcm := (p.sendLoop pos pos results).1, clock := clock, hw := hw,
      socket := w.socket ++ (p.sendLoop pos pos results).2 } := by
  obtain ⟨h1, h2⟩ := @sendLoop_spec pos pos p results (by omega) (by omega)
  have hpos : (p.sendLoop pos pos results).1.sent = pos := by rw [h1]
  constructor
  · intro k hk
    simp only [hpos] at hk
    by_cases hlt : k < w.pcm.sent
    · exact h.written k hlt
    · simp only
      rw [hm k (by omega) hk]
      rfl
  · simp only [hpos, List.flatMap_append, h.socket, h2, World.latest]
    have hparts : List.range pos = List.range w.pcm.sent ++ List.range' w.pcm.sent (pos - w.pcm.sent) := by
      rw [List.range_eq_range', List.range_eq_range']
      have happend := @List.range'_append_1 0 w.pcm.sent (pos - w.pcm.sent)
      rw [Nat.zero_add] at happend
      rw [happend]
      congr 1
      omega
    rw [hparts, List.flatMap_append, hsent, hplay]
    congr 1
    apply List.flatMap_congr
    intro k hk
    rw [List.mem_range'_1] at hk
    rw [hm k hk.1 (by omega)]
    rfl

/-! ## One event -/

/-- Only what the record keeps of the stream matters to the window. -/
theorem Streaming.of_pcm {w w' : World} (h : Streaming w) (happ : w'.applPtr = w.applPtr) (hhw : w'.hw = w.hw)
    (hext : w'.extent = w.extent) (hwritten : w'.written = w.written) (hplay : w'.pcm.playback = w.pcm.playback)
    (hsent : w'.pcm.sent = w.pcm.sent) (hbase : w'.pcm.base = w.pcm.base)
    (htracks : ∀ m, w.pcm.Tracks m → w'.pcm.Tracks m) : Streaming w' := by
  obtain ⟨m, hm, h1, h2⟩ := h.tracks
  refine ⟨?_, ?_, ?_, ?_, ⟨m, htracks m hm, ?_, ?_⟩, ?_, ?_⟩
  · rw [happ, hhw]; exact h.low
  · rw [happ, hext]; exact h.mid
  · rw [hext, hhw]; exact h.high
  · rw [hplay, hwritten, hhw, hext]; exact h.mirrors
  · rw [hhw]; exact h1
  · rw [hhw]; exact h2
  · rw [hsent, hhw]; exact h.sent
  · rw [hbase]; exact h.base

theorem PhaseInv.map {w w' : World} {phase : Phase} (h : PhaseInv w phase) (hhanded : Handed w → Handed w')
    (hstreaming : Streaming w → Streaming w') (hlive : Live w → Live w')
    (hrunning : w'.pcm.running = w.pcm.running) (hhw : w'.hw = w.hw) : PhaseInv w' phase := by
  cases phase with
  | setup => trivial
  | prepared =>
    obtain ⟨hh, hs, hr, hz⟩ := h
    exact ⟨hhanded hh, hstreaming hs, hrunning.trans hr, hhw.trans hz⟩
  | started =>
    obtain ⟨hh, hs, hl⟩ := h
    exact ⟨hhanded hh, hstreaming hs, hlive hl⟩
  | stopped =>
    obtain ⟨hh, hr⟩ := h
    exact ⟨hhanded hh, hrunning.trans hr⟩

theorem prepare_cases (p : MuxPcm) (sent : Bool) :
    (∃ q, p.prepare sent = (q, false) ∧ q.boundary = p.boundary) ∨
      p.prepare sent = ({ p with
        running := false, base := 0, sent := 0, appCycles := 0, lastApp := 0, playback := fun _ => 0 }, true) := by
  unfold MuxPcm.prepare
  by_cases hdead : p.dead = true
  · exact Or.inl ⟨p, if_pos hdead, rfl⟩
  · rw [if_neg hdead]
    cases sent with
    | false => exact Or.inl ⟨_, rfl, rfl⟩
    | true => exact Or.inr rfl

section
variable {boundary : Nat} {w w' : World}

theorem inv_prepare {sent timer : Bool} (h : step w (.prepare sent timer) = some w') (hi : Inv boundary w) :
    Inv boundary w' := by
  rcases prepare_cases w.pcm sent with ⟨q, hq, hb⟩ | hq
  · simp only [step, hq, Bool.false_and, Bool.false_eq_true, if_false, Option.some.injEq] at h
    subst h
    exact ⟨hi.clock, hb.trans hi.boundary, trivial⟩
  · cases timer with
    | false =>
      simp only [step, hq, Bool.and_false, Bool.false_eq_true, if_false, Option.some.injEq] at h
      subst h
      exact ⟨hi.clock, hi.boundary, trivial⟩
    | true =>
      simp only [step, hq, Bool.and_true, if_true, Option.some.injEq] at h
      subst h
      refine ⟨hi.clock, hi.boundary, ⟨?_, rfl⟩, ?_, rfl, rfl⟩
      · intro k hk
        exact absurd hk (Nat.not_lt_zero k)
      · refine ⟨Nat.le_refl 0, Nat.le_refl 0, Nat.zero_le _, ?_, ⟨0, ⟨?_, ?_⟩, Nat.le_refl 0, Nat.zero_le _⟩, rfl, rfl⟩
        · intro k _ hk
          exact absurd hk (Nat.not_lt_zero k)
        · simp only [Nat.zero_div, Nat.mul_zero]
        · simp only [Nat.zero_mod]

theorem inv_start {bufferSize : Nat} {sent : Bool} {now : Nat} (hG : Obeys bufferSize w (.start sent now))
    (h : step w (.start sent now) = some w') (hi : Inv boundary w) : Inv boundary w' := by
  obtain ⟨hphase, hle, hnow⟩ := hG
  have hinv := hi.phase
  rw [hphase] at hinv
  obtain ⟨hhanded, hstreaming, hidle, hhw⟩ := hinv
  cases sent with
  | true =>
    simp only [step, if_true, Option.some.injEq] at h
    subst h
    have hstreaming' : Streaming { w with pcm := w.pcm.start true now, clock := now, phase := .started } :=
      hstreaming.of_pcm rfl rfl rfl rfl rfl rfl rfl fun m hm => hm
    refine ⟨hnow, hi.boundary, ⟨hhanded.written, hhanded.socket⟩, hstreaming', rfl, Nat.le_refl now, ?_⟩
    rw [hhw]
    exact Nat.zero_le _
  | false =>
    simp only [step, Bool.false_eq_true, if_false, Option.some.injEq] at h
    subst h
    refine ⟨hnow, hi.boundary, ?_⟩
    simp only [hphase]
    refine ⟨⟨hhanded.written, hhanded.socket⟩, ?_, hidle, hhw⟩
    exact hstreaming.of_pcm rfl rfl rfl rfl rfl rfl rfl fun m hm => hm

theorem Inv.handed (hi : Inv boundary w) (hphase : w.phase ≠ .setup) : Handed w := by
  have hinv := hi.phase
  cases hp : w.phase with
  | setup => exact absurd hp hphase
  | prepared =>
    rw [hp] at hinv
    exact hinv.1
  | started =>
    rw [hp] at hinv
    exact hinv.1
  | stopped =>
    rw [hp] at hinv
    exact hinv.1

theorem Inv.streaming (hi : Inv boundary w) (hphase : w.phase = .prepared ∨ w.phase = .started) : Streaming w := by
  have hinv := hi.phase
  rcases hphase with hp | hp
  · rw [hp] at hinv
    exact hinv.2.1
  · rw [hp] at hinv
    exact hinv.2.1

theorem inv_stop {bufferSize : Nat} {sent : Bool} {now : Nat} (hG : Obeys bufferSize w (.stop sent now))
    (h : step w (.stop sent now) = some w') (hi : Inv boundary w) : Inv boundary w' := by
  simp only [step, Option.some.injEq] at h
  subst h
  refine ⟨hG.2, hi.boundary, ?_⟩
  by_cases hsetup : w.phase = .setup
  · simp only [hsetup, if_true]
    trivial
  · have hhanded := hi.handed hsetup
    simp only [if_neg hsetup]
    exact ⟨⟨hhanded.written, hhanded.socket⟩, rfl⟩

theorem inv_revents {broken : Bool} (h : step w (.revents broken) = some w') (hi : Inv boundary w) :
    Inv boundary w' := by
  simp only [step, Option.some.injEq] at h
  subst h
  refine ⟨hi.clock, hi.boundary, hi.phase.map ?_ ?_ ?_ rfl rfl⟩
  · exact fun hh => ⟨hh.written, hh.socket⟩
  · exact fun hs => hs.of_pcm rfl rfl rfl rfl rfl rfl rfl fun m hm => hm
  · exact fun hl => ⟨hl.running, hl.began, hl.reached⟩

theorem inv_seek {bufferSize at_ : Nat} (hG : Obeys bufferSize w (.seek at_)) (h : step w (.seek at_) = some w')
    (hi : Inv boundary w) : Inv boundary w' := by
  simp only [step, Option.some.injEq] at h
  subst h
  refine ⟨hi.clock, hi.boundary, hi.phase.map ?_ ?_ ?_ rfl rfl⟩
  · exact fun hh => ⟨hh.written, hh.socket⟩
  · exact fun hs => ⟨hG.1, hG.2, hs.high, hs.mirrors, hs.tracks, hs.sent, hs.base⟩
  · exact fun hl => ⟨hl.running, hl.began, hl.reached⟩

theorem small_of_inv (hi : Inv boundary w) (hphase : w.phase = .prepared ∨ w.phase = .started) : w.hw < 2 ^ 50 := by
  have hinv := hi.phase
  rcases hphase with hp | hp
  · rw [hp] at hinv
    have hz := hinv.2.2.2
    rw [hz]
    decide
  · rw [hp] at hinv
    have hclock := hi.clock
    exact Nat.lt_of_le_of_lt hinv.2.2.reached (framesIn_small (by omega))

theorem transfer_cases (p : MuxPcm) (applPtr areaStep first : Nat) (frames : List (UInt8 × UInt8)) :
    p.transfer applPtr areaStep first frames = (false, p) ∨
      p.transfer applPtr areaStep first frames =
        (true, { (p.application applPtr).2 with
          playback := writeRing ring p.playback (p.application applPtr).1
            (frames.map fun f => leValue [f.1, f.2]) }) := by
  unfold MuxPcm.transfer
  by_cases hdead : p.dead = true
  · exact Or.inl (if_pos hdead)
  · rw [if_neg hdead]
    by_cases hareas : areaStep ≠ 16 ∨ first % 8 ≠ 0
    · exact Or.inl (if_pos hareas)
    · rw [if_neg hareas]
      exact Or.inr rfl

variable (hboundary : 2 * ring < boundary)

include hboundary

/-- A write goes on from the application pointer, inside the window. -/
theorem inv_transfer {bufferSize areaStep first : Nat} {frames : List (UInt8 × UInt8)} (hbuffer : bufferSize ≤ ring)
    (hG : Obeys bufferSize w (.transfer areaStep first frames))
    (h : step w (.transfer areaStep first frames) = some w') (hi : Inv boundary w) : Inv boundary w' := by
  obtain ⟨hstopped, hroom⟩ := hG
  rcases transfer_cases w.pcm (w.applPtr % w.pcm.boundary) areaStep first frames with heq | heq
  · simp only [step, heq, Bool.false_eq_true, if_false, Option.some.injEq] at h
    subst h
    exact hi
  · simp only [step, heq, if_true, Option.some.injEq] at h
    subst h
    refine ⟨hi.clock, hi.boundary, ?_⟩
    by_cases hsetup : w.phase = .setup
    · simp only [hsetup]
      trivial
    · have hphase : w.phase = .prepared ∨ w.phase = .started := by
        cases hp : w.phase with
        | setup => exact absurd hp hsetup
        | prepared => exact Or.inl rfl
        | started => exact Or.inr rfl
        | stopped => exact absurd hp hstopped
      have hs := hi.streaming hphase
      have happ := application_of_streaming hboundary hs hi.boundary (small_of_inv hi hphase)
      have hlow := hs.low
      have hmid := hs.mid
      have hhigh := hs.high
      have hwrite : w.applPtr + (frames.map fun f => leValue [f.1, f.2]).length ≤ w.hw + ring := by
        rw [List.length_map]
        omega
      have hkept : ∀ k < w.hw, writeAll w.written w.applPtr (frames.map fun f => leValue [f.1, f.2]) k = w.written k :=
        fun k hk => writeAll_of_lt (by omega) _
      rw [happ]
      refine hi.phase.map ?_ ?_ ?_ rfl rfl
      · intro hh
        constructor
        · intro k hk
          have hlt : k < w.hw := by
            rw [← hs.sent]
            exact hk
          simp only
          rw [hkept k hlt]
          exact hh.written k hk
        · refine hh.socket.trans (List.flatMap_congr ?_)
          intro k hk
          have hlt : k < w.hw := by
            rw [← hs.sent]
            exact List.mem_range.mp hk
          simp only [World.latest]
          rw [hkept k hlt]
      · intro _
        refine ⟨?_, ?_, ?_, ?_, ⟨w.applPtr, tracks_at w.pcm w.applPtr, hlow, Nat.le_trans hmid hhigh⟩, hs.sent,
          hs.base⟩
        · simp only
          omega
        · exact Nat.le_max_right _ _
        · rw [List.length_map] at hwrite
          exact Nat.max_le.mpr ⟨hhigh, hwrite⟩
        · have hmirrors := hs.mirrors.write hlow hmid hhigh hwrite
          rw [List.length_map] at hmirrors
          exact hmirrors
      · exact fun hl => ⟨hl.running, hl.began, hl.reached⟩

theorem inv_pointer {bufferSize : Nat} {draining : Bool} {now : Nat} {results : List SendResult}
    (hG : Obeys bufferSize w (.pointer draining now results))
    (h : step w (.pointer draining now results) = some w') (hi : Inv boundary w) : Inv boundary w' := by
  obtain ⟨hle, hnow⟩ := hG
  have hinv := hi.phase
  generalize hcall : w.pcm.pointer (w.applPtr % w.pcm.boundary) draining now results = call at h
  obtain ⟨result, p, out⟩ := call
  have hb : p.boundary = boundary := by
    have hkept := pointer_boundary w.pcm (w.applPtr % w.pcm.boundary) draining now results
    rw [hcall] at hkept
    exact hkept.trans hi.boundary
  simp only [step, hcall, Option.some.injEq] at h
  subst h
  refine ⟨hnow, hb, ?_⟩
  cases hphase : w.phase with
  | setup => trivial
  | stopped =>
    rw [hphase] at hinv
    obtain ⟨hh, hr⟩ := hinv
    have hidle := pointer_idle hr (w.applPtr % w.pcm.boundary) draining now results
    rw [hcall] at hidle
    cases hidle
    exact ⟨⟨hh.written, by rw [List.append_nil]; exact hh.socket⟩, hr⟩
  | prepared =>
    rw [hphase] at hinv
    obtain ⟨hh, hs, hr, hz⟩ := hinv
    have hidle := pointer_idle hr (w.applPtr % w.pcm.boundary) draining now results
    have hzero := pointer_prepared hr hs.base (w.applPtr % w.pcm.boundary) draining now results
    rw [hcall] at hidle hzero
    cases hidle
    cases hzero
    have happ := application_of_streaming hboundary hs hi.boundary (small_of_inv hi (Or.inl hphase))
    have hstay : advance w.pcm.boundary w.hw 0 = w.hw := by
      have hadvance := advance_eq hboundary (Nat.le_refl 0) (Nat.zero_le (0 + ring))
      rw [Nat.zero_mod] at hadvance
      rw [hz, hi.boundary, hadvance]
    simp only [hstay, happ, List.append_nil]
    refine ⟨⟨hh.written, hh.socket⟩, ?_, hr, hz⟩
    exact ⟨hs.low, hs.mid, hs.high, hs.mirrors,
      ⟨w.applPtr, tracks_at w.pcm w.applPtr, hs.low, Nat.le_trans hs.mid hs.high⟩,
      hs.sent, hs.base⟩
  | started =>
    rw [hphase] at hinv
    obtain ⟨hh, hs, hl⟩ := hinv
    have hreached : w.hw ≤ framesIn (now - w.pcm.startNs) := Nat.le_trans hl.reached (framesIn_mono (by omega))
    rcases pointer_started hboundary hs hl hi.boundary hle hnow draining results with heq | ⟨pos, h1, h2, h3, heq⟩
    · rw [hcall] at heq
      cases heq
      simp only [List.append_nil]
      refine ⟨⟨hh.written, hh.socket⟩, ?_, hl.running, Nat.le_trans hl.began hle, hreached⟩
      exact ⟨hs.low, hs.mid, hs.high, hs.mirrors,
        ⟨w.applPtr, tracks_at w.pcm w.applPtr, hs.low, Nat.le_trans hs.mid hs.high⟩, hs.sent, hs.base⟩
    · rw [hcall] at heq
      have hresult : result = some (pos % w.pcm.boundary) := congrArg Prod.fst heq
      have hsend : (p, out) = (w.pcm.at w.applPtr).sendLoop pos pos results := congrArg Prod.snd heq
      have hp : p = ((w.pcm.at w.applPtr).sendLoop pos pos results).1 := congrArg Prod.fst hsend
      have hout : out = ((w.pcm.at w.applPtr).sendLoop pos pos results).2 := congrArg Prod.snd hsend
      subst hresult hp hout
      have hadvance : advance w.pcm.boundary w.hw (pos % w.pcm.boundary) = pos := by
        rw [hi.boundary]
        exact advance_eq hboundary h1 (Nat.le_trans h2 (Nat.le_trans hs.mid hs.high))
      have hsent : w.pcm.sent ≤ pos := hs.sent ▸ h1
      have hmirrors : Mirrors ring w.pcm.playback w.written w.pcm.sent pos := by
        rw [hs.sent]
        exact hs.mirrors.mono (Nat.le_refl _) (Nat.le_trans h2 hs.mid)
      have hextend := @Handed.extend w hh pos hsent results hmirrors (w.pcm.at w.applPtr) rfl rfl now pos
      obtain ⟨hq, -⟩ := @sendLoop_spec pos pos (w.pcm.at w.applPtr) results hsent (by omega)
      simp only [hadvance]
      refine ⟨⟨hextend.written, hextend.socket⟩, ⟨h2, hs.mid, ?_, ?_, ⟨w.applPtr, ?_, h2, ?_⟩, ?_, ?_⟩, ?_, ?_, ?_⟩
      · exact Nat.le_trans hs.high (Nat.add_le_add_right h1 ring)
      · rw [hq]
        exact hs.mirrors.mono h1 (Nat.le_refl _)
      · rw [hq]
        exact tracks_at w.pcm w.applPtr
      · exact Nat.le_trans hs.mid (Nat.le_trans hs.high (Nat.add_le_add_right h1 ring))
      · rw [hq]
      · rw [hq]
        exact hs.base
      · rw [hq]
        exact hl.running
      · rw [hq]
        exact Nat.le_trans hl.began hle
      · rw [hq]
        exact h3

theorem step_inv {bufferSize : Nat} (hbuffer : bufferSize ≤ ring) {e : Event} (hG : Obeys bufferSize w e)
    (h : step w e = some w') (hi : Inv boundary w) : Inv boundary w' := by
  cases e with
  | prepare sent timer => exact inv_prepare h hi
  | start sent now => exact inv_start hG h hi
  | stop sent now => exact inv_stop hG h hi
  | pointer draining now results => exact inv_pointer hboundary hG h hi
  | transfer areaStep first frames => exact inv_transfer hboundary hbuffer hG h hi
  | seek applPtr => exact inv_seek hG h hi
  | revents broken => exact inv_revents h hi

end

/-- Between two prepares the socket is handed positions 0, 1, 2, … once each and in order,
each with the sample the application wrote there last; and positions are exact. -/
theorem playback_plays_what_was_written :
    (∀ {boundary bufferSize : Nat}, 2 * ring < boundary → bufferSize ≤ ring → ∀ {es : List Event} {w : World},
      Meets step (Obeys bufferSize) (opened boundary) es → exec step (opened boundary) es = some w →
      (w.phase ≠ .setup → (∀ k < w.pcm.sent, (w.written k).isSome = true) ∧
        w.socket.flatMap pcmOf = (List.range w.pcm.sent).flatMap fun k => leBytes 2 (w.latest k)) ∧
      (w.phase = .prepared ∨ w.phase = .started → w.pcm.sent ≤ w.applPtr)) ∧
    ∀ (p : MuxPcm) (now : Nat), p.base + p.elapsed now * rate / 1000000000 < word →
      p.position now = p.base + p.elapsed now * rate / 1000000000 := by
  refine ⟨?_, fun p now h => position_eq h⟩
  intro boundary bufferSize hboundary hbuffer es w hm h
  have hinit : Inv boundary (opened boundary) := ⟨(by decide : 0 < word), rfl, trivial⟩
  have hi : Inv boundary w :=
    exec_inv_of_meets (fun s e s' hG hs hi => step_inv hboundary hbuffer hG hs hi) hm h hinit
  constructor
  · intro hphase
    have hh := hi.handed hphase
    exact ⟨hh.written, hh.socket⟩
  · intro hphase
    have hs := hi.streaming hphase
    rw [hs.sent]
    exact hs.low

/-- Three frames written, the third rewritten, two of them due. -/
def twoDue : List Event :=
  [.prepare true true, .transfer 16 0 [(1, 0), (2, 0), (3, 0)], .seek 2, .transfer 16 0 [(4, 1)], .start true 5,
    .pointer false 41672 [.delivered]]

theorem playback_plays_what_was_written_two_due :
    ∃ w, exec step (opened 65536) twoDue = some w ∧ w.socket = [[2, 1, 0, 2, 0]] ∧
      w.socket.flatMap pcmOf = (List.range w.pcm.sent).flatMap fun k => leBytes 2 (w.latest k) := by
  have hrun : exec step (opened 65536) twoDue = some ((exec step (opened 65536) twoDue).get (by decide +kernel)) :=
    (Option.some_get _).symm
  have hfacts := (playback_plays_what_was_written.1 (by decide) (Nat.le_refl ring)
    (by decide +kernel : Meets step (Obeys ring) (opened 65536) twoDue) hrun).1 (by decide +kernel)
  exact ⟨_, hrun, by decide +kernel, hfacts.2⟩

end Mux.Alsa
