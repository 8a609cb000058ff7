import Mux.Lib.Bytes

/-!
# Reading exactly so many bytes

`read_exact` fills a buffer from a source that hands out its bytes in pieces of any size.
A source is the list of what its reads return; at the end of the list every read returns no
byte. The blocking loop of the standard library retries an interrupted read. The polled one of
tokio suspends while a read is pending.

`Reader` is what both guarantee. A program that reads only through `readExact` sees the bytes
of its source and not how they were cut.
-/

namespace Lib

inductive IoError where
  | unexpectedEof
  | interrupted
  | invalidData (message : String)
  | other
deriving DecidableEq, Repr

/-- What one read returns: a piece of the stream, never an empty one, or an error. -/
inductive Event where
  | data (b : UInt8) (bs : Bytes)
  | fail (e : IoError)
deriving DecidableEq, Repr

def Event.bytes : Event → Bytes
  | .data b bs => b :: bs
  | .fail _ => []

/-- The part of a piece that the buffer had no room for. -/
def Event.rest : Bytes → List Event
  | [] => []
  | b :: bs => [.data b bs]

theorem Event.fail_not_mem_rest {e : IoError} {l : Bytes} : Event.fail e ∉ Event.rest l := by
  cases l <;> simp [Event.rest]

@[simp] theorem Event.rest_bytes (l : Bytes) : (Event.rest l).flatMap Event.bytes = l := by
  cases l <;> simp [Event.rest, Event.bytes]

def Block.extend {n : Nat} (piece : Bytes) (h : piece.length < n) (r : Block (n - piece.length)) : Block n :=
  ⟨piece ++ r.1, by rw [List.length_append, r.2]; omega⟩

/-- A piece put in front of what the rest of the loop reads. -/
def after {σ : Type} {n : Nat} (piece : Bytes) (h : piece.length < n)
    (r : Except IoError (Block (n - piece.length)) × σ) :
    Except IoError (Block n) × σ := (r.1.map (Block.extend piece h), r.2)

def Block.cut {n : Nat} (piece : Bytes) (h : n ≤ piece.length) : Block n :=
  ⟨piece.take n, by rw [List.length_take]; omega⟩

structure Reader (σ : Type) where
  readExact : (n : Nat) → σ → Except IoError (Block n) × σ
  bytes : σ → Bytes
  /-- No read fails before the end of the stream. -/
  Whole : σ → Prop
  readExact_ok : ∀ {n src b src'}, readExact n src = (.ok b, src') → bytes src = b.1 ++ bytes src'
  readExact_enough : ∀ {n src}, Whole src → n ≤ (bytes src).length → ∃ b src', readExact n src = (.ok b, src') ∧ Whole src'
  readExact_short : ∀ {n src}, Whole src → (bytes src).length < n →
    ∃ src', readExact n src = (.error .unexpectedEof, src') ∧ bytes src' = [] ∧ Whole src'

namespace Reader
variable {σ : Type}

/-- The source hands out exactly these bytes and then ends. -/
def Delivers (R : Reader σ) (src : σ) (l : Bytes) : Prop := R.Whole src ∧ R.bytes src = l

theorem Delivers.enough {R : Reader σ} {src : σ} {n : Nat} {l rest : Bytes} (h : R.Delivers src (l ++ rest))
    (hl : l.length = n) :
    ∃ src', R.readExact n src = (.ok ⟨l, hl⟩, src') ∧ R.Delivers src' rest := by
  have hle : n ≤ (R.bytes src).length := by
    rw [h.2, List.length_append]
    omega
  obtain ⟨b, src', hr, hw⟩ := R.readExact_enough h.1 hle
  have hb : l ++ rest = b.1 ++ R.bytes src' := h.2 ▸ R.readExact_ok hr
  obtain ⟨h1, h2⟩ := List.append_inj hb (hl.trans b.2.symm)
  refine ⟨src', ?_, hw, h2.symm⟩
  rw [hr]
  congr
  exact Subtype.ext h1.symm

theorem Delivers.short {R : Reader σ} {src : σ} {n : Nat} {l : Bytes} (h : R.Delivers src l) (hl : l.length < n) :
    ∃ src', R.readExact n src = (.error .unexpectedEof, src') ∧ R.Delivers src' [] := by
  obtain ⟨src', hr, hb, hw⟩ := R.readExact_short h.1 (h.2 ▸ hl)
  exact ⟨src', hr, hw, hb⟩

/-! ## A slice -/

def readExactSlice (n : Nat) (l : Bytes) : Except IoError (Block n) × Bytes :=
  if h : n ≤ l.length then (.ok (Block.cut l h), l.drop n) else (.error .unexpectedEof, [])

def slice : Reader Bytes where
  readExact := readExactSlice
  bytes l := l
  Whole _ := True
  readExact_ok := by
    intro n l b l' h
    unfold readExactSlice at h
    split at h
    · cases h; exact (List.take_append_drop n l).symm
    · cases h
  readExact_enough := by
    intro n l _ hl
    exact ⟨_, _, dif_pos hl, trivial⟩
  readExact_short := by
    intro n l _ hl
    exact ⟨[], dif_neg (by omega), rfl, trivial⟩

/-- A source is read as the slice of the bytes that it delivers. -/
theorem Delivers.slice {R : Reader σ} {src : σ} {l : Bytes} (h : R.Delivers src l) (n : Nat) :
    ∃ r src' l', R.readExact n src = (r, src') ∧ Reader.slice.readExact n l = (r, l') ∧ R.Delivers src' l' := by
  by_cases hn : n ≤ l.length
  · rw [← List.take_append_drop n l] at h
    obtain ⟨src', hr, hd⟩ := h.enough (List.length_take_of_le hn)
    exact ⟨_, src', _, hr, dif_pos hn, hd⟩
  · obtain ⟨src', hr, hd⟩ := h.short (Nat.lt_of_not_le hn)
    exact ⟨_, src', _, hr, dif_neg hn, hd⟩

/-! ## The blocking loop -/

def readExactStd : (n : Nat) → List Event → Except IoError (Block n) × List Event
  | 0, src => (.ok ⟨[], rfl⟩, src)
  | _ + 1, [] => (.error .unexpectedEof, [])
  | n + 1, .fail e :: src => if e = .interrupted then readExactStd (n + 1) src else (.error e, src)
  | n + 1, .data b bs :: src =>
    if h : n + 1 ≤ (b :: bs).length then (.ok (Block.cut (b :: bs) h), Event.rest ((b :: bs).drop (n + 1)) ++ src)
    else after (b :: bs) (by omega) (readExactStd (n + 1 - (b :: bs).length) src)

def stdBytes (src : List Event) : Bytes := src.flatMap Event.bytes

/-- No read fails but by an interruption. -/
def StdWhole (src : List Event) : Prop := ∀ e, Event.fail e ∈ src → e = .interrupted

theorem cut_append_drop {n : Nat} (piece : Bytes) (h : n ≤ piece.length) :
    (Block.cut piece h).1 ++ piece.drop n = piece := List.take_append_drop n piece

theorem after_ok {σ : Type} {n : Nat} {piece : Bytes} {h : piece.length < n}
    {r : Except IoError (Block (n - piece.length)) × σ}
    {b : Block n} {src' : σ} (hr : after piece h r = (.ok b, src')) :
    ∃ a, r = (.ok a, src') ∧ b = Block.extend piece h a := by
  obtain ⟨x, src⟩ := r
  cases x with
  | error e => cases hr
  | ok a => cases hr; exact ⟨a, rfl, rfl⟩

theorem std_ok (n : Nat) (src : List Event) : ∀ {b src'}, readExactStd n src = (.ok b, src') →
    stdBytes src = b.1 ++ stdBytes src' := by
  fun_induction readExactStd n src with
  | case1 src => rintro b src' ⟨⟩; rfl
  | case2 n => rintro b src' ⟨⟩
  | case3 n src ih => exact ih
  | case4 n e src he => rintro b src' ⟨⟩
  | case5 n b bs src h =>
    rintro b' src' ⟨⟩
    simp only [stdBytes, List.flatMap_cons, List.flatMap_append, Event.rest_bytes, Event.bytes]
    rw [← List.append_assoc, cut_append_drop]
  | case6 n b bs src h ih =>
    intro b' src' hr
    obtain ⟨a, ha, rfl⟩ := after_ok hr
    have := ih ha
    simp only [stdBytes, List.flatMap_cons, Event.bytes] at this ⊢
    rw [this, Block.extend, List.append_assoc]

theorem std_enough (n : Nat) (src : List Event) : StdWhole src → n ≤ (stdBytes src).length →
    ∃ b src', readExactStd n src = (.ok b, src') ∧ StdWhole src' := by
  fun_induction readExactStd n src with
  | case1 src => exact fun hw _ => ⟨_, _, rfl, hw⟩
  | case2 n => exact fun _ hl => absurd hl (by simp [stdBytes])
  | case3 n src ih => exact fun hw hl => ih (fun e he => hw e (List.mem_cons_of_mem _ he)) hl
  | case4 n e src he => exact fun hw _ => absurd (hw e (by simp)) he
  | case5 n b bs src h =>
    refine fun hw _ => ⟨_, _, rfl, ?_⟩
    intro e he
    rcases List.mem_append.mp he with he | he
    · exact absurd he Event.fail_not_mem_rest
    · exact hw e (List.mem_cons_of_mem _ he)
  | case6 n b bs src h ih =>
    intro hw hl
    have hle : n + 1 - (b :: bs).length ≤ (stdBytes src).length := by
      simp only [stdBytes, List.flatMap_cons, Event.bytes, List.length_append] at hl ⊢
      omega
    obtain ⟨a, src', hr, hw'⟩ := ih (fun e he => hw e (List.mem_cons_of_mem _ he)) hle
    exact ⟨_, src', by rw [hr]; rfl, hw'⟩

theorem std_short (n : Nat) (src : List Event) : StdWhole src → (stdBytes src).length < n →
    ∃ src', readExactStd n src = (.error .unexpectedEof, src') ∧ stdBytes src' = [] ∧ StdWhole src' := by
  fun_induction readExactStd n src with
  | case1 src => exact fun _ hl => absurd hl (by omega)
  | case2 n => exact fun hw _ => ⟨[], rfl, rfl, hw⟩
  | case3 n src ih => exact fun hw hl => ih (fun e he => hw e (List.mem_cons_of_mem _ he)) hl
  | case4 n e src he => exact fun hw _ => absurd (hw e (by simp)) he
  | case5 n b bs src h =>
    intro _ hl
    simp only [stdBytes, List.flatMap_cons, Event.bytes, List.length_append] at hl
    omega
  | case6 n b bs src h ih =>
    intro hw hl
    have hlt : (stdBytes src).length < n + 1 - (b :: bs).length := by
      simp only [stdBytes, List.flatMap_cons, Event.bytes, List.length_append] at hl ⊢
      omega
    obtain ⟨src', hr, hb, hw'⟩ := ih (fun e he => hw e (List.mem_cons_of_mem _ he)) hlt
    exact ⟨src', by rw [hr]; rfl, hb, hw'⟩

def std : Reader (List Event) where
  readExact := readExactStd
  bytes := stdBytes
  Whole := StdWhole
  readExact_ok := std_ok _ _
  readExact_enough := std_enough _ _
  readExact_short := std_short _ _

/-! ## The polled loop -/

/-- `none` is a poll that finds nothing yet. -/
def readExactTokio : (n : Nat) → List (Option Event) → Except IoError (Block n) × List (Option Event)
  | 0, src => (.ok ⟨[], rfl⟩, src)
  | _ + 1, [] => (.error .unexpectedEof, [])
  | n + 1, none :: src => readExactTokio (n + 1) src
  | _ + 1, some (.fail e) :: src => (.error e, src)
  | n + 1, some (.data b bs) :: src =>
    if h : n + 1 ≤ (b :: bs).length then
      (.ok (Block.cut (b :: bs) h), (Event.rest ((b :: bs).drop (n + 1))).map some ++ src)
    else after (b :: bs) (by omega) (readExactTokio (n + 1 - (b :: bs).length) src)

def pieces (src : List (Option Event)) : List Event := src.filterMap id

@[simp] theorem pieces_some (e : Event) (src : List (Option Event)) : pieces (some e :: src) = e :: pieces src := rfl

@[simp] theorem pieces_rest (l : List Event) (src : List (Option Event)) :
    pieces (l.map some ++ src) = l ++ pieces src := by
  rw [pieces, List.filterMap_append, List.filterMap_map, Function.id_comp, List.filterMap_some, pieces]

def tokioBytes (src : List (Option Event)) : Bytes := stdBytes (pieces src)

def TokioWhole (src : List (Option Event)) : Prop := ∀ e, some (Event.fail e) ∉ src

theorem tokio_ok (n : Nat) (src : List (Option Event)) : ∀ {b src'}, readExactTokio n src = (.ok b, src') →
    tokioBytes src = b.1 ++ tokioBytes src' := by
  fun_induction readExactTokio n src with
  | case1 src => rintro b src' ⟨⟩; rfl
  | case2 n => rintro b src' ⟨⟩
  | case3 n src ih => exact ih
  | case4 n e src => rintro b src' ⟨⟩
  | case5 n b bs src h =>
    rintro b' src' ⟨⟩
    simp only [tokioBytes, stdBytes, pieces_some, pieces_rest, List.flatMap_cons, List.flatMap_append, Event.rest_bytes,
      Event.bytes]
    rw [← List.append_assoc, cut_append_drop]
  | case6 n b bs src h ih =>
    intro b' src' hr
    obtain ⟨a, ha, rfl⟩ := after_ok hr
    have := ih ha
    simp only [tokioBytes, stdBytes, pieces_some, List.flatMap_cons, Event.bytes] at this ⊢
    rw [this, Block.extend, List.append_assoc]

/-- While no read fails, the polled loop returns what the blocking one does on the same pieces. -/
theorem tokio_std (n : Nat) (src : List (Option Event)) : TokioWhole src → ∃ src',
    readExactTokio n src = ((readExactStd n (pieces src)).1, src') ∧ pieces src' = (readExactStd n (pieces src)).2 ∧
      TokioWhole src' := by
  fun_induction readExactTokio n src with
  | case1 src => exact fun hw => ⟨src, by rw [readExactStd], by rw [readExactStd], hw⟩
  | case2 n => exact fun hw => ⟨[], rfl, rfl, hw⟩
  | case3 n src ih => exact fun hw => ih fun e he => hw e (List.mem_cons_of_mem _ he)
  | case4 n e src => exact fun hw => absurd (List.mem_cons_self ..) (hw e)
  | case5 n b bs src h =>
    intro hw
    rw [pieces_some, readExactStd, dif_pos h]
    refine ⟨_, rfl, pieces_rest .., ?_⟩
    intro e he
    rcases List.mem_append.mp he with he | he
    · exact absurd (by simpa using he) Event.fail_not_mem_rest
    · exact hw e (List.mem_cons_of_mem _ he)
  | case6 n b bs src h ih =>
    intro hw
    obtain ⟨src', hr, hs, hw'⟩ := ih fun e he => hw e (List.mem_cons_of_mem _ he)
    rw [pieces_some, readExactStd, dif_neg h, hr]
    exact ⟨src', rfl, hs, hw'⟩

theorem TokioWhole.std {src : List (Option Event)} (h : TokioWhole src) : StdWhole (pieces src) := by
  intro e he
  obtain ⟨o, ho, hoe⟩ := List.mem_filterMap.mp he
  have : o = some (.fail e) := hoe
  exact absurd (this ▸ ho) (h e)

def tokio : Reader (List (Option Event)) where
  readExact := readExactTokio
  bytes := tokioBytes
  Whole := TokioWhole
  readExact_ok := tokio_ok _ _
  readExact_enough := by
    intro n src hw hl
    obtain ⟨src', hr, -, hw'⟩ := tokio_std n src hw
    obtain ⟨b, _, hb, _⟩ := std_enough n _ hw.std hl
    exact ⟨b, src', by rw [hr, hb], hw'⟩
  readExact_short := by
    intro n src hw hl
    obtain ⟨src', hr, hs, hw'⟩ := tokio_std n src hw
    obtain ⟨s, hb, hn, -⟩ := std_short n _ hw.std hl
    refine ⟨src', by rw [hr, hb], ?_, hw'⟩
    rw [tokioBytes, hs, hb]
    exact hn

end Reader

end Lib
