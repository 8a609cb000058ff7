import Mux.Lib.Bytes

/-!
# Control sequences

A byte stream to a terminal is text with escape sequences in it. `Parser.next` reads one
byte; what a finished sequence asks for is an `Action`, and what an action does to a state
is left to the reader of this file. For each kind of sequence there is the byte string that
encodes it and the lemma that feeding these bytes performs exactly that action.
-/

namespace Lib.Vt

inductive Action where
  | print (c : Char)
  | execute (b : UInt8)
  | esc (b : UInt8)
  | designate (slot set : UInt8)
  | csi (mark : Option UInt8) (params : List Nat) (last : UInt8)
  | osc (payload : Bytes)
deriving Repr, DecidableEq

inductive Parser where
  | ground
  | escape
  | designating (slot : UInt8)
  | csi (mark : Option UInt8) (params : List Nat) (current : Nat)
  | osc (payload : Bytes)
  | oscEscape (payload : Bytes)
  | utf8 (need value : Nat)
deriving Repr, DecidableEq

def Parser.next : Parser → UInt8 → Parser × List Action
  | .ground, b =>
    if b.toNat = 0x1b then (.escape, [])
    else if b.toNat < 0x20 then (.ground, [.execute b])
    else if b.toNat < 0x7f then (.ground, [.print (Char.ofNat b.toNat)])
    else if b.toNat < 0xc0 then (.ground, [])
    else if b.toNat < 0xe0 then (.utf8 1 (b.toNat - 0xc0), [])
    else if b.toNat < 0xf0 then (.utf8 2 (b.toNat - 0xe0), [])
    else if b.toNat < 0xf8 then (.utf8 3 (b.toNat - 0xf0), [])
    else (.ground, [])
  | .escape, b =>
    if b.toNat = 0x5b then (.csi none [] 0, [])
    else if b.toNat = 0x5d then (.osc [], [])
    else if 0x28 ≤ b.toNat ∧ b.toNat ≤ 0x2f then (.designating b, [])
    else (.ground, [.esc b])
  | .designating slot, b => (.ground, [.designate slot b])
  | .csi mark params current, b =>
    if 0x30 ≤ b.toNat ∧ b.toNat ≤ 0x39 then (.csi mark params (10 * current + (b.toNat - 0x30)), [])
    else if b.toNat = 0x3b then (.csi mark (params ++ [current]) 0, [])
    else if 0x3c ≤ b.toNat ∧ b.toNat ≤ 0x3f then (.csi (some b) params current, [])
    else if 0x40 ≤ b.toNat ∧ b.toNat ≤ 0x7e then (.ground, [.csi mark (params ++ [current]) b])
    else (.csi mark params current, [])
  | .osc payload, b =>
    if b.toNat = 0x1b then (.oscEscape payload, [])
    else if b.toNat = 0x07 then (.ground, [.osc payload])
    else (.osc (payload ++ [b]), [])
  | .oscEscape payload, b =>
    if b.toNat = 0x5c then (.ground, [.osc payload]) else (.ground, [.osc payload, .esc b])
  | .utf8 need value, b =>
    if 0x80 ≤ b.toNat ∧ b.toNat < 0xc0 then
      let value := 64 * value + (b.toNat - 0x80)
      if need ≤ 1 then (.ground, [.print (Char.ofNat value)]) else (.utf8 (need - 1) value, [])
    else (.ground, [.print (Char.ofNat 0xfffd)])

section
variable {σ : Type} (act : σ → Action → σ)

def feedByte (s : Parser × σ) (b : UInt8) : Parser × σ :=
  ((s.1.next b).1, (s.1.next b).2.foldl act s.2)

def feed (s : Parser × σ) (bytes : Bytes) : Parser × σ :=
  bytes.foldl (feedByte act) s

@[simp] theorem feed_nil (s : Parser × σ) : feed act s [] = s := rfl

@[simp] theorem feed_cons (s : Parser × σ) (b : UInt8) (bytes : Bytes) :
    feed act s (b :: bytes) = feed act (feedByte act s b) bytes := rfl

theorem feed_append (s : Parser × σ) (as bs : Bytes) : feed act s (as ++ bs) = feed act (feed act s as) bs :=
  List.foldl_append

/-! ## Sequences -/

def decimal (n : Nat) : Bytes := (Nat.toDigits 10 n).map fun c => UInt8.ofNat c.toNat

def paramBytes : List Nat → Bytes
  | [] => []
  | [n] => decimal n
  | n :: rest => decimal n ++ 0x3b :: paramBytes rest

def csi (mark : Option UInt8) (params : List Nat) (last : UInt8) : Bytes :=
  0x1b :: 0x5b :: (mark.toList ++ paramBytes params ++ [last])

def esc (b : UInt8) : Bytes := [0x1b, b]

def osc (payload : Bytes) : Bytes := 0x1b :: 0x5d :: (payload ++ [0x1b, 0x5c])

/-! ## Control sequences with parameters -/

theorem digit_bounds {c : Char} (h : c.isDigit = true) :
    (UInt8.ofNat c.toNat).toNat = c.toNat ∧ 0x30 ≤ c.toNat ∧ c.toNat ≤ 0x39 := by
  simp only [Char.isDigit, Bool.and_eq_true, decide_eq_true_eq, ge_iff_le, UInt32.le_iff_toNat_le] at h
  have h1 : 0x30 ≤ c.toNat := h.1
  have h2 : c.toNat ≤ 0x39 := h.2
  refine ⟨?_, h1, h2⟩
  rw [UInt8.toNat_ofNat']
  omega

theorem feed_digits (mark : Option UInt8) (params : List Nat) (s : σ) : ∀ (cs : List Char) (current : Nat),
    (∀ c ∈ cs, c.isDigit = true) →
    feed act (.csi mark params current, s) (cs.map fun c => UInt8.ofNat c.toNat) =
      (.csi mark params (Nat.ofDigitChars 10 cs current), s) := by
  intro cs
  induction cs with
  | nil => intro current _; rfl
  | cons c cs ih =>
    intro current h
    obtain ⟨hb, h1, h2⟩ := digit_bounds (h c List.mem_cons_self)
    rw [List.map_cons, feed_cons, Nat.ofDigitChars_cons]
    have hstep : feedByte act (.csi mark params current, s) (UInt8.ofNat c.toNat) =
        (.csi mark params (10 * current + (c.toNat - '0'.toNat)), s) := by
      simp only [feedByte, Parser.next, hb]
      rw [if_pos ⟨h1, h2⟩]
      rfl
    rw [hstep]
    exact ih _ fun c hc => h c (List.mem_cons_of_mem _ hc)

theorem feed_decimal (mark : Option UInt8) (params : List Nat) (n : Nat) (s : σ) :
    feed act (.csi mark params 0, s) (decimal n) = (.csi mark params n, s) := by
  unfold decimal
  rw [feed_digits act mark params s _ 0 fun c hc => Nat.isDigit_of_mem_toDigits (by omega) (by omega) hc]
  rw [Nat.ofDigitChars_toDigits (by omega) (by omega)]

theorem feed_params (mark : Option UInt8) (s : σ) {last : UInt8} (hl : 0x40 ≤ last.toNat ∧ last.toNat ≤ 0x7e) :
    ∀ (params done : List Nat), params ≠ [] →
    feed act (.csi mark done 0, s) (paramBytes params ++ [last]) =
      (.ground, act s (.csi mark (done ++ params) last)) := by
  intro params
  induction params with
  | nil => intro _ h; exact absurd rfl h
  | cons n rest ih =>
    intro done _
    cases rest with
    | nil =>
      rw [paramBytes, feed_append, feed_decimal]
      simp only [feed_cons, feed_nil, feedByte, Parser.next]
      rw [if_neg (by omega), if_neg (by omega), if_neg (by omega), if_pos hl]
      rfl
    | cons m rest =>
      have hsep : feedByte act (.csi mark done n, s) 0x3b = (.csi mark (done ++ [n]) 0, s) := rfl
      rw [paramBytes, List.append_assoc, feed_append, feed_decimal, List.cons_append, feed_cons, hsep,
        ih (done ++ [n]) (by simp), List.append_assoc]
      · rfl
      · simp

/-- A mark such as `?` or `>` stands before the parameters. -/
def IsMark (mark : Option UInt8) : Prop := ∀ m ∈ mark, 0x3c ≤ m.toNat ∧ m.toNat ≤ 0x3f

theorem feed_csi (s : σ) {mark : Option UInt8} {params : List Nat} {last : UInt8} (hm : IsMark mark)
    (hp : params ≠ []) (hl : 0x40 ≤ last.toNat ∧ last.toNat ≤ 0x7e) :
    feed act (.ground, s) (csi mark params last) = (.ground, act s (.csi mark params last)) := by
  have hopen : feedByte act (feedByte act (.ground, s) 0x1b) 0x5b = (.csi none [] 0, s) := rfl
  unfold csi
  rw [feed_cons, feed_cons, hopen, List.append_assoc]
  cases mark with
  | none => exact feed_params act none s hl params [] hp
  | some m =>
    have hm := hm m rfl
    have hmark : feedByte act (.csi none [] 0, s) m = (.csi (some m) [] 0, s) := by
      simp only [feedByte, Parser.next]
      rw [if_neg (by omega), if_neg (by omega), if_pos hm]
      rfl
    rw [Option.toList_some, List.singleton_append, feed_cons, hmark]
    exact feed_params act (some m) s hl params [] hp

/-! ## Other sequences and text -/

theorem feed_esc (s : σ) {b : UInt8} (h : 0x30 ≤ b.toNat ∧ b.toNat ≤ 0x5a) :
    feed act (.ground, s) (esc b) = (.ground, act s (.esc b)) := by
  have hopen : feedByte act (.ground, s) 0x1b = (.escape, s) := rfl
  unfold esc
  rw [feed_cons, hopen]
  simp only [feed_cons, feed_nil, feedByte, Parser.next]
  rw [if_neg (by omega), if_neg (by omega), if_neg (by omega)]
  rfl

/-- No byte of the payload ends it. -/
def IsPayload (payload : Bytes) : Prop := ∀ b ∈ payload, b.toNat ≠ 0x1b ∧ b.toNat ≠ 0x07

theorem feed_payload (s : σ) : ∀ (payload done : Bytes), IsPayload payload →
    feed act (.osc done, s) payload = (.osc (done ++ payload), s) := by
  intro payload
  induction payload with
  | nil => intro done _; rw [List.append_nil]; rfl
  | cons b payload ih =>
    intro done h
    obtain ⟨h1, h2⟩ := h b List.mem_cons_self
    have hstep : feedByte act (.osc done, s) b = (.osc (done ++ [b]), s) := by
      simp only [feedByte, Parser.next]
      rw [if_neg h1, if_neg h2]
      rfl
    rw [feed_cons, hstep, ih _ fun b hb => h b (List.mem_cons_of_mem _ hb), List.append_assoc]
    rfl

theorem feed_osc (s : σ) {payload : Bytes} (h : IsPayload payload) :
    feed act (.ground, s) (osc payload) = (.ground, act s (.osc payload)) := by
  have hopen : feedByte act (feedByte act (.ground, s) 0x1b) 0x5d = (.osc [], s) := rfl
  unfold osc
  rw [feed_cons, feed_cons, hopen, feed_append, feed_payload act s payload [] h]
  rfl

/-- A character that is text: no control character and not DEL. -/
def Printable (c : Char) : Prop := 0x20 ≤ c.toNat ∧ c.toNat ≠ 0x7f

theorem feed_continuation (s : σ) (value n : Nat) :
    feedByte act (.utf8 1 value, s) (UInt8.ofNat (n % 64 + 0x80)) =
      (.ground, act s (.print (Char.ofNat (64 * value + n % 64)))) ∧
    ∀ need, feedByte act (.utf8 (need + 2) value, s) (UInt8.ofNat (n % 64 + 0x80)) =
      (.utf8 (need + 1) (64 * value + n % 64), s) := by
  have hn : (UInt8.ofNat (n % 64 + 0x80)).toNat = n % 64 + 0x80 := by rw [UInt8.toNat_ofNat']; omega
  refine ⟨?_, fun need => ?_⟩
  · simp only [feedByte, Parser.next, hn]
    rw [if_pos (by omega), if_pos (by omega), Nat.add_sub_cancel]
    rfl
  · simp only [feedByte, Parser.next, hn]
    rw [if_pos (by omega), if_neg (by omega), Nat.add_sub_cancel]
    rfl

theorem feed_lead (s : σ) (n : Nat) :
    feedByte act (.ground, s) (UInt8.ofNat (n % 32 + 0xc0)) = (.utf8 1 (n % 32), s) ∧
    feedByte act (.ground, s) (UInt8.ofNat (n % 16 + 0xe0)) = (.utf8 2 (n % 16), s) ∧
    feedByte act (.ground, s) (UInt8.ofNat (n % 8 + 0xf0)) = (.utf8 3 (n % 8), s) := by
  have h2 : (UInt8.ofNat (n % 32 + 0xc0)).toNat = n % 32 + 0xc0 := by rw [UInt8.toNat_ofNat']; omega
  have h3 : (UInt8.ofNat (n % 16 + 0xe0)).toNat = n % 16 + 0xe0 := by rw [UInt8.toNat_ofNat']; omega
  have h4 : (UInt8.ofNat (n % 8 + 0xf0)).toNat = n % 8 + 0xf0 := by rw [UInt8.toNat_ofNat']; omega
  refine ⟨?_, ?_, ?_⟩
  · simp only [feedByte, Parser.next, h2]
    rw [if_neg (by omega), if_neg (by omega), if_neg (by omega), if_neg (by omega), if_pos (by omega),
      Nat.add_sub_cancel]
    rfl
  · simp only [feedByte, Parser.next, h3]
    rw [if_neg (by omega), if_neg (by omega), if_neg (by omega), if_neg (by omega), if_neg (by omega),
      if_pos (by omega), Nat.add_sub_cancel]
    rfl
  · simp only [feedByte, Parser.next, h4]
    rw [if_neg (by omega), if_neg (by omega), if_neg (by omega), if_neg (by omega), if_neg (by omega),
      if_neg (by omega), if_pos (by omega), Nat.add_sub_cancel]
    rfl

theorem toNat_lt_max (c : Char) : c.toNat < 0x110000 := by
  obtain h | h := c.valid
  · exact Nat.lt_trans h (by decide)
  · exact h.2

theorem feed_utf8 (s : σ) {c : Char} (h : Printable c) :
    feed act (.ground, s) (String.utf8EncodeChar c) = (.ground, act s (.print c)) := by
  obtain ⟨h1, h2⟩ := h
  have hmax := toNat_lt_max c
  have hprint : ∀ n, n = c.toNat → Char.ofNat n = c := fun n hn => hn ▸ Char.ofNat_toNat c
  unfold String.utf8EncodeChar
  simp only [Char.toNat_val]
  by_cases hone : c.toNat ≤ 0x7f
  · have hb : (UInt8.ofNat c.toNat).toNat = c.toNat := by rw [UInt8.toNat_ofNat']; omega
    rw [if_pos hone, feed_cons, feed_nil]
    simp only [feedByte, Parser.next, hb]
    rw [if_neg (by omega), if_neg (by omega), if_pos (by omega), hprint _ rfl]
    rfl
  rw [if_neg hone]
  by_cases htwo : c.toNat ≤ 0x7ff
  · rw [if_pos htwo, feed_cons, (feed_lead act s (c.toNat / 64)).1, feed_cons, (feed_continuation act s _ c.toNat).1,
      feed_nil, hprint _ (by omega)]
  rw [if_neg htwo]
  by_cases hthree : c.toNat ≤ 0xffff
  · rw [if_pos hthree, feed_cons, (feed_lead act s (c.toNat / 4096)).2.1, feed_cons,
      (feed_continuation act s _ (c.toNat / 64)).2 0, feed_cons, (feed_continuation act s _ c.toNat).1, feed_nil,
      hprint _ (by omega)]
  · rw [if_neg hthree, feed_cons, (feed_lead act s (c.toNat / 262144)).2.2, feed_cons,
      (feed_continuation act s _ (c.toNat / 4096)).2 1, feed_cons,
      (feed_continuation act s _ (c.toNat / 64)).2 0, feed_cons, (feed_continuation act s _ c.toNat).1, feed_nil,
      hprint _ (by omega)]

end

end Lib.Vt
