import Mux.Lib.Text

/-!
# Hexadecimal text

Encoding writes two lower-case digits for each byte; decoding takes either case.
-/

namespace Lib

def lowerDigits : Text := "0123456789abcdef".toList

def upperDigits : Text := "ABCDEF".toList

def hexDigit (n : Nat) : Char := lowerDigits.getD n '0'

def hexValue (c : Char) : Option Nat := (lowerDigits.idxOf? c).or ((upperDigits.idxOf? c).map (· + 10))

def encodeByte (b : UInt8) : Text := [hexDigit (b.toNat / 16), hexDigit (b.toNat % 16)]

def hexEncode (bytes : List UInt8) : Text := bytes.flatMap encodeByte

theorem hexValue_hexDigit : ∀ n < 16, hexValue (hexDigit n) = some n := by decide

theorem hexDigit_mem : ∀ n < 16, lowerDigits.contains (hexDigit n) = true := by decide

theorem hexValue_lower {c : Char} (h : lowerDigits.contains c = true) :
    ∃ n < 16, hexValue c = some n ∧ hexDigit n = c := by
  obtain ⟨n, hn⟩ := List.mem_iff_getElem?.mp (List.contains_iff_mem.mp h)
  have hlt : n < 16 := (List.getElem?_eq_some_iff.mp hn).1
  have hd : hexDigit n = c := by
    unfold hexDigit
    rw [List.getD_eq_getElem?_getD, hn]
    rfl
  refine ⟨n, hlt, ?_, hd⟩
  rw [← hd]
  exact hexValue_hexDigit n hlt

theorem lower_not_space {c : Char} (h : lowerDigits.contains c = true) : isWhitespace c = false := by
  have hall : ∀ n < 16, isWhitespace (hexDigit n) = false := by decide
  obtain ⟨n, hn, -, rfl⟩ := hexValue_lower h
  exact hall n hn

theorem hexEncode_cons (b : UInt8) (bytes : List UInt8) :
    hexEncode (b :: bytes) = hexDigit (b.toNat / 16) :: hexDigit (b.toNat % 16) :: hexEncode bytes := rfl

theorem length_hexEncode (bytes : List UInt8) : (hexEncode bytes).length = 2 * bytes.length := by
  induction bytes with
  | nil => rfl
  | cons b bytes ih =>
    rw [hexEncode_cons, List.length_cons, List.length_cons, List.length_cons, ih]
    omega

theorem lower_of_mem_hexEncode {bytes : List UInt8} {c : Char} (h : c ∈ hexEncode bytes) :
    lowerDigits.contains c = true := by
  obtain ⟨b, -, hc⟩ := List.mem_flatMap.mp h
  have hb := b.toNat_lt
  rcases List.mem_cons.mp hc with rfl | hc
  · exact hexDigit_mem _ (by omega)
  · rw [List.mem_singleton.mp hc]
    exact hexDigit_mem _ (by omega)

end Lib
