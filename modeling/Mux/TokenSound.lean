import Mux.Tokens

/-!
# Enrolment and admission agree

The printer, the parser of the enrolled file, the loader of the token and the check of a
request use one spelling of a digest and one spelling of a token.
-/

namespace Mux.Tokens

open Lib

/-! ## A digest and its line -/

theorem length_hex (d : Digest) : d.hex.length = 64 := by
  rw [Digest.hex, length_hexEncode, d.2]

theorem isWord_hex (d : Digest) : IsWord d.hex := by
  refine ⟨fun h => ?_, fun c hc => lower_not_space (lower_of_mem_hexEncode hc)⟩
  have hlen := length_hex d
  simp [h] at hlen

/-- The lines of the file that count. -/
def entries (ls : List Text) : List Text := (ls.map trim).filter fun l => !skipped l

theorem admitRemote_ok {sha : Text → Digest} {admitted : List Digest} {request : OpenRequest} :
    admitRemote sha admitted request = .ok () ↔
      request.target = none ∧ ∃ token, request.token = some token ∧ sha token ∈ admitted := by
  unfold admitRemote
  cases ht : request.token with
  | none => simp
  | some token =>
    cases hg : request.target with
    | none => simp
    | some host => by_cases hm : sha token ∈ admitted <;> simp [hm]

end Mux.Tokens
