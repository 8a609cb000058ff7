import Mux.Lib.Run
import Mux.TokenSound

/-!
# First use of the token file

`load_or_generate_token` reads the file, and writes a token it has drawn if there is none: it
opens the file with truncation, writes and sets the mode, each a step that other calls on the
same path can come between.
-/

namespace Mux.TokenRace

open Lib Tokens

/-- A call; from `opening` to `permitting` it has the bytes it has drawn. -/
inductive Phase where
  | reading
  | opening (random : Digest)
  | writing (random : Digest)
  | permitting (random : Digest)
  | returned (token : Text)
  | failed
  deriving DecidableEq

/-- `none` is a file that is not there. -/
structure State where
  file : Option Text
  calls : List Phase
  deriving DecidableEq

def start (file : Option Text) : State := ⟨file, []⟩

/-- The token that a call would find. -/
def stored (file : Option Text) : Text := trim (file.getD [])

/-- What a call does at its phase; `random` is used by a call that finds no token, and `ok` is
whether the file system lets it through. A write goes to the start of the file. -/
def next (file : Option Text) (random : Digest) (ok : Bool) : Phase → Option (Option Text × Phase)
  | .reading => some (file, if stored file = [] then .opening random else .returned (stored file))
  | .opening d => some (if ok then (some [], .writing d) else (file, .failed))
  | .writing d =>
    some (if ok then (some (d.hex ++ (file.getD []).drop d.hex.length), .permitting d) else (file, .failed))
  | .permitting d => some (file, if ok then .returned d.hex else .failed)
  | .returned _ | .failed => none

inductive Label where
  | call
  | go (k : Nat) (random : Digest) (ok : Bool)

def step (s : State) : Label → Option State
  | .call => some { s with calls := s.calls ++ [.reading] }
  | .go k random ok => s.calls[k]?.bind fun p => (next s.file random ok p).map fun q => ⟨q.1, s.calls.set k q.2⟩

def Phase.ended : Phase → Bool
  | .returned _ | .failed => true
  | _ => false

/-- Once every call has ended, the file has the token that each of them has returned. -/
def OneIdentity (t : State) : Prop :=
  (∀ p ∈ t.calls, p.ended = true) → ∀ token, .returned token ∈ t.calls → stored t.file = token

/-- About to open the file with truncation, or to write it. -/
def Phase.stores : Phase → Bool
  | .opening _ | .writing _ => true
  | _ => false

/-- A call truncates or writes the file only while there is no token in it. -/
def Unshared (s : State) : Label → Prop
  | .call => True
  | .go k _ _ => s.calls[k]?.any Phase.stores = true → stored s.file = []

instance (s : State) : ∀ a, Decidable (Unshared s a)
  | .call => inferInstanceAs (Decidable True)
  | .go .. => inferInstanceAs (Decidable (_ → _))

/-! ## One call draws the token -/

structure Inv (s : State) : Prop where
  agreed : ∀ token, .returned token ∈ s.calls → stored s.file = token ∧ token ≠ []
  written : ∀ d, .permitting d ∈ s.calls → stored s.file = d.hex
  /-- A call that has truncated the file finds it empty, or with a token. -/
  truncated : ∀ d, .writing d ∈ s.calls → s.file = some [] ∨ stored s.file ≠ []

theorem inv_start (file : Option Text) : Inv (start file) := by
  constructor <;> simp [start]

theorem stored_hex (d : Digest) : stored (some d.hex) = d.hex := trim_of_word (isWord_hex d)

theorem hex_ne_nil (d : Digest) : d.hex ≠ [] := (isWord_hex d).ne_nil

/-- As long as there is no token, no call has returned or is about to. -/
theorem Inv.none_of_empty {s : State} (h : Inv s) (he : stored s.file = []) :
    (∀ token, .returned token ∉ s.calls) ∧ ∀ d, .permitting d ∉ s.calls := by
  refine ⟨fun token hm => ?_, fun d hm => ?_⟩
  · obtain ⟨h1, h2⟩ := h.agreed token hm
    exact h2 (h1 ▸ he)
  · exact hex_ne_nil d (h.written d hm ▸ he)

/-- A step that leaves the file alone. -/
theorem Inv.keep {s : State} (h : Inv s) {l : List Phase} {q : Phase} (hl : ∀ p ∈ l, p ∈ s.calls ∨ p = q)
    (hr : ∀ token, q = .returned token → stored s.file = token ∧ token ≠ []) (hp : ∀ d, q = .permitting d → stored s.file = d.hex)
    (hw : ∀ d, q ≠ .writing d) : Inv { s with calls := l } where
  agreed := by
    intro token hm
    rcases hl _ hm with hm | hm
    · exact h.agreed token hm
    · exact hr token hm.symm
  written := by
    intro d hm
    rcases hl _ hm with hm | hm
    · exact h.written d hm
    · exact hp d hm.symm
  truncated := by
    intro d hm
    rcases hl _ hm with hm | hm
    · exact h.truncated d hm
    · exact absurd hm.symm (hw d)

theorem Inv.opened {s : State} (h : Inv s) (he : stored s.file = []) {l : List Phase} {d : Digest}
    (hl : ∀ p ∈ l, p ∈ s.calls ∨ p = .writing d) : Inv ⟨some [], l⟩ where
  agreed := by
    intro token hm
    rcases hl _ hm with hm | hm
    · exact absurd hm ((h.none_of_empty he).1 token)
    · cases hm
  written := by
    intro e hm
    rcases hl _ hm with hm | hm
    · exact absurd hm ((h.none_of_empty he).2 e)
    · cases hm
  truncated := fun _ _ => .inl rfl

theorem Inv.wrote {s : State} (h : Inv s) (he : stored s.file = []) {l : List Phase} {d : Digest}
    (hl : ∀ p ∈ l, p ∈ s.calls ∨ p = .permitting d) : Inv ⟨some d.hex, l⟩ where
  agreed := by
    intro token hm
    rcases hl _ hm with hm | hm
    · exact absurd hm ((h.none_of_empty he).1 token)
    · cases hm
  written := by
    intro e hm
    rcases hl _ hm with hm | hm
    · exact absurd hm ((h.none_of_empty he).2 e)
    · cases hm
      exact stored_hex d
  truncated := fun _ _ => .inr (by rw [stored_hex]; exact hex_ne_nil d)

theorem Inv.step {s s' : State} {a : Label} (h : Inv s) (hG : Unshared s a) (hs : step s a = some s') : Inv s' := by
  cases a with
  | call =>
    cases hs
    refine h.keep (q := .reading) (fun p hp => ?_) (fun _ h => by cases h) (fun _ h => by cases h) (fun _ h => by cases h)
    simpa using hp
  | go k random ok =>
    obtain ⟨p, hk, hs⟩ := Option.bind_eq_some_iff.mp hs
    obtain ⟨⟨file, q⟩, hn, rfl⟩ := Option.map_eq_some_iff.mp hs
    have hmem := List.mem_of_getElem? hk
    have hl : ∀ r ∈ s.calls.set k q, r ∈ s.calls ∨ r = q := fun r hr => List.mem_or_eq_of_mem_set hr
    cases p with
    | reading =>
      cases hn
      refine h.keep hl (fun token hq => ?_) (fun d hq => ?_) (fun d hq => ?_)
      · split at hq
        · cases hq
        · cases hq
          exact ⟨rfl, ‹_›⟩
      · split at hq <;> cases hq
      · split at hq <;> cases hq
    | opening d =>
      have he := hG (by simp [hk, Phase.stores])
      cases ok with
      | true => cases hn; exact h.opened he hl
      | false => cases hn; exact h.keep hl (fun _ h => by cases h) (fun _ h => by cases h) (fun _ h => by cases h)
    | writing d =>
      have he := hG (by simp [hk, Phase.stores])
      cases ok with
      | true =>
        have hfile : s.file = some [] := (h.truncated d hmem).resolve_right fun hne => hne he
        have hnew : d.hex ++ (s.file.getD []).drop d.hex.length = d.hex := by simp [hfile]
        simp only [next, if_true, hnew] at hn
        cases hn
        exact h.wrote he hl
      | false => cases hn; exact h.keep hl (fun _ h => by cases h) (fun _ h => by cases h) (fun _ h => by cases h)
    | permitting d =>
      cases ok with
      | true =>
        cases hn
        refine h.keep hl (fun token hq => ?_) (fun _ h => by cases h) (fun _ h => by cases h)
        cases hq
        exact ⟨h.written d hmem, hex_ne_nil d⟩
      | false => cases hn; exact h.keep hl (fun _ h => by cases h) (fun _ h => by cases h) (fun _ h => by cases h)
    | returned token => cases hn
    | failed => cases hn

/-- As long as no call truncates or writes over another's token, all calls return the token that
the file has. -/
theorem one_identity {file : Option Text} {as : List Label} {t : State} (hm : Meets step Unshared (start file) as)
    (h : exec step (start file) as = some t) : OneIdentity t := by
  intro _ token ht
  have hinv : Inv t := exec_inv_of_meets (fun _ _ _ hG hs hi => hi.step hG hs) hm h (inv_start file)
  exact (hinv.agreed token ht).1

def zeros : Digest := ⟨List.replicate 32 0, rfl⟩

def ones : Digest := ⟨List.replicate 32 1, rfl⟩

/-- The first call generates the token before the second one reads. -/
def inTurn : List Label :=
  [.call, .call, .go 0 zeros true, .go 0 zeros true, .go 0 zeros true, .go 0 zeros true, .go 1 ones true]

theorem one_identity_in_turn :
    Meets step Unshared (start none) inTurn ∧ ∃ t, exec step (start none) inTurn = some t ∧
      t.calls = [.returned zeros.hex, .returned zeros.hex] ∧ OneIdentity t := by
  have hm : Meets step Unshared (start none) inTurn := by decide +kernel
  exact ⟨hm, _, rfl, by decide +kernel, one_identity hm rfl⟩

/-- Two calls find no token; each stores its own and returns it. -/
theorem two_identities :
    ¬ ∀ (file : Option Text) (as : List Label) (t : State), exec step (start file) as = some t → OneIdentity t := by
  intro h
  have hid := h none [.call, .call, .go 0 zeros true, .go 1 ones true, .go 0 zeros true, .go 0 zeros true, .go 0 zeros true,
    .go 1 ones true, .go 1 ones true, .go 1 ones true] _ rfl (by decide +kernel) zeros.hex (by decide +kernel)
  exact absurd hid (by decide +kernel)

end Mux.TokenRace
