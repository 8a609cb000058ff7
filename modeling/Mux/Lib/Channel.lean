/-!
# Bounded channels

A channel holds at most `depth` messages between its senders and its one receiver.
`taken` keeps what the receiver has already drawn, so `log` is every message the
channel ever accepted, in order.
-/

namespace Lib

structure Channel (α : Type) (depth : Nat) where
  taken : List α
  queue : List α
  rxOpen : Bool
  bounded : queue.length ≤ depth

namespace Channel

section
variable {α : Type} {depth : Nat}

def new : Channel α depth := ⟨[], [], true, Nat.zero_le _⟩

def log (c : Channel α depth) : List α := c.taken ++ c.queue

/-- A send that does not have to wait: none when the queue is full or the
receiver is gone. -/
def send (c : Channel α depth) (m : α) : Option (Channel α depth) :=
  if h : c.rxOpen ∧ c.queue.length < depth then
    some { c with
      queue := c.queue ++ [m]
      bounded := by rw [List.length_append, List.length_singleton]; exact h.2 }
  else none

def recv (c : Channel α depth) : Option (α × Channel α depth) :=
  match h : c.queue with
  | [] => none
  | m :: ms => some (m, { c with
      taken := c.taken ++ [m]
      queue := ms
      bounded := by
        have := c.bounded
        rw [h, List.length_cons] at this
        omega })

def close (c : Channel α depth) : Channel α depth := { c with rxOpen := false }

@[simp] theorem log_new : (new : Channel α depth).log = [] := rfl

@[simp] theorem log_close (c : Channel α depth) : c.close.log = c.log := rfl

theorem log_send {c c' : Channel α depth} {m : α} (h : c.send m = some c') : c'.log = c.log ++ [m] := by
  unfold send at h
  split at h
  · cases h; simp [log]
  · cases h

theorem log_recv {c c' : Channel α depth} {m : α} (h : c.recv = some (m, c')) : c'.log = c.log := by
  unfold recv at h
  split at h
  · cases h
  · rename_i ms hq
    cases h
    simp [log, hq]

end

end Channel

end Lib
