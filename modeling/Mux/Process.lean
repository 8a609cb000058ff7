import Mathlib.Data.List.Chain

/-!
# Process ancestry over pidfds

`audio/process.rs` walks from the process that opened the audio socket up to a
terminal's child, reading `PIDFD_GET_INFO` link by link, and reads every handle a
second time before it answers. The kernel is a history: at each instant which
processes have a pid and which process is whose parent. One call of `ancestor`
makes its system calls one after the other, at instants `clock 0 ≤ clock 1 ≤ ..`;
between two of them the history moves as it likes.
-/

namespace Mux.Process

/-- The fields of `pidfd_info` that `identity` reads. -/
structure Info where
  mask : Nat
  pid : Nat
  tgid : Nat
  parent : Nat
  realUid : Nat
  effectiveUid : Nat
  savedUid : Nat
  fsUid : Nat
deriving Repr, DecidableEq

structure Identity where
  pid : Nat
  parent : Nat
deriving Repr, DecidableEq

-- `u32::try_into::<i32>().ok()`
def toI32 (n : Nat) : Option Nat :=
  if n < 2147483648 then some n else none

def Info.uids (i : Info) : List Nat :=
  [i.realUid, i.effectiveUid, i.savedUid, i.fsUid]

def Info.identity (i : Info) (uid : Nat) : Option Identity :=
  if i.mask &&& 3 ≠ 3 ∨ i.pid ≠ i.tgid ∨ i.pid = 0 ∨ i.uids ≠ List.replicate 4 uid then none
  else (toI32 i.pid).bind fun pid => (toI32 i.parent).map fun parent => ⟨pid, parent⟩

/-! ## The kernel -/

/-- A kernel history over processes `P`. `info t p` is what `PIDFD_GET_INFO` answers at
instant `t` on a pidfd of `p`, `pidfdOpen t n` the process `pidfd_open(n)` pins then. -/
structure Kernel (P : Type) where
  info : Nat → P → Option Info
  pidfdOpen : Nat → Nat → Option P
  pid : Nat → P → Option Nat
  parent : Nat → P → Option P

variable {P : Type}

-- The number that stands in the parent field: the pid of the parent at that instant.
def Kernel.parentPid (K : Kernel P) (t : Nat) (p : P) : Option Nat :=
  (K.parent t p).bind (K.pid t)

/-- What is assumed of the kernel. -/
structure Kernel.Lawful (K : Kernel P) : Prop where
  info_pid : ∀ {t p i}, K.info t p = some i → K.pid t p = some i.pid
  -- a parent outside the pid namespace reads as 0
  info_parent : ∀ {t p i}, K.info t p = some i → i.parent ≠ 0 → K.parentPid t p = some i.parent
  open_pid : ∀ {t n p}, K.pidfdOpen t n = some p → K.pid t p = some n
  -- a process keeps one pid from its creation until it is reaped
  pinned : ∀ {p t s u m n}, t ≤ s → s ≤ u → K.pid t p = some m → K.pid u p = some n → K.pid s p = some m
  not_reused : ∀ {t p q r n}, K.parent t p = some q → K.pid t q = some n → K.pid t r = some n → r = q
  never_returns : ∀ {p t s u n}, t ≤ s → s ≤ u → K.parentPid t p = some n → K.parentPid u p = some n →
    K.parentPid s p = some n

def Kernel.identity (K : Kernel P) (uid t : Nat) (p : P) : Option Identity :=
  (K.info t p).bind fun i => i.identity uid

/-! ## The search -/

structure Outcome where
  owner : Option Nat
  rounds : Nat
  calls : Nat
deriving Repr, DecidableEq

section
variable (K : Kernel P) (clock : Nat → Nat) (uid : Nat)

-- `all` stops at the first handle that no longer reads as before.
def recheck : Nat → List (P × Identity) → Bool × Nat
  | c, [] => (true, c)
  | c, (handle, before) :: rest =>
    if K.identity uid (clock c) handle = some before then recheck (c + 1) rest else (false, c + 1)

variable (owns : Nat → Bool) (peer : P)

def confirm (round c : Nat) (handles : List P) (identities : List Identity) (pid : Nat) : Outcome :=
  if K.identity uid (clock c) peer ≠ identities.head? then ⟨none, round, c + 1⟩
  else
    let checked := recheck K clock uid (c + 1) (handles.zip identities.tail)
    ⟨if checked.1 then some pid else none, round, checked.2⟩

/-- The loop of `ancestor`: `rounds` iterations are done, `calls` system calls were made. -/
def climb : Nat → Nat → Nat → List P → List Identity → Outcome
  | 0, rounds, calls, _, _ => ⟨none, rounds, calls⟩
  | fuel + 1, rounds, calls, handles, identities =>
    match K.identity uid (clock calls) (handles.getLast?.getD peer) with
    | none => ⟨none, rounds + 1, calls + 1⟩
    | some identity =>
      if identity.pid ≤ 1 ∨ identities.any fun seen => seen.pid == identity.pid then ⟨none, rounds + 1, calls + 1⟩
      else if owns identity.pid then
        confirm K clock uid peer (rounds + 1) (calls + 1) handles (identities ++ [identity]) identity.pid
      else
        match K.pidfdOpen (clock (calls + 1)) identity.parent with
        | none => ⟨none, rounds + 1, calls + 2⟩
        | some q => climb fuel (rounds + 1) (calls + 2) (handles ++ [q]) (identities ++ [identity])

def ancestor : Outcome :=
  climb K clock uid owns peer 128 0 0 [] []

end

/-! ## The terminal a peer belongs to -/

/-- `Manager::audio_session`: `sessions` is the table as it was locked, `exited t s` the flag of
`s` at instant `t`; the flag is read again after the search, at `later`. -/
def audioSession {S : Type} (K : Kernel P) (clock : Nat → Nat) (uid : Nat) (peer : P) (child : S → Nat)
    (exited : Nat → S → Bool) (sessions : List S) (locked later : Nat) : Option S :=
  let roots := (sessions.filter fun s => !exited locked s).map fun s => (child s, s)
  (ancestor K clock uid (fun pid => roots.any fun r => r.1 == pid) peer).owner.bind fun owner =>
    (roots.reverse.lookup owner).bind fun session => if exited later session then none else some session

end Mux.Process
