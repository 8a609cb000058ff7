import Mux.Lib.Run

/-!
# The broker's connections to one host

A relay opens its stream on the cached connection, or dials one and caches it. The cache is
locked for a lookup only: it is free while a host is dialled and while a stream is opened, and
it is looked up by alias again to evict a connection and to hand one to the audio bridge.
-/

namespace Mux.Broker

open Lib

/-- Where a relay stands. A connection is named by its place among those dialled so far; from
`opening` on it is the one the relay's stream is opened on. -/
inductive Phase where
  | looking
  | dialing
  | dialed (n : Nat)
  | opening (c : Nat)
  | evicting (c : Nat)
  | streaming (c : Nat)
  | audioLooking (c : Nat)
  | bridging (c d : Nat)
  | ended
  deriving DecidableEq

structure Relay where
  audio : Bool
  phase : Phase
  deriving DecidableEq

/-- `conns` says of each connection whether it has no close reason. -/
structure State where
  cached : Option Nat
  conns : List Bool
  relays : List Relay
  deriving DecidableEq

def start : State := ⟨none, [], []⟩

namespace State

def alive (s : State) (c : Nat) : Bool := s.conns[c]? == some true

def close (s : State) (c : Nat) : State := { s with conns := s.conns.set c false }

def goTo (s : State) (k : Nat) (r : Relay) (p : Phase) : State :=
  { s with relays := s.relays.set k { r with phase := p } }

def live (s : State) : Option Nat × State :=
  match s.cached with
  | none => (none, s)
  | some c => if s.alive c then (some c, s) else (none, { s with cached := none })

/-- `connection` after its dial. -/
def insert (s : State) (n : Nat) : Nat × State :=
  match s.cached with
  | some existing => if s.alive existing then (existing, s.close n) else (n, { s with cached := some n })
  | none => (n, { s with cached := some n })

def evict (s : State) : State :=
  match s.cached with
  | some c => { s.close c with cached := none }
  | none => s

end State

/-- How a dial or the opening of a stream ends; `tooLarge` is a request that is not sent. -/
inductive Answer where
  | ok
  | failed
  | tooLarge
  deriving DecidableEq

/-- A stream is opened on a live connection only; the opening can fail on any, by an error or by
the timeout. -/
def go (s : State) (k : Nat) (r : Relay) (answer : Answer) : Option State :=
  match r.phase, answer with
  | .looking, _ =>
    match s.live with
    | (some c, s) => some (s.goTo k r (.opening c))
    | (none, s) => some (s.goTo k r .dialing)
  | .dialing, .ok => some ({ s with conns := s.conns ++ [true] }.goTo k r (.dialed s.conns.length))
  | .dialing, _ => some (s.goTo k r .ended)
  | .dialed n, _ => some ((s.insert n).2.goTo k r (.opening (s.insert n).1))
  | .opening c, .ok =>
    if s.alive c then some (s.goTo k r (if r.audio then .audioLooking c else .streaming c)) else none
  | .opening c, .failed => some (s.goTo k r (.evicting c))
  | .opening _, .tooLarge => some (s.goTo k r .ended)
  | .evicting _, _ => some (s.evict.goTo k r .ended)
  | .audioLooking c, _ =>
    match s.live with
    | (some d, s) => some (s.goTo k r (.bridging c d))
    | (none, s) => some (s.goTo k r .ended)
  | .streaming _, _ | .bridging .., _ | .ended, _ => none

/-- `die` is a connection that the peer or the transport closes, `drop` a relay whose client is
gone. -/
inductive Label where
  | relay (audio : Bool)
  | go (k : Nat) (answer : Answer)
  | drop (k : Nat)
  | die (c : Nat)

def step (s : State) : Label → Option State
  | .relay audio => some { s with relays := s.relays ++ [⟨audio, .looking⟩] }
  | .go k answer => s.relays[k]?.bind fun r => go s k r answer
  | .drop k => s.relays[k]?.map fun r => s.goTo k r .ended
  | .die c => some (s.close c)

end Mux.Broker
