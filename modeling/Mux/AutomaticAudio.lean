import Mux.Subprocess
import Mathlib.Data.List.AList

/-!
# Automatic audio of the app

For every host that is watched the app keeps a helper running, as long as automatic audio is enabled. A helper that
ends or cannot be launched is tried again two seconds later. Turning automatic audio off or on ends all helpers; what
they still have to say is of an old generation and is not listened to.
-/

namespace Mux.AutomaticAudio

open Lib Subprocess

/-- What the closures of a stream have captured. -/
structure Capture where
  host : String
  expected : Nat
deriving DecidableEq, Repr

/-- `streams` are numbers of streams of `main`, and `captures` belong to these numbers. A retry is a host and a
generation. -/
structure State where
  main : Main
  captures : List Capture
  enabled : Bool
  hosts : List String
  streams : AList fun _ : String => Nat
  statuses : AList fun _ : String => String
  generation : Nat
  retries : List Capture

def connecting : String := "Connecting Mac audio…"

def stopped : String := "Audio helper stopped; reconnecting…"

def notStarted : String := "Could not start the bundled audio helper."

def init (enabled : Bool) : State where
  main := .empty
  captures := []
  enabled := enabled
  hosts := []
  streams := ∅
  statuses := ∅
  generation := 0
  retries := []

namespace State

def retry (s : State) (c : Capture) : State := { s with retries := s.retries ++ [c] }

def setStatus (s : State) (host status : String) : State := { s with statuses := s.statuses.insert host status }

/-- `launches` says that the process can be launched. -/
def start (s : State) (host : String) (launches : Bool) : State :=
  let c : Capture := { host := host, expected := s.generation }
  if (s.streams.lookup host).isSome then s
  else if launches then
    { s.setStatus host connecting with
      main := s.main.launch
      captures := s.captures ++ [c]
      streams := s.streams.insert host s.main.streams.length }
  else ((s.setStatus host connecting).setStatus host notStarted).retry c

def stop (s : State) : State :=
  { s with
    generation := s.generation + 1
    main := s.main.terminate (s.streams.entries.map (·.2))
    streams := ∅
    statuses := ∅ }

def watch (s : State) (host : String) (launches : Bool) : State :=
  let s : State := { s with hosts := if host ∈ s.hosts then s.hosts else s.hosts ++ [host] }
  if s.enabled then s.start host launches else s

/-- The setter; `launches` says for which hosts the process can be launched. -/
def setEnabled (s : State) (enabled : Bool) (launches : String → Bool) : State :=
  let s := ({ s with enabled := enabled } : State).stop
  if enabled then s.hosts.foldl (fun s host => s.start host (launches host)) s else s

/-- A closure of a stream on the main thread. -/
def run (s : State) (c : Capture) : Callback → State
  | .line _ text => if s.generation = c.expected then s.setStatus c.host text else s
  | .exit _ =>
    if s.generation = c.expected then
      (({ s with streams := s.streams.erase c.host } : State).setStatus c.host stopped).retry c
    else s

/-- The closure of a retry. -/
def fire (s : State) (c : Capture) (launches : Bool) : State :=
  if s.generation = c.expected ∧ s.enabled = true then s.start c.host launches else s

end State

inductive Label where
  | watch (host : String) (launches : Bool)
  | setEnabled (enabled : Bool) (launches : String → Bool)
  | stop
  | read (id : Nat) (data : Subprocess.Bytes)
  | main
  | fire (i : Nat) (launches : Bool)

def step (s : State) : Label → Option State
  | .watch host launches => some (s.watch host launches)
  | .setEnabled enabled launches => some (s.setEnabled enabled launches)
  | .stop => some s.stop
  | .read id data => (s.main.read id data).map fun m => { s with main := m }
  | .main =>
    s.main.next.bind fun (c, m) => s.captures[c.id]?.map fun x => ({ s with main := m } : State).run x c
  | .fire i launches =>
    s.retries[i]?.map fun c => ({ s with retries := s.retries.eraseIdx i } : State).fire c launches

end Mux.AutomaticAudio
