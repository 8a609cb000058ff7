import Mux.Lib.Run

/-!
# The hosts window

One list of the machines a pane can live on, filled in as its questions are answered, and a list of templates that can
stand in front of it. Everything is asked when the window is opened, and answered in any order, also after the window
was opened again.
-/

namespace Mux.HostsWindow

/-! ## Rows -/

inductive Status where
  | none
  | pending
  | ok (value : String)
  | bad (value : String)
  | plain (value : String)
deriving DecidableEq, Repr

inductive Kind where
  | heading
  | inert
  | host (target : Option String)
  | template (value : String)
deriving DecidableEq, Repr

structure Row where
  kind : Kind
  text : String
  detail : String
  status : Status := .none
  current : Bool := false
deriving DecidableEq, Repr

def Row.selectable (r : Row) : Bool :=
  match r.kind with
  | .host _ | .template _ => true
  | .heading | .inert => false

/-- What `muxd probe` answered. -/
structure Probe where
  ok : Bool
  rttMs : Option Int
  ptys : Option Int
  failure : Option String
deriving DecidableEq, Repr

def status (probe : Probe) : Status :=
  if !probe.ok then .bad (probe.failure.getD "error")
  else
    let rtt := (probe.rttMs.map fun ms => "ok " ++ toString ms ++ "ms").getD "ok"
    match probe.ptys with
    | none => .ok rtt
    | some ptys =>
      if 0 < ptys then .ok (rtt ++ "  " ++ if ptys == 1 then "1 pty" else toString ptys ++ " ptys") else .ok rtt

structure VM where
  name : String
  status : String
deriving DecidableEq, Repr

def VM.isRunning (vm : VM) : Bool := vm.status == "running"

structure Template where
  label : String
  value : String
deriving DecidableEq, Repr

def ixPrefix : String := "ix:"

def defaultTemplate : String := "default"

/-- An alias of hosts.json with its address. -/
structure HostEntry where
  name : String
  addr : String
deriving DecidableEq, Repr

def localRow : Row := { kind := .host none, text := "local", detail := "this mac" }

def noneRow : Row := { kind := .inert, text := "none in ~/.config/mux/hosts.json", detail := "" }

def HostEntry.row (e : HostEntry) : Row :=
  { kind := .host (some e.name), text := e.name, detail := e.addr, status := .pending }

def headingRow : Row := { kind := .heading, text := "ix vms", detail := "" }

def VM.row (vm : VM) : Row where
  kind := if vm.isRunning then .host (some (ixPrefix ++ vm.name)) else .inert
  text := vm.name
  detail := ""
  status := .plain vm.status

def baseRow (current : String) : Row where
  kind := .template defaultTemplate
  text := defaultTemplate
  detail := "platform base"
  current := current == defaultTemplate

def Template.row (current : String) (t : Template) : Row where
  kind := .template t.value
  text := t.label
  detail := ""
  current := t.value == current

/-! ## The state -/

inductive Question where
  | probe (name : String)
  | vms
  | digest
  | templates (base : Row) (current : String)
deriving DecidableEq, Repr

structure Ask where
  generation : Nat
  question : Question
deriving DecidableEq, Repr

inductive Answer where
  | probe (probe : Probe)
  | vms (vms : List VM)
  | digest (digest : Option String)
  | templates (templates : List Template)
deriving DecidableEq, Repr

/-- `template` is what `IXConfig` has on disk. The last three are of the last opening, for the statements: what was
listed in hosts.json, and what was answered since. -/
structure State where
  rows : List Row
  index : Nat
  stashedHosts : Option (List Row × Nat)
  pickingTemplate : Bool
  digest : Option String
  copied : Bool
  generation : Nat
  template : String
  clipboard : Option String
  pending : List Ask
  entries : List HostEntry
  probed : List (String × Probe)
  vms : List VM
deriving DecidableEq, Repr

def init (template : String) : State where
  rows := []
  index := 0
  stashedHosts := none
  pickingTemplate := false
  digest := none
  copied := false
  generation := 0
  template := template
  clipboard := none
  pending := []
  entries := []
  probed := []
  vms := []

namespace State

def hosts (s : State) : List Row := if s.pickingTemplate then (s.stashedHosts.map (·.1)).getD [] else s.rows

def setHosts (s : State) (rows : List Row) : State :=
  if s.pickingTemplate then { s with stashedHosts := s.stashedHosts.map fun stash => (rows, stash.2) }
  else { s with rows := rows }

def selectedHost (s : State) : Option (Option String) :=
  if s.pickingTemplate then none
  else
    s.rows[s.index]?.bind fun row =>
      match row.kind with
      | .host target => some target
      | _ => none

def selectedTemplate (s : State) : Option String :=
  if s.pickingTemplate then
    s.rows[s.index]?.bind fun row =>
      match row.kind with
      | .template value => some value
      | _ => none
  else none

def rowsChanged (s : State) : State :=
  if s.rows[s.index]?.any (·.selectable) then s
  else { s with index := (s.rows.findIdx? (·.selectable)).getD 0 }

/-- `entries` is `HostsConfig.entries()`. -/
def reload (s : State) (entries : List HostEntry) : State :=
  let generation := s.generation + 1
  let s : State :=
    { s with
      generation := generation
      copied := false
      digest := none
      pickingTemplate := false
      stashedHosts := none
      rows := localRow :: (if entries.isEmpty then [noneRow] else []) ++ entries.map (·.row)
      index := 0
      entries := entries
      probed := []
      vms := [] }
  let s := s.rowsChanged
  { s with
    pending := s.pending ++ entries.map (fun e => ⟨generation, .probe e.name⟩) ++
      [⟨generation, .vms⟩, ⟨generation, .digest⟩] }

def showTemplates (s : State) : State :=
  if s.pickingTemplate then s
  else
    let current := s.template
    let base := baseRow current
    let s := { s with stashedHosts := some (s.rows, s.index), pickingTemplate := true, rows := [base], index := 0 }
    let s := s.rowsChanged
    { s with pending := s.pending ++ [⟨s.generation, .templates base current⟩] }

def showHosts (s : State) : State :=
  if s.pickingTemplate then
    let s := { s with pickingTemplate := false }
    match s.stashedHosts with
    | some (rows, index) => { s with rows := rows, index := index, stashedHosts := none }.rowsChanged
    | none => s.rowsChanged
  else s

def setTemplate (s : State) (value : String) : State :=
  { s with template := if value.isEmpty then defaultTemplate else value }

def commitTemplate (s : State) : State :=
  match s.selectedTemplate with
  | some value => (s.setTemplate value).showHosts
  | none => s.showHosts

def move (s : State) (delta : Int) : State :=
  let selectable := (List.range s.rows.length).filter fun i => s.rows[i]?.any (·.selectable)
  if selectable.isEmpty then s
  else
    let position := (selectable.findIdx? (· == s.index)).getD 0
    let next := ((position + delta + selectable.length) % selectable.length).toNat
    { s with index := selectable[next]?.getD 0 }

/-- Without a digest there is only a beep. -/
def copyDigest (s : State) : State :=
  match s.digest with
  | none => s
  | some digest => { s with clipboard := some digest, copied := true }

/-- What the window does with an answer, on the main thread. An answer to a question of another kind is none. -/
def answer (s : State) (ask : Ask) : Answer → Option State
  | .probe probe =>
    match ask.question with
    | .probe name =>
      if ask.generation == s.generation then
        match s.hosts.findIdx? fun r => r.kind == .host (some name) with
        | some row =>
          some { s.setHosts (s.hosts.modify row fun r => { r with status := status probe }) with
            probed := (name, probe) :: s.probed }
        | none => some s
      else some s
    | _ => none
  | .vms vms =>
    match ask.question with
    | .vms =>
      if ask.generation == s.generation && !vms.isEmpty then
        some { (s.setHosts (s.hosts ++ headingRow :: vms.map (·.row))).rowsChanged with vms := vms }
      else some s
    | _ => none
  | .digest digest =>
    match ask.question with
    | .digest => if ask.generation == s.generation then some { s with digest := digest } else some s
    | _ => none
  | .templates templates =>
    match ask.question with
    | .templates base current =>
      if ask.generation == s.generation && s.pickingTemplate && !templates.isEmpty then
        some { s with rows := base :: templates.map (Template.row current) }.rowsChanged
      else some s
    | _ => none

end State

inductive Label where
  | reload (entries : List HostEntry)
  | showTemplates
  | showHosts
  | commitTemplate
  | move (down : Bool)
  | copyDigest
  | answer (i : Nat) (a : Answer)
deriving DecidableEq, Repr

/-- The names of hosts.json are the keys of a dictionary. -/
def step (s : State) : Label → Option State
  | .reload entries => if (entries.map (·.name)).Nodup then some (s.reload entries) else none
  | .showTemplates => some s.showTemplates
  | .showHosts => some s.showHosts
  | .commitTemplate => some s.commitTemplate
  | .move down => some (s.move (if down then 1 else -1))
  | .copyDigest => some s.copyDigest
  | .answer i a =>
    match s.pending[i]? with
    | none => none
    | some ask => ({ s with pending := s.pending.eraseIdx i } : State).answer ask a

end Mux.HostsWindow
