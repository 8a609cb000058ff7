import Mux.Manifest
import Mux.Evaluate

/-!
# What a session says of its agent

A reading of a session finds the program in the foreground, which may be an agent, and what
the rules say about the screen. The record it stores has the agent, its state and its topic.
Where the rules give no state, the state of the record before stays.
-/

namespace Mux.Agents

open Lib

inductive Agent where
  | pi
  | claude
  | codex
  | gemini
  | cursor
  | devin
  | antigravity
  | cline
  | openCode
  | githubCopilot
  | kimi
  | kiro
  | droid
  | amp
  | grok
  | hermes
  | kilo
  | qodercli
  | qwen
  | maki
deriving Repr, DecidableEq

def Agent.all : List Agent :=
  [.pi, .claude, .codex, .gemini, .cursor, .devin, .antigravity, .cline, .openCode, .githubCopilot, .kimi, .kiro,
    .droid, .amp, .grok, .hermes, .kilo, .qodercli, .qwen, .maki]

/-- The label, and the aliases of the command. -/
def Agent.names : Agent → Text × List Text
  | .pi => ("pi".toList, [])
  | .claude => ("claude".toList, ["claude-code".toList])
  | .codex => ("codex".toList, [])
  | .gemini => ("gemini".toList, [])
  | .cursor => ("cursor".toList, ["cursor-agent".toList])
  | .devin => ("devin".toList, ["devin-cli".toList, "devin cli".toList])
  | .antigravity => ("agy".toList, ["antigravity".toList, "antigravity-cli".toList])
  | .cline => ("cline".toList, [])
  | .openCode => ("opencode".toList, ["opencode2".toList, "open-code".toList])
  | .githubCopilot => ("copilot".toList, ["github-copilot".toList, "ghcs".toList])
  | .kimi => ("kimi".toList, ["kimi-code".toList, "kimi code".toList])
  | .kiro => ("kiro".toList, ["kiro-cli".toList])
  | .droid => ("droid".toList, [])
  | .amp => ("amp".toList, ["amp-local".toList])
  | .grok => ("grok".toList, ["grok-build".toList])
  | .hermes => ("hermes".toList, ["hermes-agent".toList])
  | .kilo => ("kilo".toList, ["kilo-code".toList, "kilo code".toList])
  | .qodercli => ("qodercli".toList, ["qoderclicn".toList, "qoder".toList, "qodercn".toList])
  | .qwen => ("qwen".toList, ["qwen-code".toList, "qwen code".toList])
  | .maki => ("maki".toList, [])

def Agent.label (agent : Agent) : Text := agent.names.1

def AgentState.label : AgentState → Text
  | .idle => "idle".toList
  | .working => "working".toList
  | .blocked => "blocked".toList

/-- `str::strip_suffix`. -/
def beforeTail (tail t : Text) : Option Text :=
  if tail.isSuffixOf t then some (t.take (t.length - tail.length)) else none

/-- What is behind the last slash. -/
def basename (t : Text) : Text := (t.reverse.takeWhile (· ≠ '/')).reverse

section
variable (toLowercase : Text → Text)

def parseAgentLabel (name : Text) : Option Agent :=
  let name := toLowercase (trim name)
  let name := (([".exe", ".cmd", ".bat", ".ps1", ".js"].map String.toList).findSome? fun suffix =>
    beforeTail suffix name).getD name
  Agent.all.find? fun agent => (agent.names.1 :: agent.names.2).contains name

def fromProcessName (name : Text) : Option Agent := parseAgentLabel toLowercase (basename name)

/-- An agent runs under its own name, or as the script of a launcher. -/
def fromCommand (argv : List Text) : Option Agent :=
  argv.head?.bind fun executable =>
    (fromProcessName toLowercase executable).or
      (if (["node", "nodejs", "bun"].map String.toList).contains (basename executable) then
        argv[1]?.bind (fromProcessName toLowercase)
      else none)

def foregroundLabel (argv : List Text) : Option Text :=
  match fromCommand toLowercase argv with
  | some agent => some agent.label
  | none => argv.head?.bind fun executable =>
    let name := basename executable
    let name := (afterHead ['-'] name).getD name
    if name.isEmpty then none else some name

end

/-- `str::split_once`, what comes behind. -/
def behindFirst (sep : Text) : Text → Option Text
  | [] => if sep.isEmpty then some [] else none
  | c :: t => if sep.isPrefixOf (c :: t) then some ((c :: t).drop sep.length) else behindFirst sep t

/-- A mark of the agent's state before its topic: a spinner, a circle or a star. -/
def isStateMark (c : Char) : Bool :=
  let n := c.toNat
  decide (0x2800 ≤ n ∧ n ≤ 0x28ff) || decide (0x25d0 ≤ n ∧ n ≤ 0x25d3) || decide (n = 0x2733)

def topic (title : Text) : Text :=
  let title := trim title
  if "[ ! ] Action Required".toList.isPrefixOf title || "[ . ] Action Required".toList.isPrefixOf title then
    trim ((behindFirst " | ".toList title).getD [])
  else
    match title with
    | glyph :: ' ' :: rest => if isStateMark glyph then trim rest else title
    | _ => title

structure AgentInfo where
  agent : Text
  state : Text
  topic : Text
deriving Repr, DecidableEq

/-- What the session keeps between two readings. -/
structure Record where
  agent : Option AgentInfo
  foreground : Option Text
deriving Repr, DecidableEq

/-- What a reading finds: the command in the foreground, the title, and what the rules of the agent say. -/
structure Reading where
  argv : Option (List Text)
  title : Text
  detection : Detection
deriving Repr, DecidableEq

section
variable (toLowercase : Text → Text)

/-- The record behind a reading, and the name of the program in the foreground if it is another one. -/
def Record.refreshAgent (previous : Record) (reading : Reading) : Record × Option Text :=
  let agent := reading.argv.bind (fromCommand toLowercase)
  let next := agent.map fun agent =>
    -- a viewer over the live screen keeps the state it covers
    let state := match reading.detection.state with
      | some state => state.label
      | none => previous.agent.elim AgentState.idle.label AgentInfo.state
    ⟨agent.label, state, topic reading.title⟩
  let name := reading.argv.bind (foregroundLabel toLowercase)
  if previous.foreground = name then (⟨next, previous.foreground⟩, none) else (⟨next, name⟩, name)

/-- The record of a new session after its readings. -/
def recordAfter (readings : List Reading) : Record :=
  readings.foldl (fun record reading => (record.refreshAgent toLowercase reading).1) ⟨none, none⟩

end

end Mux.Agents
