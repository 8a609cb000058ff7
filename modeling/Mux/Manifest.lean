import Mux.Lib.Budget
import Mux.Region

/-!
# Manifests of the state engine

An agent's manifest is a list of rules over regions of the screen. A rule holds gates:
needles and patterns, and gates nested in it, of which all, some or none must hold. The
compiler checks a manifest against limits that it counts while it goes, and prepares the
needles and the patterns. Compiling a pattern and lower case are parameters.
-/

namespace Mux.Agents

open Lib

inductive AgentState where
  | idle
  | working
  | blocked
deriving Repr, DecidableEq

inductive ManifestState where
  | idle
  | working
  | blocked
  | unknown
deriving Repr, DecidableEq

/-- A rule of unknown state marks a viewer over the live screen. -/
def ManifestState.state : ManifestState → Option AgentState
  | .idle => some .idle
  | .working => some .working
  | .blocked => some .blocked
  | .unknown => none

structure ManifestGate where
  all : List ManifestGate
  any : List ManifestGate
  notGate : List ManifestGate
  contains : List Text
  regex : List Text
  lineRegex : List Text

structure ManifestRule where
  id : Text
  state : Option ManifestState
  priority : Int
  region : Text
  visibleIdle : Bool
  visibleBlocker : Bool
  visibleWorking : Bool
  skipStateUpdate : Bool
  all : List ManifestGate
  any : List ManifestGate
  notGate : List ManifestGate
  contains : List Text
  regex : List Text
  lineRegex : List Text

structure AgentManifest where
  minEngineVersion : Option Nat
  rules : List ManifestRule

structure CompiledGate (R : Type) where
  all : List (CompiledGate R)
  any : List (CompiledGate R)
  notGate : List (CompiledGate R)
  contains : List Text
  regex : List R
  lineRegex : List R

structure Rule (R : Type) where
  id : Text
  state : Option AgentState
  priority : Int
  region : Text
  gate : CompiledGate R

@[ext] structure ManifestComplexity where
  totalGates : Nat
  totalMatchers : Nat
deriving Repr, DecidableEq

def manifestEngineVersion : Nat := 3
def maxRulesPerManifest : Nat := 128
def maxGateDepth : Nat := 8
def maxTotalGates : Nat := 512
def maxMatchersPerGate : Nat := 32
def maxTotalMatchers : Nat := 1024
def maxMatcherChars : Nat := 512

/-- A part of the compiler: it fails with a text, and counts. -/
abbrev Compile (α : Type) := Metered ManifestComplexity Text α

def countGate : Compile Unit := do
  modify fun complexity => { complexity with totalGates := complexity.totalGates + 1 }
  let complexity ← get
  refuseIf (complexity.totalGates > maxTotalGates) s!"manifest exceeds max gate count {maxTotalGates}".toList

def countMatchers (matcherCount : Nat) : Compile Unit := do
  modify fun complexity => { complexity with totalMatchers := complexity.totalMatchers + matcherCount }
  let complexity ← get
  refuseIf (complexity.totalMatchers > maxTotalMatchers)
    s!"manifest exceeds max matcher count {maxTotalMatchers}".toList

def validateMatcherLimits (gate : ManifestGate) : Compile Unit := do
  let matcherCount := gate.contains.length + gate.regex.length + gate.lineRegex.length
  refuseIf (matcherCount > maxMatchersPerGate)
    s!"gate has {matcherCount} direct matchers, max is {maxMatchersPerGate}".toList
  countMatchers matcherCount
  refuseIf (∃ value ∈ gate.contains ++ gate.regex ++ gate.lineRegex, value.length > maxMatcherChars)
    s!"gate matcher exceeds max length {maxMatcherChars}".toList

def gateHasPositiveMatcher (gate : ManifestGate) : Bool :=
  !gate.contains.isEmpty || !gate.regex.isEmpty || !gate.lineRegex.isEmpty || !gate.all.isEmpty || !gate.any.isEmpty

section
variable {R : Type} (newRegex : Text → Except Text R) (toLowercase : Text → Text)

def compileRegexes (patterns : List Text) : Except Text (List R) := patterns.mapM newRegex

mutual

def compileGate : ManifestGate → Bool → Nat → Compile (CompiledGate R)
  | ⟨all, any, notGate, contains, regex, lineRegex⟩, negated, depth => do
    refuseIf (depth > maxGateDepth) s!"gate exceeds max depth {maxGateDepth}".toList
    countGate
    validateMatcherLimits ⟨all, any, notGate, contains, regex, lineRegex⟩
    refuseIf (¬ (gateHasPositiveMatcher ⟨all, any, notGate, contains, regex, lineRegex⟩ ||
        negated && !notGate.isEmpty) = true)
      "gate must contain a positive matcher, or a nested not in a not gate".toList
    let all ← compileGates all false (depth + 1)
    let any ← compileGates any false (depth + 1)
    let notGate ← compileGates notGate true (depth + 1)
    let regex ← StateT.lift (compileRegexes newRegex regex)
    let lineRegex ← StateT.lift (compileRegexes newRegex lineRegex)
    pure ⟨all, any, notGate, contains.map toLowercase, regex, lineRegex⟩

def compileGates : List ManifestGate → Bool → Nat → Compile (List (CompiledGate R))
  | [], _, _ => pure []
  | gate :: rest, negated, depth => do
    let gate ← compileGate gate negated depth
    let rest ← compileGates rest negated depth
    pure (gate :: rest)

end

/-- The gate of a rule. -/
def ManifestRule.gate (rule : ManifestRule) : ManifestGate :=
  ⟨rule.all, rule.any, rule.notGate, rule.contains, rule.regex, rule.lineRegex⟩

/-- The body of the compiler's loop over the rules. -/
def compileRule (minEngineVersion : Option Nat) (rule : ManifestRule) : Compile (Rule R) := do
  refuseIf ((trim rule.id).isEmpty = true) "manifest rule id must not be empty".toList
  refuseIf (rule.skipStateUpdate = true ∧ rule.state ≠ some .unknown)
    ("rule ".toList ++ rule.id ++ " uses skip_state_update without state = \"unknown\"".toList)
  refuseIf (rule.skipStateUpdate = true ∧ (rule.visibleIdle || rule.visibleBlocker || rule.visibleWorking) = true)
    ("rule ".toList ++ rule.id ++ " uses skip_state_update with visible state evidence".toList)
  explained (fun err => "rule ".toList ++ rule.id ++ " uses invalid region: ".toList ++ err)
    (StateT.lift (validateRegionName rule.region))
  refuseIf ("top_non_empty_lines(".toList.isPrefixOf (trim rule.region) = true ∧
      minEngineVersion.any (fun version => decide (version < topNonEmptyLinesEngineVersion)) = true)
    ("rule ".toList ++ rule.id ++
      s!" uses top_non_empty_lines but min_engine_version is below {topNonEmptyLinesEngineVersion}".toList)
  let gate ← explained (fun err => "rule ".toList ++ rule.id ++ " has invalid matcher gates: ".toList ++ err)
    (compileGate newRegex toLowercase rule.gate false 0)
  pure ⟨rule.id, rule.state.elim (some .idle) ManifestState.state, rule.priority, rule.region, gate⟩

def checkEngineVersion : Option Nat → Compile Unit
  | none => pure ()
  | some required => refuseIf (required > manifestEngineVersion)
    s!"manifest requires engine {required}, current engine is {manifestEngineVersion}".toList

def compileRules (manifest : AgentManifest) : Compile (List (Rule R)) := do
  checkEngineVersion manifest.minEngineVersion
  refuseIf (manifest.rules.isEmpty = true) "manifest must contain at least one rule".toList
  refuseIf (manifest.rules.length > maxRulesPerManifest)
    s!"manifest contains {manifest.rules.length} rules, max is {maxRulesPerManifest}".toList
  manifest.rules.mapM (compileRule newRegex toLowercase manifest.minEngineVersion)

def compileManifest (manifest : AgentManifest) : Except Text (List (Rule R)) :=
  (compileRules newRegex toLowercase manifest).run' ⟨0, 0⟩

end

end Mux.Agents
