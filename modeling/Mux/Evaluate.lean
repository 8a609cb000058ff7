import Mux.Lib.Best
import Mux.Manifest

/-!
# Evaluation of the rules

A gate holds of a text if its needles and patterns do and its nested gates are as it wants
them. The loop over the rules keeps the best one that holds, and does not look at the gates
of a rule that could not beat it. A region that cannot be read ends it: evaluation then
gives none.
-/

namespace Mux.Agents

open Lib

/-- What the rules say about a pane: no state keeps the one it had. -/
structure Detection where
  state : Option AgentState
  rule : Option Text
deriving Repr, DecidableEq

section
variable {R : Type} (isMatch : R → Text → Bool) (toLowercase : Text → Text)

mutual

def compiledGateMatches : CompiledGate R → Text → Text → Bool
  | ⟨all, any, notGate, contains, regex, lineRegex⟩, text, lowerText =>
    contains.all (fun needle => decide (needle <:+: lowerText)) && regex.all (fun r => isMatch r text) &&
      lineRegex.all (fun r => (lines text).any fun line => isMatch r line) && everyGateMatches all text lowerText &&
        (any.isEmpty || someGateMatches any text lowerText) && !someGateMatches notGate text lowerText

def everyGateMatches : List (CompiledGate R) → Text → Text → Bool
  | [], _, _ => true
  | nested :: rest, text, lowerText =>
    compiledGateMatches nested text lowerText && everyGateMatches rest text lowerText

def someGateMatches : List (CompiledGate R) → Text → Text → Bool
  | [], _, _ => false
  | nested :: rest, text, lowerText =>
    compiledGateMatches nested text lowerText || someGateMatches rest text lowerText

end

def compiledRuleMatches (gate : CompiledGate R) (text : Text) : Bool :=
  compiledGateMatches isMatch gate text (toLowercase text)

/-- Reading a rule's region, which may panic, and matching its gate. -/
def ruleMatches (input : DetectionInput) (rule : Rule R) : Option Bool :=
  (region input rule.region).map (compiledRuleMatches isMatch toLowercase rule.gate)

def evaluate (rules : List (Rule R)) (input : DetectionInput) : Option Detection :=
  (scanBest Rule.priority (ruleMatches isMatch toLowercase input) none rules).map fun best =>
    ⟨best.elim (some .idle) Rule.state, best.map Rule.id⟩

end

end Mux.Agents
