import Mux.Evaluate
import Mux.ManifestSound
import Mux.RegionExact

/-!
# What the rules say

A gate of a manifest holds of a text by what is written in it: the compiled gate matches
the same texts. The rule that speaks for a pane is the first of the greatest priority among
those that hold of their own region.
-/

namespace Mux.Agents

open Lib

section
variable {R : Type} (newRegex : Text → Except Text R) (isMatch : R → Text → Bool) (toLowercase : Text → Text)

/-- A pattern matches by the regex it compiles to. -/
def PatternMatches (pattern text : Text) : Prop := ∃ r, newRegex pattern = .ok r ∧ isMatch r text = true

def ManifestGate.Holds (text : Text) : ManifestGate → Prop
  | ⟨all, any, notGate, contains, regex, lineRegex⟩ =>
    (∀ needle ∈ contains, toLowercase needle <:+: toLowercase text) ∧
      (∀ pattern ∈ regex, PatternMatches newRegex isMatch pattern text) ∧
        (∀ pattern ∈ lineRegex, ∃ line ∈ lines text, PatternMatches newRegex isMatch pattern line) ∧
          (∀ nested, nested ∈ all → ManifestGate.Holds text nested) ∧
            (any ≠ [] → ∃ nested, ∃ _ : nested ∈ any, ManifestGate.Holds text nested) ∧
              ¬ ∃ nested, ∃ _ : nested ∈ notGate, ManifestGate.Holds text nested

/-- A rule holds if its gate holds of its own region. -/
def RuleHolds (input : DetectionInput) (rule : ManifestRule) : Prop :=
  ∃ text, region input rule.region = some text ∧ rule.gate.Holds newRegex isMatch toLowercase text

end

/-- What a manifest's rule says: a rule for unknown has no state, and without any rule the pane is idle. -/
def detectionOf : Option ManifestRule → Detection
  | none => ⟨some .idle, none⟩
  | some rule => ⟨rule.state.elim (some .idle) ManifestState.state, some rule.id⟩

section
variable {R : Type} {newRegex : Text → Except Text R} (isMatch : R → Text → Bool) (toLowercase : Text → Text)

/-! ## Gates -/

theorem everyGateMatches_iff (gates : List (CompiledGate R)) (text lowerText : Text) :
    everyGateMatches isMatch gates text lowerText = true ↔
      ∀ gate ∈ gates, compiledGateMatches isMatch gate text lowerText = true := by
  induction gates with
  | nil => simp [everyGateMatches]
  | cons gate rest ih => rw [everyGateMatches, Bool.and_eq_true, ih, List.forall_mem_cons]

theorem someGateMatches_iff (gates : List (CompiledGate R)) (text lowerText : Text) :
    someGateMatches isMatch gates text lowerText = true ↔
      ∃ gate ∈ gates, compiledGateMatches isMatch gate text lowerText = true := by
  induction gates with
  | nil => simp [someGateMatches]
  | cons gate rest ih => simp only [someGateMatches, Bool.or_eq_true, ih, List.mem_cons, exists_eq_or_imp]

theorem compiledGates_eq_map (gates : List ManifestGate) :
    compiledGates newRegex toLowercase gates = gates.map (ManifestGate.compiled newRegex toLowercase) := by
  induction gates with
  | nil => rfl
  | cons gate rest ih => rw [compiledGates, ih, List.map_cons]

theorem mem_gateNodes {gates : List ManifestGate} {negated : Bool} {depth : Nat} {node : GateAt} :
    node ∈ gateNodes gates negated depth ↔ ∃ gate ∈ gates, node ∈ gate.nodes negated depth := by
  induction gates with
  | nil => simp [gateNodes]
  | cons gate rest ih => simp only [gateNodes, List.mem_append, ih, List.mem_cons, exists_eq_or_imp]

/-- Where every pattern compiles, the regexes match what the patterns do. -/
theorem mem_compiledRegexes {patterns : List Text} (h : ∀ pattern ∈ patterns, ∃ r, newRegex pattern = .ok r)
    (P : R → Prop) : (∀ r ∈ compiledRegexes newRegex patterns, P r) ↔
      ∀ pattern ∈ patterns, ∃ r, newRegex pattern = .ok r ∧ P r := by
  unfold compiledRegexes
  simp only [List.mem_filterMap]
  constructor
  · intro hall pattern hpattern
    obtain ⟨r, hr⟩ := h pattern hpattern
    exact ⟨r, hr, hall r ⟨pattern, hpattern, by rw [hr]; rfl⟩⟩
  · rintro hall r ⟨pattern, hpattern, hr⟩
    obtain ⟨r', hr', hP⟩ := hall pattern hpattern
    rw [hr'] at hr
    cases hr
    exact hP

/-- The gates directly in an allowed gate are allowed with all that is in them. -/
theorem nested_allowed {gate : ManifestGate} {negated : Bool} {depth : Nat}
    (h : ∀ node ∈ gate.nodes negated depth, node.Allowed newRegex) :
    (∀ nested ∈ gate.all, ∀ node ∈ nested.nodes false (depth + 1), node.Allowed newRegex) ∧
      (∀ nested ∈ gate.any, ∀ node ∈ nested.nodes false (depth + 1), node.Allowed newRegex) ∧
        ∀ nested ∈ gate.notGate, ∀ node ∈ nested.nodes true (depth + 1), node.Allowed newRegex := by
  cases gate with
  | mk all any notGate contains regex lineRegex =>
    rw [ManifestGate.nodes, List.forall_mem_cons, List.forall_mem_append, List.forall_mem_append] at h
    obtain ⟨-, hall, hany, hnot⟩ := h
    refine ⟨?_, ?_, ?_⟩
    · intro nested hnested node hnode
      exact hall node (mem_gateNodes.mpr ⟨nested, hnested, hnode⟩)
    · intro nested hnested node hnode
      exact hany node (mem_gateNodes.mpr ⟨nested, hnested, hnode⟩)
    · intro nested hnested node hnode
      exact hnot node (mem_gateNodes.mpr ⟨nested, hnested, hnode⟩)

/-- A line matches a pattern if it matches the pattern's regex. -/
theorem lines_match_iff (text pattern : Text) :
    (∃ line ∈ lines text, PatternMatches newRegex isMatch pattern line) ↔
      ∃ r, newRegex pattern = .ok r ∧ ((lines text).any fun line => isMatch r line) = true := by
  simp only [PatternMatches, List.any_eq_true]
  constructor
  · rintro ⟨line, hline, r, hr, hmatch⟩
    exact ⟨r, hr, line, hline, hmatch⟩
  · rintro ⟨r, hr, line, hline, hmatch⟩
    exact ⟨line, hline, r, hr, hmatch⟩

theorem every_holds_iff {gates : List ManifestGate} {text : Text}
    (h : ∀ nested ∈ gates, (nested.Holds newRegex isMatch toLowercase text ↔
      compiledGateMatches isMatch (nested.compiled newRegex toLowercase) text (toLowercase text) = true)) :
    (∀ nested, nested ∈ gates → nested.Holds newRegex isMatch toLowercase text) ↔
      everyGateMatches isMatch (compiledGates newRegex toLowercase gates) text (toLowercase text) = true := by
  rw [everyGateMatches_iff, compiledGates_eq_map, List.forall_mem_map]
  exact forall₂_congr h

theorem some_holds_iff {gates : List ManifestGate} {text : Text}
    (h : ∀ nested ∈ gates, (nested.Holds newRegex isMatch toLowercase text ↔
      compiledGateMatches isMatch (nested.compiled newRegex toLowercase) text (toLowercase text) = true)) :
    (∃ nested, ∃ _ : nested ∈ gates, nested.Holds newRegex isMatch toLowercase text) ↔
      someGateMatches isMatch (compiledGates newRegex toLowercase gates) text (toLowercase text) = true := by
  rw [someGateMatches_iff, compiledGates_eq_map]
  constructor
  · rintro ⟨nested, hmem, hholds⟩
    exact ⟨_, List.mem_map_of_mem hmem, (h nested hmem).mp hholds⟩
  · rintro ⟨gate, hgate, hmatches⟩
    obtain ⟨nested, hmem, rfl⟩ := List.mem_map.mp hgate
    exact ⟨nested, hmem, (h nested hmem).mpr hmatches⟩

/-- A compiled gate matches the texts of which its manifest's gate holds. -/
theorem holds_iff_matches (text : Text) : ∀ (gate : ManifestGate) (negated : Bool) (depth : Nat),
    (∀ node ∈ gate.nodes negated depth, node.Allowed newRegex) →
      (gate.Holds newRegex isMatch toLowercase text ↔
        compiledGateMatches isMatch (gate.compiled newRegex toLowercase) text (toLowercase text) = true)
  | ⟨all, any, notGate, contains, regex, lineRegex⟩, negated, depth, h => by
    obtain ⟨hall, hany, hnot⟩ := nested_allowed h
    have hself : GateAt.Allowed newRegex ⟨⟨all, any, notGate, contains, regex, lineRegex⟩, negated, depth⟩ := by
      rw [ManifestGate.nodes] at h
      exact h _ List.mem_cons_self
    obtain ⟨hregex, hline⟩ := List.forall_mem_append.mp hself.compiles
    have hevery := every_holds_iff isMatch toLowercase fun nested hmem =>
      holds_iff_matches text nested false (depth + 1) (hall nested hmem)
    have hsome := some_holds_iff isMatch toLowercase fun nested hmem =>
      holds_iff_matches text nested false (depth + 1) (hany nested hmem)
    have hnone := some_holds_iff isMatch toLowercase fun nested hmem =>
      holds_iff_matches text nested true (depth + 1) (hnot nested hmem)
    have hneedles : (∀ needle ∈ contains, toLowercase needle <:+: toLowercase text) ↔
        (contains.map toLowercase).all (fun needle => decide (needle <:+: toLowercase text)) = true := by
      simp only [List.all_map, List.all_eq_true, Function.comp_apply, decide_eq_true_eq]
    have hpatterns : (∀ pattern ∈ regex, PatternMatches newRegex isMatch pattern text) ↔
        (compiledRegexes newRegex regex).all (fun r => isMatch r text) = true := by
      rw [List.all_eq_true, mem_compiledRegexes hregex fun r => isMatch r text = true]
      exact Iff.rfl
    have hlines : (∀ pattern ∈ lineRegex, ∃ line ∈ lines text, PatternMatches newRegex isMatch pattern line) ↔
        (compiledRegexes newRegex lineRegex).all (fun r => (lines text).any fun line => isMatch r line) = true := by
      rw [List.all_eq_true, mem_compiledRegexes hline fun r => ((lines text).any fun line => isMatch r line) = true]
      exact forall₂_congr fun pattern _ => lines_match_iff isMatch text pattern
    have hempty : (any ≠ [] → ∃ nested, ∃ _ : nested ∈ any, nested.Holds newRegex isMatch toLowercase text) ↔
        ((compiledGates newRegex toLowercase any).isEmpty = true ∨
          ∃ nested, ∃ _ : nested ∈ any, nested.Holds newRegex isMatch toLowercase text) := by
      rw [compiledGates_eq_map, List.isEmpty_map, List.isEmpty_iff, ne_eq, not_imp_comm, or_comm, or_iff_not_imp_left]
    rw [ManifestGate.Holds, ManifestGate.compiled, compiledGateMatches]
    simp only [Bool.and_eq_true, Bool.or_eq_true, Bool.not_eq_true', Bool.eq_false_iff, ne_eq]
    rw [hneedles, hpatterns, hlines, hempty, hevery, hsome, hnone]
    simp only [and_assoc]

/-! ## Rules -/

theorem ruleMatches_iff {rule : ManifestRule} (h : ∀ node ∈ rule.gate.nodes false 0, node.Allowed newRegex)
    (input : DetectionInput) :
    ruleMatches isMatch toLowercase input (rule.compiled newRegex toLowercase) = some true ↔
      RuleHolds newRegex isMatch toLowercase input rule := by
  unfold ruleMatches RuleHolds
  rw [Option.map_eq_some_iff]
  exact exists_congr fun text => and_congr_right' (holds_iff_matches isMatch toLowercase text rule.gate false 0 h).symm

theorem ruleMatches_isSome (input : DetectionInput) (rule : ManifestRule) :
    (ruleMatches isMatch toLowercase input (rule.compiled newRegex toLowercase)).isSome = true ↔
      Readable input rule.region := by
  unfold ruleMatches
  rw [Option.isSome_map]
  exact region_isSome_iff input rule.region

theorem evaluate_eq (rules : List ManifestRule) (input : DetectionInput) :
    evaluate isMatch toLowercase (rules.map fun rule => rule.compiled newRegex toLowercase) input =
      (scanBest ManifestRule.priority
        (fun rule => ruleMatches isMatch toLowercase input (rule.compiled newRegex toLowercase)) none rules).map
          detectionOf := by
  have hscan := @scanBest_map (Rule R) Int _ Rule.priority (ruleMatches isMatch toLowercase input) ManifestRule
    (fun rule => rule.compiled newRegex toLowercase) none rules
  rw [Option.map_none] at hscan
  unfold evaluate
  rw [hscan, Option.map_map]
  refine congrArg (fun f => Option.map f _) (funext fun best => ?_)
  cases best <;> rfl

/-- The rules are evaluated as they read, unless the region of a rule that could still win cannot be read. -/
theorem evaluate_returns_winner_iff {manifest : AgentManifest} {rules : List (Rule R)}
    (h : compileManifest newRegex toLowercase manifest = .ok rules) (input : DetectionInput) :
    (∃ winner, FirstBest ManifestRule.priority (RuleHolds newRegex isMatch toLowercase input) manifest.rules winner ∧
        evaluate isMatch toLowercase rules input = some (detectionOf winner)) ↔
      ∀ before rule after, manifest.rules = before ++ rule :: after →
        (∀ earlier ∈ before, RuleHolds newRegex isMatch toLowercase input earlier → earlier.priority < rule.priority) →
          Readable input rule.region := by
  obtain ⟨⟨⟨-, -, hgates⟩, -⟩, rfl⟩ := (compileManifest_eq_ok newRegex toLowercase manifest rules).mp h
  have hholds : ∀ rule ∈ manifest.rules,
      (ruleMatches isMatch toLowercase input (rule.compiled newRegex toLowercase) = some true ↔
        RuleHolds newRegex isMatch toLowercase input rule) := by
    intro rule hrule
    exact ruleMatches_iff isMatch toLowercase
      (fun node hnode => hgates node (List.mem_flatMap.mpr ⟨rule, hrule, hnode⟩)) input
  rw [evaluate_eq]
  constructor
  · rintro ⟨winner, -, heval⟩ before rule after heq hbefore
    obtain ⟨best, hbest, -⟩ := Option.map_eq_some_iff.mp heval
    rw [← ruleMatches_isSome isMatch toLowercase]
    refine tested_of_scanBest (firstBest_nil _) hbest before rule after heq ?_
    intro earlier hearlier hmatches
    have hmem : earlier ∈ manifest.rules := by
      rw [heq]
      exact List.mem_append_left _ hearlier
    exact hbefore earlier hearlier ((hholds earlier hmem).mp hmatches)
  · intro hread
    have htested : Tested ManifestRule.priority
        (fun rule => ruleMatches isMatch toLowercase input (rule.compiled newRegex toLowercase)) [] manifest.rules := by
      intro before rule after heq hbefore
      refine (ruleMatches_isSome isMatch toLowercase input rule).mpr (hread before rule after heq ?_)
      intro earlier hearlier hrule
      have hmem : earlier ∈ manifest.rules := by
        rw [heq]
        exact List.mem_append_left _ hearlier
      exact hbefore earlier hearlier ((hholds earlier hmem).mpr hrule)
    obtain ⟨winner, hwinner, hscan⟩ := scanBest_of_tested (firstBest_nil _) htested
    exact ⟨winner, (FirstBest.congr hholds).mp hwinner, by rw [hscan]; rfl⟩

end

/-! ## Manifests without special characters in their patterns -/

def plainRegex (pattern : Text) : Except Text Text := .ok pattern

def plainMatch (pattern text : Text) : Bool := decide (pattern <:+: text)

def plainLower (t : Text) : Text := t.map Char.toLower

def needleRule (id : String) (state : Option ManifestState) (priority : Int) (region needle : String)
    (notGate : List ManifestGate) : ManifestRule where
  id := id.toList
  state := state
  priority := priority
  region := region.toList
  visibleIdle := false
  visibleBlocker := false
  visibleWorking := false
  skipStateUpdate := false
  all := []
  any := []
  notGate := notGate
  contains := [needle.toList]
  regex := []
  lineRegex := []

/-- A rule without a state, and a rule for a viewer above it. -/
def viewerManifest : AgentManifest :=
  ⟨none, [needleRule "low" none 1 "whole_recent" "match" [],
    needleRule "high" (some .unknown) 10 "osc_title" "WIN" [⟨[], [], [], ["blocked".toList], [], []⟩]]⟩

def viewerInput : DetectionInput := ⟨"a match".toList, "Win".toList, []⟩

theorem evaluate_returns_winner_iff_viewer :
    (∃ winner, FirstBest ManifestRule.priority (RuleHolds plainRegex plainMatch plainLower viewerInput)
        viewerManifest.rules winner ∧
        evaluate plainMatch plainLower (viewerManifest.rules.map fun rule => rule.compiled plainRegex plainLower)
          viewerInput = some (detectionOf winner)) ∧
      evaluate plainMatch plainLower (viewerManifest.rules.map fun rule => rule.compiled plainRegex plainLower)
        viewerInput = some ⟨none, some "high".toList⟩ := by
  refine ⟨(evaluate_returns_winner_iff plainMatch plainLower rfl viewerInput).mpr ?_, by decide +kernel⟩
  intro before rule after heq _
  have hmem : rule ∈ viewerManifest.rules := by
    rw [heq]
    exact List.mem_append_right _ List.mem_cons_self
  have hread : ∀ r ∈ viewerManifest.rules, (region viewerInput r.region).isSome = true := by decide +kernel
  exact (region_isSome_iff viewerInput rule.region).mp (hread rule hmem)

/-- One rule, for the last line. -/
def lastLineManifest : AgentManifest := ⟨none, [needleRule "last" (some .working) 0 "bottom_lines(1)" "x" []]⟩

theorem evaluate_panics_on_drift :
    ¬ ∀ (manifest : AgentManifest) (rules : List (Rule Text)) (input : DetectionInput),
        compileManifest plainRegex plainLower manifest = .ok rules →
          ∃ winner,
            FirstBest ManifestRule.priority (RuleHolds plainRegex plainMatch plainLower input) manifest.rules winner ∧
            evaluate plainMatch plainLower rules input = some (detectionOf winner) := by
  intro h
  obtain ⟨winner, -, heval⟩ := h lastLineManifest _ driftingScreen rfl
  have hnone : evaluate plainMatch plainLower
      (lastLineManifest.rules.map fun rule => rule.compiled plainRegex plainLower) driftingScreen = none := by
    decide +kernel
  exact absurd (hnone.symm.trans heval) (Option.some_ne_none _).symm

end Mux.Agents
