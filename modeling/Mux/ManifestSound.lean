import Mux.Manifest
import Mux.RegionSound

/-!
# What the compiler accepts

The limits of a manifest are about its gates, wherever they stand: `nodes` lists them, each
with its depth below the rule and whether a not gate holds it. The compiler meets them in
another order and counts as it goes; it accepts if and only if every gate is allowed and
the counts over all of them are.
-/

namespace Mux.Agents

open Lib

/-! ## The gates of a manifest -/

/-- A gate, whether it is the child of a not gate, and how deep it lies below its rule. -/
structure GateAt where
  gate : ManifestGate
  negated : Bool
  depth : Nat

def ManifestGate.matchers (gate : ManifestGate) : List Text := gate.contains ++ gate.regex ++ gate.lineRegex

mutual

def ManifestGate.nodes : ManifestGate → Bool → Nat → List GateAt
  | ⟨all, any, notGate, contains, regex, lineRegex⟩, negated, depth =>
    ⟨⟨all, any, notGate, contains, regex, lineRegex⟩, negated, depth⟩ ::
      (gateNodes all false (depth + 1) ++ (gateNodes any false (depth + 1) ++ gateNodes notGate true (depth + 1)))

def gateNodes : List ManifestGate → Bool → Nat → List GateAt
  | [], _, _ => []
  | gate :: rest, negated, depth => gate.nodes negated depth ++ gateNodes rest negated depth

end

def AgentManifest.gates (manifest : AgentManifest) : List GateAt :=
  manifest.rules.flatMap fun rule => rule.gate.nodes false 0

section
variable {R : Type} (newRegex : Text → Except Text R)

structure GateAt.Allowed (node : GateAt) : Prop where
  deep : node.depth ≤ 8
  few : node.gate.matchers.length ≤ 32
  short : ∀ value ∈ node.gate.matchers, value.length ≤ 512
  compiles : ∀ pattern ∈ node.gate.regex ++ node.gate.lineRegex, ∃ r, newRegex pattern = .ok r
  holds : node.gate.matchers ≠ [] ∨ node.gate.all ≠ [] ∨ node.gate.any ≠ [] ∨
    node.negated = true ∧ node.gate.notGate ≠ []

structure ManifestRule.Allowed (minEngineVersion : Option Nat) (rule : ManifestRule) : Prop where
  named : ∃ c ∈ rule.id, isWhitespace c = false
  neutral : rule.skipStateUpdate = true → rule.state = some .unknown ∧ rule.visibleIdle = false ∧
    rule.visibleBlocker = false ∧ rule.visibleWorking = false
  region : ∃ r : Region, r.Spells (trim rule.region) ∧
    ∀ count, r = .screen (.topNonEmptyLines count) → ∀ version ∈ minEngineVersion, 3 ≤ version

structure AgentManifest.Allowed (manifest : AgentManifest) : Prop where
  version : ∀ version ∈ manifest.minEngineVersion, version ≤ 3
  nonempty : 1 ≤ manifest.rules.length
  few : manifest.rules.length ≤ 128
  rules : ∀ rule ∈ manifest.rules, rule.Allowed manifest.minEngineVersion
  gates : ∀ node ∈ manifest.gates, node.Allowed newRegex
  gateCount : manifest.gates.length ≤ 512
  matcherCount : (manifest.gates.map fun node => node.gate.matchers.length).sum ≤ 1024

/-! ## What it makes of them -/

variable (toLowercase : Text → Text)

def compiledRegexes (patterns : List Text) : List R := patterns.filterMap fun pattern => (newRegex pattern).toOption

mutual

def ManifestGate.compiled : ManifestGate → CompiledGate R
  | ⟨all, any, notGate, contains, regex, lineRegex⟩ =>
    ⟨compiledGates all, compiledGates any, compiledGates notGate, contains.map toLowercase,
      compiledRegexes newRegex regex, compiledRegexes newRegex lineRegex⟩

def compiledGates : List ManifestGate → List (CompiledGate R)
  | [] => []
  | gate :: rest => gate.compiled :: compiledGates rest

end

/-- A rule without a state is a rule for idle. -/
def ManifestRule.compiled (rule : ManifestRule) : Rule R :=
  ⟨rule.id, rule.state.elim (some .idle) ManifestState.state, rule.priority, rule.region,
    rule.gate.compiled newRegex toLowercase⟩

end

/-! ## Counting -/

instance ManifestComplexity.instAdd : Add ManifestComplexity :=
  ⟨fun a b => ⟨a.totalGates + b.totalGates, a.totalMatchers + b.totalMatchers⟩⟩

instance ManifestComplexity.instZero : Zero ManifestComplexity := ⟨⟨0, 0⟩⟩

instance ManifestComplexity.instLE : LE ManifestComplexity :=
  ⟨fun a b => a.totalGates ≤ b.totalGates ∧ a.totalMatchers ≤ b.totalMatchers⟩

namespace ManifestComplexity

@[simp] theorem totalGates_add (a b : ManifestComplexity) : (a + b).totalGates = a.totalGates + b.totalGates := rfl

@[simp] theorem totalMatchers_add (a b : ManifestComplexity) :
    (a + b).totalMatchers = a.totalMatchers + b.totalMatchers := rfl

theorem le_def {a b : ManifestComplexity} :
    a ≤ b ↔ a.totalGates ≤ b.totalGates ∧ a.totalMatchers ≤ b.totalMatchers := Iff.rfl

end ManifestComplexity

instance ManifestComplexity.instAddMonoid : AddMonoid ManifestComplexity where
  add_assoc a b c := ManifestComplexity.ext (Nat.add_assoc _ _ _) (Nat.add_assoc _ _ _)
  zero_add a := ManifestComplexity.ext (Nat.zero_add _) (Nat.zero_add _)
  add_zero a := ManifestComplexity.ext (Nat.add_zero _) (Nat.add_zero _)
  nsmul := nsmulRec

instance ManifestComplexity.instPreorder : Preorder ManifestComplexity where
  le_refl _ := ⟨Nat.le_refl _, Nat.le_refl _⟩
  le_trans _ _ _ h h' := ⟨Nat.le_trans h.1 h'.1, Nat.le_trans h.2 h'.2⟩

instance ManifestComplexity.instCanonicallyOrderedAdd : CanonicallyOrderedAdd ManifestComplexity where
  le_self_add _ _ := ⟨Nat.le_add_right _ _, Nat.le_add_right _ _⟩
  le_add_self _ _ := ⟨Nat.le_add_left _ _, Nat.le_add_left _ _⟩
  exists_add_of_le := by
    rintro a b ⟨hg, hm⟩
    refine ⟨⟨b.totalGates - a.totalGates, b.totalMatchers - a.totalMatchers⟩, ?_⟩
    exact ManifestComplexity.ext (by simp only [ManifestComplexity.totalGates_add]; omega)
      (by simp only [ManifestComplexity.totalMatchers_add]; omega)

/-- What a list of gates counts for. -/
def weight (nodes : List GateAt) : ManifestComplexity :=
  ⟨nodes.length, (nodes.map fun node => node.gate.matchers.length).sum⟩

theorem weight_append (l l' : List GateAt) : weight (l ++ l') = weight l + weight l' := by
  apply ManifestComplexity.ext
  · exact List.length_append
  · simp only [weight, ManifestComplexity.totalMatchers_add, List.map_append, List.sum_append]

theorem weight_cons (node : GateAt) (l : List GateAt) :
    weight (node :: l) = ⟨1, 0⟩ + (⟨0, node.gate.matchers.length⟩ + weight l) := by
  apply ManifestComplexity.ext
  · simp only [weight, ManifestComplexity.totalGates_add, List.length_cons, Nat.add_comm]
  · simp only [weight, ManifestComplexity.totalMatchers_add, List.map_cons, List.sum_cons, Nat.zero_add]

def maxComplexity : ManifestComplexity := ⟨maxTotalGates, maxTotalMatchers⟩

theorem countGate_spends : Spends maxComplexity countGate True ⟨1, 0⟩ () := by
  refine Spends.count (⟨1, 0⟩ : ManifestComplexity) (fun c : ManifestComplexity => c.totalGates > maxTotalGates) _ ?_
  intro c hc
  constructor
  · intro hover hle
    exact absurd hle.1 (Nat.not_le_of_gt hover)
  · intro hnot
    exact Nat.lt_of_not_le fun hle => hnot ⟨hle, hc.2⟩

theorem countMatchers_spends (matcherCount : Nat) :
    Spends maxComplexity (countMatchers matcherCount) True ⟨0, matcherCount⟩ () := by
  refine Spends.count (⟨0, matcherCount⟩ : ManifestComplexity)
    (fun c : ManifestComplexity => c.totalMatchers > maxTotalMatchers) _ ?_
  intro c hc
  constructor
  · intro hover hle
    exact absurd hle.2 (Nat.not_le_of_gt hover)
  · intro hnot
    exact Nat.lt_of_not_le fun hle => hnot ⟨hc.1, hle⟩

theorem length_matchers (gate : ManifestGate) :
    gate.matchers.length = gate.contains.length + gate.regex.length + gate.lineRegex.length := by
  rw [ManifestGate.matchers, List.length_append, List.length_append]

theorem validateMatcherLimits_spends (gate : ManifestGate) :
    Spends maxComplexity (validateMatcherLimits gate)
      (gate.matchers.length ≤ 32 ∧ ∀ value ∈ gate.matchers, value.length ≤ 512) ⟨0, gate.matchers.length⟩ () := by
  rw [length_matchers]
  refine ((Spends.refuseIf _ _).bind ((countMatchers_spends _).bind (Spends.refuseIf _ _))).congr ?_ ?_ rfl
  · simp only [true_and, not_lt, not_exists, not_and, gt_iff_lt]
    exact Iff.rfl
  · simp only [zero_add, add_zero]

section
variable {R : Type} (newRegex : Text → Except Text R) (toLowercase : Text → Text)

theorem compileRegexes_eq_ok (patterns : List Text) (rs : List R) :
    compileRegexes newRegex patterns = .ok rs ↔
      (∀ pattern ∈ patterns, ∃ r, newRegex pattern = .ok r) ∧ rs = compiledRegexes newRegex patterns := by
  unfold compileRegexes compiledRegexes
  induction patterns generalizing rs with
  | nil =>
    constructor
    · intro h
      cases h
      exact ⟨by simp, rfl⟩
    · rintro ⟨-, rfl⟩
      rfl
  | cons pattern patterns ih =>
    rw [List.mapM_cons, List.forall_mem_cons, except_bind_eq_ok]
    cases hp : newRegex pattern with
    | error err =>
      refine iff_of_false ?_ ?_
      · rintro ⟨r, h, -⟩
        cases h
      · rintro ⟨⟨⟨r, h⟩, -⟩, -⟩
        cases h
    | ok r =>
      have hcons : (pattern :: patterns).filterMap (fun p => (newRegex p).toOption) =
          r :: patterns.filterMap fun p => (newRegex p).toOption := List.filterMap_cons_some (by rw [hp]; rfl)
      rw [hcons]
      constructor
      · rintro ⟨r', hr', h⟩
        cases hr'
        obtain ⟨rest, hrest, heq⟩ := except_bind_eq_ok.mp h
        cases heq
        obtain ⟨hall, rfl⟩ := (ih rest).mp hrest
        exact ⟨⟨⟨r, rfl⟩, hall⟩, rfl⟩
      · rintro ⟨⟨-, hall⟩, rfl⟩
        exact ⟨r, rfl, except_bind_eq_ok.mpr ⟨_, (ih _).mpr ⟨hall, rfl⟩, rfl⟩⟩

theorem gateHasPositiveMatcher_iff (gate : ManifestGate) :
    gateHasPositiveMatcher gate = true ↔ gate.matchers ≠ [] ∨ gate.all ≠ [] ∨ gate.any ≠ [] := by
  unfold gateHasPositiveMatcher ManifestGate.matchers
  simp only [Bool.or_eq_true, Bool.not_eq_true', List.isEmpty_eq_false_iff, ne_eq, List.append_eq_nil_iff, not_and_or,
    or_assoc]

/-! ## The compiler -/

/-- A gate is allowed if the checks on it pass, in the compiler's order. -/
theorem allowed_iff (gate : ManifestGate) (negated : Bool) (depth : Nat) :
    GateAt.Allowed newRegex ⟨gate, negated, depth⟩ ↔
      ¬ depth > maxGateDepth ∧ (gate.matchers.length ≤ 32 ∧ ∀ value ∈ gate.matchers, value.length ≤ 512) ∧
        ¬¬ (gateHasPositiveMatcher gate || negated && !gate.notGate.isEmpty) = true ∧
          (∀ pattern ∈ gate.regex, ∃ r, newRegex pattern = .ok r) ∧
            ∀ pattern ∈ gate.lineRegex, ∃ r, newRegex pattern = .ok r := by
  rw [not_not, Bool.or_eq_true, gateHasPositiveMatcher_iff, Bool.and_eq_true, Bool.not_eq_true',
    List.isEmpty_eq_false_iff, or_assoc, or_assoc]
  constructor
  · intro h
    have hcompiles := List.forall_mem_append.mp h.compiles
    exact ⟨Nat.not_lt_of_le h.deep, ⟨h.few, h.short⟩, h.holds, hcompiles.1, hcompiles.2⟩
  · rintro ⟨hdeep, ⟨hfew, hshort⟩, hholds, hregex, hline⟩
    exact ⟨Nat.le_of_not_lt hdeep, hfew, hshort, List.forall_mem_append.mpr ⟨hregex, hline⟩, hholds⟩

mutual

theorem compileGate_spends : ∀ (gate : ManifestGate) (negated : Bool) (depth : Nat),
    Spends maxComplexity (compileGate newRegex toLowercase gate negated depth)
      (∀ node ∈ gate.nodes negated depth, node.Allowed newRegex) (weight (gate.nodes negated depth))
      (gate.compiled newRegex toLowercase)
  | ⟨all, any, notGate, contains, regex, lineRegex⟩, negated, depth => by
    have hall := compileGates_spends all false (depth + 1)
    have hany := compileGates_spends any false (depth + 1)
    have hnot := compileGates_spends notGate true (depth + 1)
    have hregex := compileRegexes_eq_ok newRegex regex
    have hline := compileRegexes_eq_ok newRegex lineRegex
    rw [compileGate, ManifestGate.nodes, ManifestGate.compiled]
    refine ((Spends.refuseIf _ _).bind (countGate_spends.bind ((validateMatcherLimits_spends _).bind
      ((Spends.refuseIf _ _).bind (hall.bind (hany.bind (hnot.bind ((Spends.lift hregex).bind
        ((Spends.lift hline).map _))))))))).congr ?_ ?_ rfl
    · rw [List.forall_mem_cons, allowed_iff, List.forall_mem_append, List.forall_mem_append]
      tauto
    · rw [weight_cons, weight_append, weight_append]
      simp only [zero_add, add_zero]

theorem compileGates_spends : ∀ (gates : List ManifestGate) (negated : Bool) (depth : Nat),
    Spends maxComplexity (compileGates newRegex toLowercase gates negated depth)
      (∀ node ∈ gateNodes gates negated depth, node.Allowed newRegex) (weight (gateNodes gates negated depth))
      (compiledGates newRegex toLowercase gates)
  | [], negated, depth => by
    rw [compileGates, gateNodes, compiledGates]
    exact (Spends.pure _).congr (by simp) rfl rfl
  | gate :: rest, negated, depth => by
    have hgate := compileGate_spends gate negated depth
    have hrest := compileGates_spends rest negated depth
    rw [compileGates, gateNodes, compiledGates]
    refine (hgate.bind (hrest.map _)).congr ?_ ?_ rfl
    · rw [List.forall_mem_append]
    · rw [weight_append]

end

/-- Only the regions of the first lines that are not empty start so. -/
theorem spells_top_iff {r : Region} {t : Text} (h : r.Spells t) :
    "top_non_empty_lines(".toList.isPrefixOf t = true ↔ ∃ count, r = .screen (.topNonEmptyLines count) := by
  cases r with
  | oscTitle => exact iff_of_false (by rw [show t = _ from h]; decide) (by rintro ⟨count, hr⟩; cases hr)
  | oscProgress => exact iff_of_false (by rw [show t = _ from h]; decide) (by rintro ⟨count, hr⟩; cases hr)
  | screen r =>
    cases r with
    | topNonEmptyLines count =>
      obtain ⟨ds, hds, -⟩ := h
      exact iff_of_true (by rw [hds]; rfl) ⟨count, rfl⟩
    | bottomLines count =>
      obtain ⟨ds, hds, -⟩ := h
      refine iff_of_false ?_ (by rintro ⟨count, hr⟩; cases hr)
      rw [hds]
      exact Bool.false_ne_true
    | bottomNonEmptyLines count =>
      obtain ⟨ds, hds, -⟩ := h
      refine iff_of_false ?_ (by rintro ⟨count, hr⟩; cases hr)
      rw [hds]
      exact Bool.false_ne_true
    | _ => exact iff_of_false (by rw [show t = _ from h]; decide) (by rintro ⟨count, hr⟩; cases hr)

theorem version_old_iff (minEngineVersion : Option Nat) :
    ¬ minEngineVersion.any (fun version => decide (version < topNonEmptyLinesEngineVersion)) = true ↔
      ∀ version ∈ minEngineVersion, 3 ≤ version := by
  cases minEngineVersion with
  | none => simp
  | some version =>
    simp only [Option.any_some, Option.mem_def, Option.some.injEq, forall_eq']
    rw [decide_eq_true_eq]
    exact Nat.not_lt

/-- A rule is allowed if the checks on it pass, in the compiler's order. -/
theorem ruleAllowed_iff (minEngineVersion : Option Nat) (rule : ManifestRule) :
    rule.Allowed minEngineVersion ↔
      ¬ (trim rule.id).isEmpty = true ∧ ¬ (rule.skipStateUpdate = true ∧ rule.state ≠ some .unknown) ∧
        ¬ (rule.skipStateUpdate = true ∧
            (rule.visibleIdle || rule.visibleBlocker || rule.visibleWorking) = true) ∧
          (∃ r : Region, r.Spells (trim rule.region)) ∧
            ¬ ("top_non_empty_lines(".toList.isPrefixOf (trim rule.region) = true ∧
              minEngineVersion.any (fun version => decide (version < topNonEmptyLinesEngineVersion)) = true) := by
  have hid : ¬ (trim rule.id).isEmpty = true ↔ ∃ c ∈ rule.id, isWhitespace c = false := by
    rw [trim_isEmpty_iff]
    simp only [not_forall, Bool.not_eq_true, exists_prop]
  rw [hid]
  constructor
  · intro h
    obtain ⟨r, hr, htop⟩ := h.region
    refine ⟨h.named, ?_, ?_, ⟨r, hr⟩, ?_⟩
    · rintro ⟨hskip, hstate⟩
      exact hstate (h.neutral hskip).1
    · rintro ⟨hskip, hvisible⟩
      obtain ⟨-, hidle, hblocker, hworking⟩ := h.neutral hskip
      rw [hidle, hblocker, hworking] at hvisible
      exact Bool.false_ne_true hvisible
    · rintro ⟨hstarts, hold⟩
      obtain ⟨count, hcount⟩ := (spells_top_iff hr).mp hstarts
      exact (version_old_iff minEngineVersion).mpr (htop count hcount) hold
  · rintro ⟨hnamed, hstate, hvisible, ⟨r, hr⟩, hold⟩
    refine ⟨hnamed, ?_, r, hr, ?_⟩
    · intro hskip
      have hunknown : rule.state = some .unknown := not_not.mp fun hne => hstate ⟨hskip, hne⟩
      have hnone : (rule.visibleIdle || rule.visibleBlocker || rule.visibleWorking) = false :=
        Bool.eq_false_iff.mpr fun h => hvisible ⟨hskip, h⟩
      rw [Bool.or_eq_false_iff, Bool.or_eq_false_iff] at hnone
      exact ⟨hunknown, hnone.1.1, hnone.1.2, hnone.2⟩
    · intro count hcount
      have hstarts := (spells_top_iff hr).mpr ⟨count, hcount⟩
      exact (version_old_iff minEngineVersion).mp fun h => hold ⟨hstarts, h⟩

theorem compileRule_spends (minEngineVersion : Option Nat) (rule : ManifestRule) :
    Spends maxComplexity (compileRule newRegex toLowercase minEngineVersion rule)
      (rule.Allowed minEngineVersion ∧ ∀ node ∈ rule.gate.nodes false 0, node.Allowed newRegex)
      (weight (rule.gate.nodes false 0)) (rule.compiled newRegex toLowercase) := by
  have hregion : ∀ u : Unit, validateRegionName rule.region = .ok u ↔
      (∃ r : Region, r.Spells (trim rule.region)) ∧ u = () := by
    intro u
    rw [validateRegionName_iff, and_iff_left rfl]
  have hgate := compileGate_spends newRegex toLowercase rule.gate false 0
  unfold compileRule ManifestRule.compiled
  refine ((Spends.refuseIf _ _).bind ((Spends.refuseIf _ _).bind ((Spends.refuseIf _ _).bind
    (((Spends.lift hregion).explained _).bind ((Spends.refuseIf _ _).bind
      ((hgate.explained _).map _)))))).congr ?_ ?_ rfl
  · rw [ruleAllowed_iff]
    tauto
  · simp only [zero_add]

theorem checkEngineVersion_spends (minEngineVersion : Option Nat) :
    Spends maxComplexity (checkEngineVersion minEngineVersion) (∀ version ∈ minEngineVersion, version ≤ 3) 0 () := by
  cases minEngineVersion with
  | none => exact (Spends.pure ()).congr (by simp) rfl rfl
  | some required => exact (Spends.refuseIf _ _).congr (by simp [manifestEngineVersion]) rfl rfl

theorem weight_flatMap (rules : List ManifestRule) :
    (rules.map fun rule => weight (rule.gate.nodes false 0)).sum =
      weight (rules.flatMap fun rule => rule.gate.nodes false 0) := by
  induction rules with
  | nil => rfl
  | cons rule rules ih => rw [List.map_cons, List.sum_cons, ih, List.flatMap_cons, weight_append]

theorem compileRules_spends (manifest : AgentManifest) :
    Spends maxComplexity (compileRules newRegex toLowercase manifest)
      (((∀ version ∈ manifest.minEngineVersion, version ≤ 3) ∧
          1 ≤ manifest.rules.length ∧ manifest.rules.length ≤ 128) ∧
        (∀ rule ∈ manifest.rules, rule.Allowed manifest.minEngineVersion) ∧
          ∀ node ∈ manifest.gates, node.Allowed newRegex)
      (weight manifest.gates) (manifest.rules.map fun rule => rule.compiled newRegex toLowercase) := by
  have hrules := @Spends.mapM _ _ _ _ _ _ maxComplexity _ _ _ _ _ manifest.rules fun rule _ =>
    compileRule_spends newRegex toLowercase manifest.minEngineVersion rule
  refine ((checkEngineVersion_spends _).bind ((Spends.refuseIf _ _).bind ((Spends.refuseIf _ _).bind hrules))).congr
    ?_ ?_ rfl
  · have hgates : (∀ rule ∈ manifest.rules, ∀ node ∈ rule.gate.nodes false 0, node.Allowed newRegex) ↔
        ∀ node ∈ manifest.gates, node.Allowed newRegex := by
      unfold AgentManifest.gates
      simp only [List.mem_flatMap, forall_exists_index, and_imp]
      constructor
      · intro h node rule hrule hnode
        exact h rule hrule node hnode
      · intro h rule hrule node hnode
        exact h node rule hrule hnode
    have hsome : ¬ manifest.rules.isEmpty = true ↔ 1 ≤ manifest.rules.length := by
      rw [List.isEmpty_iff_length_eq_zero]
      omega
    have hfew : ¬ manifest.rules.length > maxRulesPerManifest ↔ manifest.rules.length ≤ 128 := Nat.not_lt
    rw [hsome, hfew]
    simp only [forall_and, hgates]
    tauto
  · rw [weight_flatMap]
    simp only [zero_add]
    rfl

theorem compileManifest_eq_ok (manifest : AgentManifest) (rules : List (Rule R)) :
    compileManifest newRegex toLowercase manifest = .ok rules ↔
      ((((∀ version ∈ manifest.minEngineVersion, version ≤ 3) ∧
            1 ≤ manifest.rules.length ∧ manifest.rules.length ≤ 128) ∧
          (∀ rule ∈ manifest.rules, rule.Allowed manifest.minEngineVersion) ∧
            ∀ node ∈ manifest.gates, node.Allowed newRegex) ∧
        weight manifest.gates ≤ maxComplexity) ∧
      rules = manifest.rules.map fun rule => rule.compiled newRegex toLowercase := by
  have hrun := (compileRules_spends newRegex toLowercase manifest).run_eq_ok ⟨0, 0⟩ ⟨Nat.zero_le _, Nat.zero_le _⟩
  have hmanifest : compileManifest newRegex toLowercase manifest =
      (compileRules newRegex toLowercase manifest).run ⟨0, 0⟩ >>= fun r => .ok r.1 := rfl
  have hweight : (⟨0, 0⟩ : ManifestComplexity) + weight manifest.gates = weight manifest.gates := zero_add _
  rw [hmanifest, except_bind_eq_ok]
  rw [hweight] at hrun
  constructor
  · rintro ⟨r, hr, heq⟩
    obtain ⟨hfine, rfl⟩ := (hrun r).mp hr
    cases heq
    exact ⟨hfine, rfl⟩
  · rintro ⟨hfine, rfl⟩
    exact ⟨_, (hrun _).mpr ⟨hfine, rfl⟩, rfl⟩

/-- Whatever the order in which the compiler meets them, the limits are those of the whole manifest. -/
theorem compileManifest_accepts (manifest : AgentManifest) (rules : List (Rule R)) :
    compileManifest newRegex toLowercase manifest = .ok rules ↔
      manifest.Allowed newRegex ∧ rules = manifest.rules.map fun rule => rule.compiled newRegex toLowercase := by
  rw [compileManifest_eq_ok]
  refine and_congr_left' ?_
  constructor
  · rintro ⟨⟨⟨hversion, hnonempty, hfew⟩, hrules, hgates⟩, hgateCount, hmatcherCount⟩
    exact ⟨hversion, hnonempty, hfew, hrules, hgates, hgateCount, hmatcherCount⟩
  · intro h
    exact ⟨⟨⟨h.version, h.nonempty, h.few⟩, h.rules, h.gates⟩, h.gateCount, h.matcherCount⟩

end

end Mux.Agents
