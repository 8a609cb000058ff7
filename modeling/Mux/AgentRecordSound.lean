import Mathlib.Data.List.Induction
import Mux.AgentRecord

/-!
# Whose state a session reports

The state of an agent is the last one that the rules gave while it has been in the
foreground. The record keeps the state of the record before without asking whose it was, so
an agent that comes up behind another one, and whose screen is covered from the start,
takes over the other one's state.
-/

namespace Mux.Agents

open Lib

section
variable (toLowercase : Text → Text)

/-- The agent in the foreground of a reading. -/
def Reading.agent (reading : Reading) : Option Agent := reading.argv.bind (fromCommand toLowercase)

/-- The last state determined among the readings since the agent last came to the foreground, or idle. -/
def coveredState (agent : Agent) (readings : List Reading) : AgentState :=
  ((readings.reverse.takeWhile fun r => r.agent toLowercase = some agent).findSome? fun r =>
    r.detection.state).getD .idle

/-- After a reading with an agent in the foreground the record has that agent, in the state it covers. -/
def Reports (earlier : List Reading) (reading : Reading) : Prop :=
  ∀ agent, reading.agent toLowercase = some agent →
    ∃ info, (recordAfter toLowercase (earlier ++ [reading])).agent = some info ∧ info.agent = agent.label ∧
      info.state = (coveredState toLowercase agent (earlier ++ [reading])).label

/-- A reading without a state for an agent that has just replaced another one finds the other one idle. -/
def Harmless (readings : List Reading) : Prop :=
  ∀ earlier last reading, earlier ++ [last, reading] <+: readings → ∀ agent other,
    reading.agent toLowercase = some agent → last.agent toLowercase = some other → other ≠ agent →
      reading.detection.state = none → coveredState toLowercase other (earlier ++ [last]) = .idle

theorem label_injective {s s' : AgentState} (h : s.label = s'.label) : s = s' := by
  cases s <;> cases s' <;> first | rfl | exact absurd h (by decide)

theorem coveredState_snoc (agent : Agent) (readings : List Reading) (reading : Reading) :
    coveredState toLowercase agent (readings ++ [reading]) =
      if reading.agent toLowercase = some agent then
        reading.detection.state.getD (coveredState toLowercase agent readings)
      else .idle := by
  unfold coveredState
  rw [List.reverse_append, List.reverse_singleton, List.singleton_append]
  by_cases h : reading.agent toLowercase = some agent
  · rw [if_pos h, List.takeWhile_cons_of_pos (by simpa using h), List.findSome?_cons]
    cases reading.detection.state <;> rfl
  · rw [if_neg h, List.takeWhile_cons_of_neg (by simpa using h)]
    rfl

theorem recordAfter_snoc (readings : List Reading) (reading : Reading) :
    recordAfter toLowercase (readings ++ [reading]) =
      ((recordAfter toLowercase readings).refreshAgent toLowercase reading).1 := by
  rw [recordAfter, List.foldl_append]
  rfl

/-- The state a reading stores: its own, or the one of the record before. -/
def Record.kept (previous : Record) (reading : Reading) : Text :=
  match reading.detection.state with
  | some state => state.label
  | none => previous.agent.elim AgentState.idle.label AgentInfo.state

theorem refreshAgent_agent (previous : Record) (reading : Reading) :
    (previous.refreshAgent toLowercase reading).1.agent =
      (reading.agent toLowercase).map fun agent => ⟨agent.label, previous.kept reading, topic reading.title⟩ := by
  unfold Record.refreshAgent
  simp only
  split <;> rfl

theorem reports_iff_kept (earlier : List Reading) (reading : Reading) :
    Reports toLowercase earlier reading ↔ ∀ agent, reading.agent toLowercase = some agent →
      (recordAfter toLowercase earlier).kept reading =
        (coveredState toLowercase agent (earlier ++ [reading])).label := by
  unfold Reports
  refine forall₂_congr fun agent hagent => ?_
  rw [recordAfter_snoc, refreshAgent_agent, hagent, Option.map_some]
  constructor
  · rintro ⟨info, hinfo, -, hstate⟩
    cases hinfo
    exact hstate
  · intro h
    exact ⟨_, rfl, rfl, h⟩

/-- The state before comes from the reading before, and is that of its agent. -/
theorem kept_of_reports {earlier : List Reading} {last reading : Reading} (hprev : Reports toLowercase earlier last)
    (hnone : reading.detection.state = none) :
    (recordAfter toLowercase (earlier ++ [last])).kept reading =
      ((last.agent toLowercase).elim AgentState.idle fun other =>
        coveredState toLowercase other (earlier ++ [last])).label := by
  unfold Record.kept
  rw [hnone]
  cases hlast : last.agent toLowercase with
  | none =>
    rw [recordAfter_snoc, refreshAgent_agent, hlast]
    rfl
  | some other =>
    obtain ⟨info, hinfo, -, hstate⟩ := hprev other hlast
    rw [hinfo]
    exact hstate

/-- One reading: what it reports is right unless it takes over another agent's state. -/
theorem reports_iff {earlier : List Reading} {last reading : Reading} (hprev : Reports toLowercase earlier last) :
    Reports toLowercase (earlier ++ [last]) reading ↔ ∀ agent other, reading.agent toLowercase = some agent →
      last.agent toLowercase = some other → other ≠ agent → reading.detection.state = none →
        coveredState toLowercase other (earlier ++ [last]) = .idle := by
  rw [reports_iff_kept]
  refine forall_congr' fun agent => ?_
  by_cases hagent : reading.agent toLowercase = some agent
  · simp only [hagent, forall_const, coveredState_snoc toLowercase agent (earlier ++ [last]), if_true]
    cases hnone : reading.detection.state with
    | some state =>
      have hkept : (recordAfter toLowercase (earlier ++ [last])).kept reading = state.label := by
        unfold Record.kept
        rw [hnone]
      refine iff_of_true hkept ?_
      intro other _ _ h
      cases h
    | none =>
      rw [kept_of_reports toLowercase hprev hnone, Option.getD_none]
      cases hlast : last.agent toLowercase with
      | none =>
        refine iff_of_true ?_ (by intro other h; cases h)
        rw [coveredState_snoc, hlast, if_neg (by simp)]
        rfl
      | some other =>
        simp only [Option.elim_some]
        by_cases heq : other = agent
        · subst heq
          refine iff_of_true rfl ?_
          intro other' h hne
          cases h
          exact absurd rfl hne
        · have hidle : coveredState toLowercase agent (earlier ++ [last]) = .idle := by
            rw [coveredState_snoc, hlast, if_neg (by simpa using heq)]
          rw [hidle]
          constructor
          · intro hlabel other' h _ _
            cases h
            exact label_injective hlabel
          · intro h
            rw [h other rfl heq (by trivial)]
  · exact iff_of_true (fun h => absurd h hagent) fun other h => absurd h hagent

/-- The first reading has nothing to take over. -/
theorem reports_first (reading : Reading) : Reports toLowercase [] reading := by
  rw [reports_iff_kept]
  intro agent hagent
  rw [coveredState_snoc, if_pos hagent]
  unfold Record.kept
  cases reading.detection.state <;> rfl

/-- Every reading reports its agent in the state it covers if and only if none replaces, without a state of its own,
an agent that was not idle. -/
theorem state_is_covered_iff (readings : List Reading) :
    (∀ earlier reading, earlier ++ [reading] <+: readings → Reports toLowercase earlier reading) ↔
      Harmless toLowercase readings := by
  constructor
  · intro h earlier last reading hpre
    have hlast : earlier ++ [last] <+: readings := by
      refine List.IsPrefix.trans ⟨[reading], ?_⟩ hpre
      rw [List.append_assoc]
      rfl
    have hreading : (earlier ++ [last]) ++ [reading] <+: readings := by
      rw [List.append_assoc]
      exact hpre
    exact (reports_iff toLowercase (h earlier last hlast)).mp (h (earlier ++ [last]) reading hreading)
  · intro h earlier
    induction earlier using List.reverseRecOn with
    | nil =>
      intro reading _
      exact reports_first toLowercase reading
    | append_singleton earlier last ih =>
      intro reading hpre
      have hlast : earlier ++ [last] <+: readings := List.IsPrefix.trans ⟨[reading], rfl⟩ hpre
      rw [List.append_assoc] at hpre
      exact (reports_iff toLowercase (ih last hlast)).mpr (h earlier last reading hpre)

end

/-- One agent works, and the next one comes up with its transcript open. -/
def claudeThenCodex : List Reading :=
  [⟨some ["claude".toList], [], ⟨some .working, some "osc_title_working".toList⟩⟩,
    ⟨some ["codex".toList], [], ⟨none, some "transcript_viewer".toList⟩⟩]

theorem state_of_other_agent_kept :
    ¬ ∀ readings earlier reading, earlier ++ [reading] <+: readings →
        Reports (List.map Char.toLower) earlier reading := by
  intro h
  obtain ⟨info, hinfo, -, hstate⟩ := h claudeThenCodex [claudeThenCodex[0]] claudeThenCodex[1] (List.prefix_refl _)
    .codex (by decide +kernel)
  have hworking : (recordAfter (List.map Char.toLower) claudeThenCodex).agent =
      some ⟨"codex".toList, "working".toList, []⟩ := by
    decide +kernel
  have hidle : coveredState (List.map Char.toLower) .codex claudeThenCodex = .idle := by
    decide +kernel
  have hsame : info = ⟨"codex".toList, "working".toList, []⟩ := Option.some.inj (hinfo.symm.trans hworking)
  have hlabel : info.state = AgentState.idle.label := hstate.trans (congrArg AgentState.label hidle)
  rw [hsame] at hlabel
  exact absurd hlabel (by decide)

end Mux.Agents
