import Population.Description.Audit
import Population.Proofs.Description.Conforming
import Mathlib.Data.List.Induction

/-!
# Restating the protocol function

The protocol function of a description answers with the first line that it finds for a
state, while the map in a job's summary is built from all lines in turn, so that the last
line for a state stays.  They list the same states, and they agree on a state unless its
first and its last line differ.
-/

namespace Population

/-- What the lines of a protocol map list for a state, in turn. -/
def actionsFor (entries : List ProtocolEntry) (state : Text) : List (List Text) :=
  (entries.filter (·.state == state)).map (·.actions)

/-- The first and the last line for a state list different actions. -/
def Overrides (entries : List ProtocolEntry) (state : Text) : Prop :=
  (actionsFor entries state).head? ≠ (actionsFor entries state).getLast?

/-- The protocol function answers with the first line for a state. -/
theorem enabledIn_eq_head?
    {entries : List ProtocolEntry} (hlisted : ∀ e ∈ entries, e.listed = true) (state : Text) :
    enabledIn entries state = (actionsFor entries state).head? := by
  rw [enabledIn, actionsFor, List.head?_map, List.head?_filter]
  cases hfind : entries.find? (·.state == state) with
  | none => rfl
  | some e => rw [Option.filter_some, if_pos (hlisted e (List.mem_of_find?_eq_some hfind))]

theorem actionsFor_concat (entries : List ProtocolEntry) (e : ProtocolEntry) (state : Text) :
    actionsFor (entries ++ [e]) state =
      actionsFor entries state ++ if e.state = state then [e.actions] else [] := by
  rw [actionsFor, List.filter_append, List.map_append, actionsFor]
  congr 1
  by_cases hstate : e.state = state <;> simp [hstate]

/-- The map holds the last line for a state. -/
theorem getElem?_protocolMap (entries : List ProtocolEntry) (state : Text) :
    (protocolMap entries)[state]? = (actionsFor entries state).getLast? := by
  induction entries using List.reverseRecOn with
  | nil => rfl
  | append_singleton entries e ih =>
      have hadd : protocolMap (entries ++ [e]) =
          Std.TreeMap.insert (protocolMap entries) e.state e.actions := by
        rw [protocolMap, List.foldl_concat]
        rfl
      rw [hadd, Std.TreeMap.getElem?_insert, actionsFor_concat, ih]
      by_cases hstate : e.state = state
      · rw [if_pos hstate, if_pos (Std.LawfulEqCmp.compare_eq_iff_eq.mpr hstate),
          List.getLast?_concat]
      · rw [if_neg hstate, if_neg (mt Std.LawfulEqCmp.compare_eq_iff_eq.mp hstate),
          List.append_nil]

theorem mem_protocolMap_iff {entries : List ProtocolEntry} {state : Text} :
    state ∈ protocolMap entries ↔ ∃ e ∈ entries, e.state = state := by
  rw [Std.TreeMap.mem_iff_isSome_getElem?, getElem?_protocolMap, List.getLast?_isSome, actionsFor]
  simp

/-- A protocol function and a map of the same lines: the map has the states of the lines,
it shows what the function answers unless the last line for the state overrides the
first one, and then it shows the last line while the function answers with the first. -/
structure RestatesUnlessOverridden (entries : List ProtocolEntry) (m : ProtocolMap)
    (enabled : Text → Option (List Text)) (state : Text) : Prop where
  mem_iff : state ∈ m ↔ ∃ e ∈ entries, e.state = state
  eq_iff : m[state]? = enabled state ↔ ¬Overrides entries state
  shown : m[state]? = (actionsFor entries state).getLast?
  answered : enabled state = (actionsFor entries state).head?

theorem restatesUnlessOverridden
    {entries : List ProtocolEntry} (hlisted : ∀ e ∈ entries, e.listed = true) (state : Text) :
    RestatesUnlessOverridden entries (protocolMap entries) (enabledIn entries) state where
  mem_iff := mem_protocolMap_iff
  eq_iff := by
    rw [getElem?_protocolMap, enabledIn_eq_head? hlisted, Overrides, not_not, eq_comm]
  shown := getElem?_protocolMap entries state
  answered := enabledIn_eq_head? hlisted state

namespace Description

/-- The summary of a description that was read restates the protocol functions of agent
and environment, except for states with several lines of which the last overrides the
first. -/
theorem summary_restates_unless_overridden
    {t : Text} {d : Description} (hread : read t = .ok d) (state : Text) :
    RestatesUnlessOverridden d.agent.protocol d.summary.agentProtocol d.agent.enabled state ∧
      RestatesUnlessOverridden d.environment.protocol d.summary.environmentProtocol
        d.environment.enabled state := by
  obtain ⟨-, hlisted⟩ := read_conforms hread
  constructor
  · exact restatesUnlessOverridden (fun e he => hlisted e (List.mem_append_left _ he)) state
  · exact restatesUnlessOverridden (fun e he => hlisted e (List.mem_append_right _ he)) state

/-- The agent's map has two lines for one state that list different actions, the
environment's map two that list the same ones. -/
def repeatedLinesText : Text :=
  "idle: 1\ngo, halt\nidle: go\nidle: halt\nidle\nidle\ns0\nsync\ns0: sync\ns0: sync\ns0\n"

/-- The repeated line of the environment changes nothing, that of the agent does. -/
theorem summary_restates_unless_overridden_repeated :
    ∃ d, read repeatedLinesText = .ok d ∧
      d.summary.environmentProtocol[Text.ofString "s0"]? = d.environment.enabled "s0" ∧
      d.summary.agentProtocol[Text.ofString "idle"]? ≠ d.agent.enabled "idle" := by
  obtain ⟨d, hread, hlines⟩ := exists_eq_ok_of_any
    (x := read repeatedLinesText)
    (p := fun d =>
      actionsFor d.environment.protocol "s0" == [[Text.ofString "sync"], [Text.ofString "sync"]] &&
        actionsFor d.agent.protocol "idle" == [[Text.ofString "go"], [Text.ofString "halt"]])
    (by decide +kernel)
  obtain ⟨henvironment, hagent⟩ := Bool.and_eq_true_iff.mp hlines
  have hsame : ¬Overrides d.environment.protocol "s0" := by
    rw [Overrides, eq_of_beq henvironment]
    simp
  have hother : Overrides d.agent.protocol "idle" := by
    rw [Overrides, eq_of_beq hagent]
    decide
  refine ⟨d, hread, (summary_restates_unless_overridden hread "s0").2.eq_iff.mpr hsame, ?_⟩
  exact mt (summary_restates_unless_overridden hread "idle").1.eq_iff.mp (not_not.mpr hother)

/-- A second line for a state is what the summary shows, and the protocol function knows
only the first. -/
theorem summary_shows_last_line :
    ∃ d, read repeatedLinesText = .ok d ∧
      d.agent.enabled "idle" = some [Text.ofString "go"] ∧
      d.summary.agentProtocol[Text.ofString "idle"]? = some [Text.ofString "halt"] := by
  obtain ⟨d, hread, hlines⟩ := exists_eq_ok_of_any
    (x := read repeatedLinesText)
    (p := fun d => d.agent.enabled "idle" == some [Text.ofString "go"] &&
      d.summary.agentProtocol[Text.ofString "idle"]? == some [Text.ofString "halt"])
    (by decide +kernel)
  refine ⟨d, hread, ?_⟩
  simpa using hlines

end Description

end Population
