import Population.Proofs.Encoding.Hazards
import Population.StateSpace.Basic

/-!
# What the absence of reachable hazards guarantees

A hazard is the before side of a transition and nothing else: the question about
it leaves no room for agents that take no part.  So if no hazard is reachable, a
forbidden state can still become occupied, but only in two ways.  Either agents
join in a forbidden state, or a transition fires while other agents stand by.
-/

namespace Population

open Encoding

variable {d : Description} {bound : Int64} {enc : Encoding} {m : Marking}

/-- No reachable marking answers the question about a hazard. -/
def HazardFree (enc : Encoding) : Prop :=
  ∀ u ∈ enc.hazards, ∀ m, enc.system.Reachable m →
    (Explicit.pattern u.marking).matches m = false

/-- A firing that brings an agent into a forbidden state although no hazard
tells: an agent joins there, or more agents are active than take part. -/
inductive Unforeseen (d : Description) (enc : Encoding) (m : Marking) : Text → Prop
  | joins {st : AgentState} (hst : st ∈ d.agent.states) (hweight : st.weight = 0)
      (hinitial : st.name = d.agent.initial) : Unforeseen d enc m "spawn"
  | bystanders {name : Text} {g : GlobalTransition} {st : AgentState}
      (hglobal : (name, g) ∈ enc.globals) (hst : st ∈ d.agent.states)
      (hweight : st.weight = 0) (hafter : st.name ∈ g.agentAfter)
      (hmore : (g.participants : Int) < m.value reservedName) : Unforeseen d enc m name

/-- The population without agents occupies nothing. -/
theorem not_occupied_of_start
    (hd : d.WellFormed) (h : Tallies d m (Configuration.start d)) : ¬Occupied d m := by
  rintro ⟨st, hst, -, hpositive⟩
  have hname : st.name ∈ d.agent.stateNames := List.mem_map.mpr ⟨st, hst, rfl⟩
  have hlawful : (Configuration.start d).Lawful d 0 :=
    Configuration.lawful_start hd (Int.le_refl 0)
  rw [(h.represents hd hlawful).agent st.name hname] at hpositive
  simp [Configuration.start] at hpositive

section FirstOccupation

variable {c : Configuration} {st : AgentState}

theorem value_eq_zero_of_not_occupied
    (h : Tallies d m c) (hfree : ¬Occupied d m) (hst : st ∈ d.agent.states)
    (hweight : st.weight = 0) : m.value st.name = 0 := by
  have hnonneg := h.nonneg st.name
  have hnot : ¬0 < m.value st.name := fun hpositive => hfree ⟨st, hst, hweight, hpositive⟩
  omega

/-- An agent that joins occupies the initial state. -/
theorem initial_of_spawn
    (h : Tallies d m c) (hfree : ¬Occupied d m) (hst : st ∈ d.agent.states)
    (hweight : st.weight = 0) (hne : st.name ≠ reservedName)
    (hexact : (spawn d bound).updates.Exact m)
    (hpositive : 0 < ((spawn d bound).updates.apply m).value st.name) :
    st.name = d.agent.initial := by
  by_contra hother
  have hzero := value_eq_zero_of_not_occupied h hfree hst hweight
  rw [spawn_updates] at hexact hpositive
  rw [value_apply_headcount hexact, hzero, if_neg (Ne.symm hother), if_neg (Ne.symm hne)]
    at hpositive
  simp at hpositive

/-- An agent that departs occupies nothing. -/
theorem not_occupied_of_leave
    (h : Tallies d m c) (hfree : ¬Occupied d m) (hst : st ∈ d.agent.states)
    (hweight : st.weight = 0) (hne : st.name ≠ reservedName)
    (hexact : (leave d).updates.Exact m) :
    ¬0 < ((leave d).updates.apply m).value st.name := by
  have hzero := value_eq_zero_of_not_occupied h hfree hst hweight
  have hminus : (-1 : Int64).toInt = -1 := rfl
  rw [leave_updates] at hexact ⊢
  rw [value_apply_headcount hexact, hzero, if_neg (Ne.symm hne), hminus]
  split <;> omega

/-- Agents that take part occupy their states after. -/
theorem mem_agentAfter_of_guarded
    {limit : Int} {g : GlobalTransition} {name : Text} (hd : d.WellFormed)
    (h : Tallies d m c) (hfree : ¬Occupied d m) (hst : st ∈ d.agent.states)
    (hweight : st.weight = 0) (hg : Arises d limit g)
    (hexact : (guarded name g).updates.Exact m)
    (hpositive : 0 < ((guarded name g).updates.apply m).value st.name) :
    st.name ∈ g.agentAfter := by
  have hzero := value_eq_zero_of_not_occupied h hfree hst hweight
  have hslim := hg.slim hd
  rw [value_apply_guarded hslim.count_before_lt hslim.count_after_lt hexact, hzero]
    at hpositive
  have hmem : st.name ∈ g.after := List.count_pos_iff.mp (by omega)
  rcases List.mem_cons.mp hmem with henvironment | hagent
  · have hname : st.name ∈ d.agent.stateNames := List.mem_map.mpr ⟨st, hst, rfl⟩
    exact absurd hname (hd.disjoint _ (henvironment ▸ hg.envAfter_mem hd))
  · exact hagent

/-- A forbidden state first becomes occupied by an agent that joins there or by
a transition that moves an agent there. -/
theorem first_occupation_cases
    {opts : CompositionOptions} {name : Text} {next : Marking}
    (h : enc.Abstracts d opts bound) (hm : enc.system.Reachable m)
    (hfire : enc.system.fireNamed? name m = some next)
    (hfree : ¬Occupied d m) (hoccupied : Occupied d next) :
    ∃ st ∈ d.agent.states, st.weight = 0 ∧
      (name = "spawn" ∧ st.name = d.agent.initial ∨
        ∃ g, (name, g) ∈ enc.globals ∧ st.name ∈ g.agentAfter ∧ Covers m g) := by
  have hd := h.wellFormed
  obtain ⟨st, hst, hweight, hpositive⟩ := hoccupied
  refine ⟨st, hst, hweight, ?_⟩
  have hne : st.name ≠ reservedName := by
    intro heq
    exact hd.reserved_not_agent (heq ▸ List.mem_map.mpr ⟨st, hst, rfl⟩)
  obtain ⟨t, ht, rfl, htfire⟩ := CounterSystem.exists_transition_of_fireNamed? hfire
  obtain ⟨hguard, rfl, -⟩ := Transition.fire?_eq_some_iff.mp htfire
  obtain ⟨c, -, hlawful, htally⟩ := exists_population h hm
  obtain ⟨hexact, -⟩ := htally.exists_step hd hlawful (h.encodes.transitions_eq ▸ ht) hguard
  rcases h.mem_transitions_iff.mp ht with rfl | rfl | ⟨name, g, hmem, rfl⟩
  · exact .inl ⟨rfl, initial_of_spawn htally hfree hst hweight hne hexact hpositive⟩
  · exact absurd hpositive (not_occupied_of_leave htally hfree hst hweight hne hexact)
  · have hg := h.arises hmem
    have hafter := mem_agentAfter_of_guarded hd htally hfree hst hweight hg hexact hpositive
    have hcover := (guarded_holds_iff (hg.slim hd).count_before_lt htally.nonneg name).mp hguard
    exact .inr ⟨g, hmem, hafter, hcover⟩

/-- Where all active agents take part, the marking is the before side. -/
theorem value_eq_count_of_all
    {g : GlobalTransition} (h : Tallies d m c) (htakes : List.Subperm g.before c.tokens)
    (hall : m.value reservedName ≤ g.participants) {s : Text} (hs : s ≠ reservedName) :
    m.value s = g.before.count s := by
  have hlength : c.tokens.length ≤ g.before.length := by
    rw [h.active] at hall
    simp only [Configuration.tokens, GlobalTransition.before, List.length_cons]
    unfold GlobalTransition.participants at hall
    omega
  rw [h.state s hs, (htakes.perm_of_length_le hlength).count_eq]

end FirstOccupation

section HazardFree

variable {opts : CompositionOptions} {name : Text}

/-- Where no hazard is reachable, a transition that populates a forbidden state
fires only while other agents stand by. -/
theorem participants_lt_active
    {g : GlobalTransition} {c : Configuration} (h : enc.Abstracts d opts bound)
    (hsafe : HazardFree enc) (hm : enc.system.Reachable m) (htally : Tallies d m c)
    (hmem : (name, g) ∈ enc.globals) (hforbidden : populatesForbidden d g = true)
    (htakes : List.Subperm g.before c.tokens) :
    (g.participants : Int) < m.value reservedName := by
  by_contra hall
  have hfiled : ∃ u ∈ enc.hazards, u.marking.key = g.needs.marking.key := by
    rw [h.encodes.hazards_eq, ← h.encodes.globals_eq]
    exact exists_hazard hmem hforbidden
  obtain ⟨u, hu, hkey⟩ := hfiled
  -- All active agents take part, so the marking answers the question about the hazard.
  have hmatches : (Explicit.pattern u.marking).matches m = true := by
    refine Pattern.exactly_matches_iff.mpr fun s hs => ?_
    have hne : s ≠ reservedName := by simpa using hs
    rw [Marking.get_eq_iff_value_eq,
      (h.filed hu).value_marking h.wellFormed (fun e he => h.arises he) (h.arises hmem) hkey,
      value_eq_count_of_all htally htakes (Int.not_lt.mp hall) hne]
  rw [hsafe u hu m hm] at hmatches
  simp at hmatches

theorem unforeseen_of_first_occupation
    {next : Marking} (h : enc.Abstracts d opts bound) (hsafe : HazardFree enc)
    (hm : enc.system.Reachable m) (hfire : enc.system.fireNamed? name m = some next)
    (hfree : ¬Occupied d m) (hoccupied : Occupied d next) : Unforeseen d enc m name := by
  have hd := h.wellFormed
  obtain ⟨st, hst, hweight, ⟨rfl, hinitial⟩ | ⟨g, hmem, hafter, hcover⟩⟩ :=
    first_occupation_cases h hm hfire hfree hoccupied
  · exact .joins hst hweight hinitial
  · have hforbidden := (populatesForbidden_iff hd).mpr ⟨st, hst, hweight, hafter⟩
    obtain ⟨c, -, -, htally⟩ := exists_population h hm
    have htakes := htally.takes_of_covers ((h.arises hmem).before_ne_reserved hd) hcover
    exact .bystanders hmem hst hweight hafter
      (participants_lt_active h hsafe hm htally hmem hforbidden htakes)

end HazardFree

/-! ## Checking by exploration -/

/-- Whether the states that exploration finds are closed under firing, answer no
question about a hazard, and yet the given firings occupy a forbidden state. -/
def occupiesUnnoticed (d : Description) (enc : Encoding) (names : List Text) : Bool :=
  let seen := (StateSpace.build enc.system 100 .unlimited).1.markings
  seen.contains enc.system.initial &&
    (seen.all fun m => (enc.system.fireable m).all fun step => seen.contains step.marking) &&
    (enc.hazards.all fun u => seen.all fun m => !(Explicit.pattern u.marking).matches m) &&
    (enc.system.run? names enc.system.initial).any fun m =>
      d.agent.states.any fun st => st.weight == 0 && 0 < (m.get st.name).toInt

theorem hazardFree_of_occupiesUnnoticed
    {names : List Text} (h : occupiesUnnoticed d enc names = true) :
    HazardFree enc ∧ ∃ m, enc.system.run? names enc.system.initial = some m ∧ Occupied d m := by
  simp only [occupiesUnnoticed, Bool.and_eq_true, List.contains_iff_mem, List.all_eq_true,
    Bool.not_eq_true', Option.any_eq_true, List.any_eq_true, beq_iff_eq,
    decide_eq_true_eq] at h
  obtain ⟨⟨⟨hinitial, hclosed⟩, hhazards⟩, m, hrun, st, hst, hweight, hpositive⟩ := h
  constructor
  · intro u hu m hm
    exact hhazards u hu m (hm.mem_of_closed hinitial hclosed)
  · exact ⟨m, hrun, st, hst, hweight, hpositive⟩

theorem exists_occupied
    (text : Text) (opts : CompositionOptions) (bound : Int64) (names : List Text)
    (h : ((Description.read text).toOption.any fun d =>
      (encode d (compose d opts).transitions ⟨bound, []⟩).toOption.any fun enc =>
        occupiesUnnoticed d enc names) = true) :
    ∃ d enc m, Description.read text = .ok d ∧
      encode d (compose d opts).transitions ⟨bound, []⟩ = .ok enc ∧ HazardFree enc ∧
      enc.system.run? names enc.system.initial = some m ∧ Occupied d m := by
  obtain ⟨d, hread, h⟩ := Description.exists_eq_ok_of_any h
  obtain ⟨enc, hencode, h⟩ := Description.exists_eq_ok_of_any h
  obtain ⟨hsafe, m, hrun, hoccupied⟩ := hazardFree_of_occupiesUnnoticed h
  exact ⟨d, enc, m, hread, hencode, hsafe, hrun, hoccupied⟩

/-! ## The guarantee and its limits -/

/-- Where no hazard is reachable, a forbidden state becomes occupied only by a
firing that no hazard describes. -/
theorem occupation_unforeseen
    {text : Text} (hread : Description.read text = .ok d) (opts : CompositionOptions)
    (hbound : 0 ≤ bound) (name : Text) :
    ∃ enc, encode d (compose d opts).transitions ⟨bound, name⟩ = .ok enc ∧
      (HazardFree enc → ∀ names final,
        enc.system.run? names enc.system.initial = some final → Occupied d final →
        ∃ earlier t later m next, names = earlier ++ t :: later ∧
          enc.system.run? earlier enc.system.initial = some m ∧
          enc.system.fireNamed? t m = some next ∧
          ¬Occupied d m ∧ Occupied d next ∧ Unforeseen d enc m t) := by
  obtain ⟨enc, hencode, h⟩ := exists_abstracts hread opts hbound name
  refine ⟨enc, hencode, ?_⟩
  intro hsafe names final hrun hoccupied
  have hstart := not_occupied_of_start h.wellFormed (tallies_initial h)
  obtain ⟨earlier, t, later, m, next, hnames, hbefore, hfire, hfree, hnext⟩ :=
    CounterSystem.exists_first_firing hstart hrun hoccupied
  have hm : enc.system.Reachable m := CounterSystem.Reachable.initial.run hbefore
  exact ⟨earlier, t, later, m, next, hnames, hbefore, hfire, hfree, hnext,
    unforeseen_of_first_occupation h hsafe hm hfire hfree hnext⟩

theorem occupation_unforeseen_relay :
    ∃ d enc final, Description.read (relayText "idle") = .ok d ∧ (0 : Int64) ≤ 2 ∧
      encode d (compose d ⟨1, false⟩).transitions ⟨2, []⟩ = .ok enc ∧ HazardFree enc ∧
      enc.system.run? ["spawn", "spawn", "t1", "t2"] enc.system.initial = some final ∧
      Occupied d final ∧
      ∃ earlier t later m next,
        (["spawn", "spawn", "t1", "t2"] : List Text) = earlier ++ t :: later ∧
        enc.system.run? earlier enc.system.initial = some m ∧
        enc.system.fireNamed? t m = some next ∧
        ¬Occupied d m ∧ Occupied d next ∧ Unforeseen d enc m t := by
  obtain ⟨d, enc, final, hread, hencode, hsafe, hrun, hoccupied⟩ :=
    exists_occupied (relayText "idle") ⟨1, false⟩ 2 ["spawn", "spawn", "t1", "t2"]
      (by decide +kernel)
  obtain ⟨enc', hencode', hunforeseen⟩ :=
    occupation_unforeseen hread ⟨1, false⟩ (by decide : (0 : Int64) ≤ 2) []
  obtain rfl : enc = enc' := Except.ok.inj (hencode.symm.trans hencode')
  exact ⟨d, enc, final, hread, by decide, hencode, hsafe, hrun, hoccupied,
    hunforeseen hsafe _ final hrun hoccupied⟩

/-- Without reachable hazards no reachable marking occupies a forbidden state. -/
def AbsenceIsSafety (text : Text) (opts : CompositionOptions) (bound : Int64) : Prop :=
  ∀ d enc, Description.read text = .ok d →
    encode d (compose d opts).transitions ⟨bound, []⟩ = .ok enc → HazardFree enc →
    ∀ m, enc.system.Reachable m → ¬Occupied d m

theorem not_absenceIsSafety
    {text : Text} {opts : CompositionOptions} (names : List Text)
    (h : ((Description.read text).toOption.any fun d =>
      (encode d (compose d opts).transitions ⟨bound, []⟩).toOption.any fun enc =>
        occupiesUnnoticed d enc names) = true) : ¬AbsenceIsSafety text opts bound := by
  intro hsafety
  obtain ⟨d, enc, m, hread, hencode, hsafe, hrun, hoccupied⟩ :=
    exists_occupied text opts bound names h
  exact hsafety d enc hread hencode hsafe m (CounterSystem.Reachable.initial.run hrun) hoccupied

/-- Agents join in a forbidden state. -/
def trapText : Text :=
  Text.cat ["bad: 0\n", "go\n", "bad\n", "bad\n", "s0\n", "sync\n", "s0\n"]

/-- With an agent standing by that was served before, a hit finds an idle agent
unnoticed; so does joining in a forbidden state. -/
theorem absence_is_not_safety :
    ¬AbsenceIsSafety (relayText "idle") ⟨1, false⟩ 2 ∧
      ¬AbsenceIsSafety trapText ⟨1, false⟩ 1 := by
  constructor
  · exact not_absenceIsSafety ["spawn", "spawn", "t1", "t2"] (by decide +kernel)
  · exact not_absenceIsSafety ["spawn"] (by decide +kernel)

end Population
