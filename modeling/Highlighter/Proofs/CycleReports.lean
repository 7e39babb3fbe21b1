import Highlighter.Proofs.BuildVerdict
import Mathlib.Tactic

/-!
# Reports of splice cycles

The states are read in the order of their declaration, so a report names the
first of them from which a cycle can be reached, and the state at which the
reading came back to its path.  That state always lies on a cycle.  The one
that is named first need not: it is only where the reading began.
-/

namespace Highlighter

open Relation

/-! ## What a reading has seen -/

namespace Clauses

variable {clauses : Clauses} {path : List StateId} {body : List Clause} {rules : List Rule}

theorem Expands.not_cyclic (hexpands : clauses.Expands path body rules)
    {target id : StateId} {name : String} (hmem : .splice target name ∈ body)
    (hreach : ReflTransGen clauses.Splices target id) :
    ¬ TransGen clauses.Splices id id := by
  induction hexpands generalizing target name with
  | nil => simp at hmem
  | rule _ ih =>
      rcases List.mem_cons.mp hmem with hhead | hrest
      · cases hhead
      · exact ih hrest hreach
  | splice _ hinside _ ihTarget ihRest =>
      rcases List.mem_cons.mp hmem with hhead | hrest
      · cases hhead
        intro hcycle
        rcases ReflTransGen.cases_head hreach with rfl | ⟨inner, ⟨via, hinner⟩, hbehind⟩
        -- A way back to the target would lead the reading inside of it to its own path.
        · obtain ⟨inner, ⟨via, hinner⟩, hback⟩ := TransGen.head'_iff.mp hcycle
          exact hinside.not_mem_path hinner hback List.mem_cons_self
        · exact ihTarget hinner hbehind hcycle
      · exact ihRest hrest hreach

/-- A state whose reading ends with rules leads to no cycle. -/
theorem ExpandsTo.leads_to_no_cycle {state id : StateId}
    (hexpands : clauses.ExpandsTo state rules)
    (hreach : ReflTransGen clauses.Splices state id) :
    ¬ TransGen clauses.Splices id id := by
  rcases ReflTransGen.cases_head hreach with rfl | ⟨target, ⟨name, hmem⟩, hbehind⟩
  · exact hexpands.not_cyclic
  · exact Expands.not_cyclic hexpands hmem hbehind

end Clauses

/-! ## The states that a report names -/

namespace StateDraft

/-- The state includes itself, and `via` lies on the way. -/
def IncludesItselfThrough (states : List StateDraft) (state via : String) : Prop :=
  TransGen (Includes states) state via ∧ ReflTransGen (Includes states) via state

def LeadsToCycle (states : List StateDraft) (state : String) : Prop :=
  ∃ name, ReflTransGen (Includes states) state name ∧ TransGen (Includes states) name name

/-- Of the states that lead to a cycle, the one that was declared first. -/
def FirstLeading (states : List StateDraft) (name : String) : Prop :=
  ∃ before draft after,
    states = before ++ draft :: after ∧
    draft.name = name ∧
    LeadsToCycle states name ∧
    ∀ earlier ∈ before, ¬ LeadsToCycle states earlier.name

theorem FirstLeading.unique {states : List StateDraft} {name name' : String}
    (hfirst : FirstLeading states name) (hfirst' : FirstLeading states name') :
    name = name' := by
  obtain ⟨before, draft, after, hstates, rfl, hleads, hbefore⟩ := hfirst
  obtain ⟨before', draft', after', hstates', rfl, hleads', hbefore'⟩ := hfirst'
  rcases List.append_eq_append_iff.mp (hstates.symm.trans hstates') with
    ⟨middle, hfront, hback⟩ | ⟨middle, hfront, hback⟩
  · cases middle with
    | nil => rw [(List.cons.inj hback).1]
    | cons first middle =>
        obtain ⟨rfl, _⟩ := List.cons.inj hback
        exact absurd hleads (hbefore' draft (by simp [hfront]))
  · cases middle with
    | nil => rw [(List.cons.inj hback).1]
    | cons first middle =>
        obtain ⟨rfl, _⟩ := List.cons.inj hback
        exact absurd hleads' (hbefore draft' (by simp [hfront]))

end StateDraft

namespace Draft

variable {compile : PatternCompiler} {draft : Draft} {clauses : Clauses}

theorem nameAt_of_stateId? {name : String} {id : StateId}
    (hid : draft.stateId? name = some id) : draft.nameAt id = name := by
  rw [nameAt, names_of_stateId? hid, Option.getD_some]

theorem idOf_name (hnodup : draft.names.Nodup) {index : Nat} {state : StateDraft}
    (hstate : draft.states[index]? = some state) : draft.idOf state.name = ⟨index⟩ := by
  rw [idOf, stateId?_of_nodup hnodup (names_getElem? hstate), Option.getD_some]

/-- A state whose clauses can be put in place leads to no cycle by name. -/
theorem not_leadsToCycle (hclauses : draft.compileStates compile draft.states = .ok clauses)
    (hnodup : draft.names.Nodup) {index : Nat} {state : StateDraft}
    (hstate : draft.states[index]? = some state) {rules : List Rule}
    (hexpands : clauses.ExpandsTo ⟨index⟩ rules) :
    ¬ StateDraft.LeadsToCycle draft.states state.name := by
  rintro ⟨name, hreach, hcycle⟩
  have hreach' : ReflTransGen clauses.Splices (draft.idOf state.name) (draft.idOf name) :=
    hreach.lift draft.idOf fun _ _ => splices_idOf hclauses hnodup
  have hcycle' : TransGen clauses.Splices (draft.idOf name) (draft.idOf name) :=
    hcycle.lift draft.idOf fun _ _ => splices_idOf hclauses hnodup
  rw [idOf_name hnodup hstate] at hreach'
  exact hexpands.leads_to_no_cycle hreach' hcycle'

/-- A state whose reading comes back to its path leads to a cycle by name. -/
theorem leads_of_loops (hclauses : draft.compileStates compile draft.states = .ok clauses)
    {index : Nat} {state : StateDraft} (hstate : draft.states[index]? = some state) {via : String}
    (hloops : clauses.Loops [⟨index⟩] (clauses.body ⟨index⟩) via) :
    TransGen (StateDraft.Includes draft.states) state.name via ∧
    TransGen (StateDraft.Includes draft.states) via via := by
  obtain ⟨holder, target, hclause, hleads, hcycle⟩ := hloops.root_reaches_cycle
  obtain ⟨holding, _, hholding, _⟩ := splice_of_splices hclauses ⟨via, hclause⟩
  have hvia : draft.nameAt target = via :=
    nameAt_of_stateId? (splice_of_clause_mem (body_compiled hclauses hholding) hclause).2
  have hname : draft.nameAt ⟨index⟩ = state.name := by
    rw [nameAt, names_getElem? hstate, Option.getD_some]
  have hleads' : TransGen (StateDraft.Includes draft.states)
      (draft.nameAt ⟨index⟩) (draft.nameAt target) :=
    hleads.lift draft.nameAt fun _ _ => includes_nameAt hclauses
  have hcycle' : TransGen (StateDraft.Includes draft.states)
      (draft.nameAt target) (draft.nameAt target) :=
    hcycle.lift draft.nameAt fun _ _ => includes_nameAt hclauses
  rw [hname, hvia] at hleads'
  rw [hvia] at hcycle'
  exact ⟨hleads', hcycle'⟩

/-- The build comes to a report of a cycle only when everything is compiled. -/
theorem exists_clauses_of_spliceCycle {state via : String}
    (hbuild : draft.build compile = .error (.spliceCycle state via)) :
    ∃ clauses,
      draft.compileStates compile draft.states = .ok clauses ∧
      clauses.flatten 0 clauses = .error (.spliceCycle state via) := by
  unfold build at hbuild
  split at hbuild
  next => simp at hbuild
  next =>
    split at hbuild
    next => simp at hbuild
    next =>
      rcases Except.bind_eq_error_iff.mp hbuild with hcompile | ⟨clauses, hclauses, hrest⟩
      · exact (compileStates_eq_error_iff.mp hcompile).atDeclaration.elim
      · rcases Except.bind_eq_error_iff.mp hrest with hflatten | ⟨_, _, hdone⟩
        · exact ⟨clauses, hclauses, hflatten⟩
        · cases hdone

/-- The reported state is the first that leads to a cycle, and the state by
which it was found is one on a cycle that it leads to. -/
theorem spliceCycle_leads (hnodup : draft.names.Nodup) {state via : String}
    (hbuild : draft.build compile = .error (.spliceCycle state via)) :
    TransGen (StateDraft.Includes draft.states) state via ∧
    TransGen (StateDraft.Includes draft.states) via via ∧
    StateDraft.FirstLeading draft.states state := by
  obtain ⟨clauses, hclauses, hflatten⟩ := exists_clauses_of_spliceCycle hbuild
  rcases Clauses.flatten_ends (closed_of_compileStates hclauses) List.drop_zero with
    ⟨_, hstates, _⟩ | ⟨place, name, found, herror, hname, hloops, hbefore⟩
  · simp [hflatten] at hstates
  · obtain ⟨rfl, rfl⟩ : name = state ∧ found = via := by
      simpa using herror.symm.trans hflatten
    simp only [Nat.zero_add] at hloops hbefore
    obtain ⟨here, hhere, rfl⟩ : ∃ here, draft.states[place]? = some here ∧ here.name = name := by
      rwa [← List.getElem?_map, names_of_compileStates hclauses, names, List.getElem?_map,
        Option.map_eq_some_iff] at hname
    obtain ⟨hleads, hcycle⟩ := leads_of_loops hclauses hhere hloops
    refine ⟨hleads, hcycle, draft.states.take place, here, draft.states.drop (place + 1), ?_, rfl,
      ⟨found, hleads.to_reflTransGen, hcycle⟩, ?_⟩
    · obtain ⟨hlt, hget⟩ := List.getElem?_eq_some_iff.mp hhere
      rw [← hget, List.getElem_cons_drop, List.take_append_drop]
    · intro earlier hearlier
      obtain ⟨index, hlt, hget⟩ := List.mem_take_iff_getElem.mp hearlier
      obtain ⟨rules, hexpands⟩ := hbefore index (by omega)
      have hstate : draft.states[index]? = some earlier :=
        List.getElem?_eq_some_iff.mpr ⟨by omega, hget⟩
      exact not_leadsToCycle hclauses hnodup hstate hexpands

end Draft

open StateDraft

/-- A cycle is reported for the first state that leads to one, by way of a
state that includes itself.  That the first one includes itself is true exactly
if a chain leads back to it. -/
theorem RuleTable.ofCalls_reports_reached_cycle (compile : PatternCompiler)
    (calls : List DraftCall) :
    let states := DraftCall.declared calls
    let result := RuleTable.ofCallsWith compile calls
    (∀ state,
      (∃ via, result = .error (.spliceCycle state via)) ↔
        (names states).Nodup ∧ startName ∈ names states ∧ Sound compile states ∧
          FirstLeading states state) ∧
    ∀ state via, result = .error (.spliceCycle state via) →
      IncludesItselfThrough states via via ∧
      TransGen (Includes states) state via ∧
      (IncludesItselfThrough states state via ↔ ReflTransGen (Includes states) via state) := by
  intro states result
  have hverdict : Verdict compile states result :=
    RuleTable.ofCallsWith_verdict compile calls
  have hnodup : ∀ {state via}, result = .error (.spliceCycle state via) →
      (names states).Nodup := fun hreport => (hverdict.cycle_iff.mp ⟨_, _, hreport⟩).1
  have hleads : ∀ {state via}, result = .error (.spliceCycle state via) →
      TransGen (Includes states) state via ∧
      TransGen (Includes states) via via ∧
      FirstLeading states state := by
    intro state via hreport
    have hnames := hnodup hreport
    simp only [states, ← Draft.ofCalls_states] at hnames ⊢
    exact Draft.spliceCycle_leads hnames hreport
  refine ⟨?_, ?_⟩
  · intro state
    constructor
    · rintro ⟨via, hreport⟩
      obtain ⟨hnames, hstart, hsound, _⟩ := hverdict.cycle_iff.mp ⟨state, via, hreport⟩
      exact ⟨hnames, hstart, hsound, (hleads hreport).2.2⟩
    · rintro ⟨hnames, hstart, hsound, hfirst⟩
      obtain ⟨_, _, _, _, _, ⟨name, _, hcycle⟩, _⟩ := id hfirst
      obtain ⟨other, via, hreport⟩ := hverdict.of_cyclic hnames hstart hsound ⟨name, hcycle⟩
      obtain rfl := hfirst.unique (hleads hreport).2.2
      exact ⟨via, hreport⟩
  · intro state via hreport
    obtain ⟨hstate, hvia, _⟩ := hleads hreport
    exact ⟨⟨hvia, .refl⟩, hstate, ⟨fun hthrough => hthrough.2, fun hback => ⟨hstate, hback⟩⟩⟩

/-- Two states that include each other, behind a third. -/
theorem RuleTable.ofCalls_reports_reached_cycle_behind :
    let calls : List DraftCall :=
      [.state "start", .splice "a", .state "a", .splice "b", .state "b", .splice "a"]
    RuleTable.ofCalls calls = .error (.spliceCycle "start" "a") ∧
    IncludesItselfThrough (DraftCall.declared calls) "a" "a" ∧
    TransGen (Includes (DraftCall.declared calls)) "start" "a" := by
  intro calls
  have hreport : RuleTable.ofCalls calls = .error (.spliceCycle "start" "a") := by decide
  obtain ⟨hvia, hleads, _⟩ :=
    (RuleTable.ofCalls_reports_reached_cycle Pattern.read calls).2 "start" "a" hreport
  exact ⟨hreport, hvia, hleads⟩

/-- Nothing includes the state that is said to include itself. -/
theorem RuleTable.cycle_report_names_outsider :
    let calls : List DraftCall :=
      [.state "start", .splice "a", .state "a", .splice "b", .state "b", .splice "a"]
    RuleTable.ofCalls calls = .error (.spliceCycle "start" "a") ∧
    (BuildError.spliceCycle "start" "a").message =
      "state `start` includes itself through `a`" ∧
    ¬ IncludesItselfThrough (DraftCall.declared calls) "start" "a" := by
  intro calls
  refine ⟨by decide, by decide, ?_⟩
  rintro ⟨_, hback⟩
  rcases hback.cases_tail with hsame | ⟨holder, _, draft, hdraft, _, hsplice⟩
  · exact absurd hsame (by decide)
  · have hfree : ∀ draft ∈ DraftCall.declared calls, .splice "start" ∉ draft.body := by decide
    exact hfree draft hdraft hsplice

end Highlighter
