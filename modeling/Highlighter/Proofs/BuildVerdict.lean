import Highlighter.Proofs.DeclaredStates
import Highlighter.Proofs.Splicing

/-!
# The verdict on a table

Building a table from calls gives the first of five verdicts that applies: a
name is declared twice, there is no start state, a declaration is defective,
the states splice one another in a circle, or the table is built.  The states
splice one another by name, the clauses by number; since the names differ, a
circle in one is a circle in the other.
-/

namespace Highlighter

open Relation

namespace StateDraft

def Includes (states : List StateDraft) (state target : String) : Prop :=
  ∃ draft ∈ states, draft.name = state ∧ Declaration.splice target ∈ draft.body

def Cyclic (states : List StateDraft) : Prop :=
  ∃ name, TransGen (Includes states) name name

end StateDraft

theorem exists_of_mem_right {α β : Type} {related : α → β → Prop} {xs : List α} {ys : List β}
    (hrelated : List.Forall₂ related xs ys) {y : β} (hy : y ∈ ys) : ∃ x ∈ xs, related x y := by
  induction hrelated with
  | nil => simp at hy
  | cons hhead _ ih =>
      rcases List.mem_cons.mp hy with rfl | hrest
      · exact ⟨_, List.mem_cons_self, hhead⟩
      · obtain ⟨x, hx, hxy⟩ := ih hrest
        exact ⟨x, List.mem_cons_of_mem _ hx, hxy⟩

section Body

variable {compile : PatternCompiler} {draft : Draft} {body : List Declaration}
  {clauses : List Clause}

theorem splice_of_clause_mem
    (hcompiled : List.Forall₂ (Declaration.Compiled compile draft) body clauses)
    {id : StateId} {name : String} (hmem : .splice id name ∈ clauses) :
    .splice name ∈ body ∧ draft.stateId? name = some id := by
  obtain ⟨declaration, hbody, hdeclaration⟩ := exists_of_mem_right hcompiled hmem
  cases hdeclaration with
  | splice hid => exact ⟨hbody, hid⟩

theorem clause_of_splice_mem
    (hcompiled : List.Forall₂ (Declaration.Compiled compile draft) body clauses)
    {name : String} (hmem : .splice name ∈ body) :
    ∃ id, draft.stateId? name = some id ∧ .splice id name ∈ clauses := by
  obtain ⟨clause, hclause, hdeclaration⟩ := exists_of_mem_right hcompiled.flip hmem
  cases hdeclaration with
  | splice hid => exact ⟨_, hid, hclause⟩

theorem next_of_clause_mem
    (hcompiled : List.Forall₂ (Declaration.Compiled compile draft) body clauses)
    {rule : Rule} (hmem : .rule rule ∈ clauses) {id : StateId}
    (hnext : rule.next = some id) : ∃ target, draft.stateId? target = some id := by
  obtain ⟨declaration, _, hdeclaration⟩ := exists_of_mem_right hcompiled hmem
  cases hdeclaration with
  | @rule declared pattern next _ hresolved =>
      dsimp only at hnext
      rw [hnext] at hresolved
      cases hdeclared : declared.next with
      | none => simp [hdeclared] at hresolved
      | some target => exact ⟨target, by simpa [hdeclared] using hresolved⟩

end Body

namespace Draft

theorem names_getElem? {draft : Draft} {index : Nat} {state : StateDraft}
    (hstate : draft.states[index]? = some state) : draft.names[index]? = some state.name := by
  simp [names, hstate]

section Compiled

variable {compile : PatternCompiler} {draft : Draft} {clauses : Clauses}

theorem names_of_compileStates
    (hclauses : draft.compileStates compile draft.states = .ok clauses) :
    clauses.map (·.1) = draft.names := by
  have hcompiled := compileStates_compiled hclauses
  unfold names
  clear hclauses
  generalize draft.states = states at hcompiled ⊢
  induction hcompiled with
  | nil => rfl
  | cons hhead _ ih => simp [hhead.1, ih]

theorem length_of_compileStates
    (hclauses : draft.compileStates compile draft.states = .ok clauses) :
    clauses.length = draft.names.length := by
  rw [← names_of_compileStates hclauses, List.length_map]

theorem body_compiled (hclauses : draft.compileStates compile draft.states = .ok clauses)
    {id : StateId} {state : StateDraft} (hstate : draft.states[id.index]? = some state) :
    List.Forall₂ (Declaration.Compiled compile draft) state.body (clauses.body id) := by
  obtain ⟨hlt, rfl⟩ := List.getElem?_eq_some_iff.mp hstate
  obtain ⟨hlength, hget⟩ := List.forall₂_iff_get.mp (compileStates_compiled hclauses)
  have hlt' : id.index < clauses.length := hlength ▸ hlt
  have hbody : clauses.body id = clauses[id.index].2 := by
    simp [Clauses.body, hlt']
  rw [hbody]
  exact (hget id.index hlt hlt').2

theorem splice_of_splices (hclauses : draft.compileStates compile draft.states = .ok clauses)
    {id target : StateId} (hsplices : clauses.Splices id target) :
    ∃ state name, draft.states[id.index]? = some state ∧
      .splice name ∈ state.body ∧ draft.stateId? name = some target := by
  have hlt := Clauses.lt_length_of_splices hsplices
  rw [length_of_compileStates hclauses, names, List.length_map] at hlt
  have hstate := List.getElem?_eq_getElem hlt
  obtain ⟨name, hmem⟩ := hsplices
  exact ⟨_, name, hstate, splice_of_clause_mem (body_compiled hclauses hstate) hmem⟩

theorem closed_of_compileStates
    (hclauses : draft.compileStates compile draft.states = .ok clauses) :
    clauses.Closed := by
  intro id target hsplices
  obtain ⟨_, name, _, _, hname⟩ := splice_of_splices hclauses hsplices
  rw [length_of_compileStates hclauses]
  exact (List.getElem?_eq_some_iff.mp (names_of_stateId? hname)).1

theorem includes_of_splices (hclauses : draft.compileStates compile draft.states = .ok clauses)
    {id target : StateId} (hsplices : clauses.Splices id target) :
    ∃ state name, draft.names[id.index]? = some state ∧
      draft.names[target.index]? = some name ∧
      StateDraft.Includes draft.states state name := by
  obtain ⟨state, name, hstate, hmem, hname⟩ := splice_of_splices hclauses hsplices
  exact ⟨state.name, name, names_getElem? hstate, names_of_stateId? hname,
    state, List.mem_of_getElem? hstate, rfl, hmem⟩

theorem splices_of_includes (hclauses : draft.compileStates compile draft.states = .ok clauses)
    (hnodup : draft.names.Nodup) {state name : String}
    (hincludes : StateDraft.Includes draft.states state name) :
    ∃ id target, draft.stateId? state = some id ∧ draft.stateId? name = some target ∧
      clauses.Splices id target := by
  obtain ⟨found, hfound, rfl, hmem⟩ := hincludes
  obtain ⟨index, hindex⟩ := List.mem_iff_getElem?.mp hfound
  have hid : draft.stateId? found.name = some ⟨index⟩ :=
    stateId?_of_nodup hnodup (names_getElem? hindex)
  have hcompiled :
      List.Forall₂ (Declaration.Compiled compile draft) found.body (clauses.body ⟨index⟩) :=
    body_compiled hclauses hindex
  obtain ⟨target, htarget, hclause⟩ := clause_of_splice_mem hcompiled hmem
  exact ⟨⟨index⟩, target, hid, htarget, name, hclause⟩

/-- The name of a state, and the state of a name. -/
def nameAt (draft : Draft) (id : StateId) : String :=
  (draft.names[id.index]?).getD ""

def idOf (draft : Draft) (name : String) : StateId :=
  (draft.stateId? name).getD ⟨0⟩

theorem includes_nameAt (hclauses : draft.compileStates compile draft.states = .ok clauses)
    {id target : StateId} (hsplices : clauses.Splices id target) :
    StateDraft.Includes draft.states (draft.nameAt id) (draft.nameAt target) := by
  obtain ⟨state, name, hstate, hname, hincludes⟩ := includes_of_splices hclauses hsplices
  simpa [nameAt, hstate, hname] using hincludes

theorem splices_idOf (hclauses : draft.compileStates compile draft.states = .ok clauses)
    (hnodup : draft.names.Nodup) {state name : String}
    (hincludes : StateDraft.Includes draft.states state name) :
    clauses.Splices (draft.idOf state) (draft.idOf name) := by
  obtain ⟨id, target, hid, htarget, hsplices⟩ := splices_of_includes hclauses hnodup hincludes
  simpa [idOf, hid, htarget] using hsplices

/-- A circle among the clauses is one among the declared states. -/
theorem cyclic_iff (hclauses : draft.compileStates compile draft.states = .ok clauses)
    (hnodup : draft.names.Nodup) :
    (∃ id, TransGen clauses.Splices id id) ↔ StateDraft.Cyclic draft.states := by
  constructor
  · rintro ⟨id, hcycle⟩
    exact ⟨_, hcycle.lift draft.nameAt fun _ _ => includes_nameAt hclauses⟩
  · rintro ⟨name, hcycle⟩
    exact ⟨_, hcycle.lift draft.idOf fun _ _ => splices_idOf hclauses hnodup⟩

end Compiled

end Draft

/-- The errors that a single declaration can have. -/
def BuildError.AtDeclaration : BuildError → Prop
  | .unknownState _ _ | .invalidPattern _ _ _ | .captureMismatch _ _ _ _ => True
  | .missingStart | .duplicateState _ | .spliceCycle _ _ => False

variable {compile : PatternCompiler}

theorem FirstDefect.atDeclaration {names : List String} {sites : List Site}
    {error : BuildError} (hdefect : FirstDefect compile names sites error) :
    error.AtDeclaration := by
  obtain ⟨_, _, _, _, _, hsite⟩ := hdefect
  cases hsite <;> trivial

namespace StateDraft

def names (states : List StateDraft) : List String :=
  states.map (·.name)

def Sound (compile : PatternCompiler) (states : List StateDraft) : Prop :=
  ∀ site ∈ Site.ofStates states, site.Sound compile (names states)

theorem not_sound_of_firstDefect {states : List StateDraft} {error : BuildError}
    (hdefect : FirstDefect compile (names states) (Site.ofStates states) error) :
    ¬ Sound compile states := by
  intro hsound
  obtain ⟨before, site, after, hsites, _, hsite⟩ := hdefect
  exact hsound site (by simp [hsites]) error hsite

theorem firstDefect_unique {states : List StateDraft} {error error' : BuildError}
    (hdefect : FirstDefect compile (names states) (Site.ofStates states) error)
    (hdefect' : FirstDefect compile (names states) (Site.ofStates states) error') :
    error = error' := by
  have hfail : Draft.compileStates ⟨states, none⟩ compile states = .error error :=
    Draft.compileStates_eq_error_iff.mpr hdefect
  have hfail' : Draft.compileStates ⟨states, none⟩ compile states = .error error' :=
    Draft.compileStates_eq_error_iff.mpr hdefect'
  exact Except.error.inj (hfail.symm.trans hfail')

/-- What building can say of declared states.  Each case rules out the ones
before it. -/
inductive Verdict (compile : PatternCompiler) (states : List StateDraft) :
    Except BuildError RuleTable → Prop
  | duplicate {name : String} :
      FirstRepeat (names states) name →
      Verdict compile states (.error (.duplicateState name))
  | missingStart :
      (names states).Nodup → startName ∉ names states →
      Verdict compile states (.error .missingStart)
  | defect {error : BuildError} :
      (names states).Nodup → startName ∈ names states →
      FirstDefect compile (names states) (Site.ofStates states) error →
      Verdict compile states (.error error)
  | cycle {state via : String} :
      (names states).Nodup → startName ∈ names states →
      Sound compile states → Cyclic states →
      Verdict compile states (.error (.spliceCycle state via))
  | built {table : RuleTable} :
      (names states).Nodup → startName ∈ names states →
      Sound compile states → ¬ Cyclic states →
      Verdict compile states (.ok table)

end StateDraft

namespace Draft

theorem build_of_start {draft : Draft} (hduplicate : draft.duplicate = none)
    {start : StateId} (hstart : draft.stateId? startName = some start) :
    draft.build compile =
      (draft.compileStates compile draft.states >>= fun clauses =>
        (clauses.flatten 0 clauses).map (RuleTable.mk · start)) := by
  simp only [build, hduplicate, hstart]
  rfl

theorem build_verdict (compile : PatternCompiler) {draft : Draft} (htracks : draft.TracksNames) :
    StateDraft.Verdict compile draft.states (draft.build compile) := by
  unfold TracksNames at htracks
  cases hduplicate : draft.duplicate with
  | some name =>
      rw [hduplicate] at htracks
      have hbuild : draft.build compile = .error (.duplicateState name) := by
        simp only [build, hduplicate]
      rw [hbuild]
      exact .duplicate htracks
  | none =>
      rw [hduplicate] at htracks
      cases hstart : draft.stateId? startName with
      | none =>
          have hbuild : draft.build compile = .error .missingStart := by
            simp only [build, hduplicate, hstart]
          rw [hbuild]
          exact .missingStart htracks (stateId?_eq_none_iff.mp hstart)
      | some start =>
          have hmem : startName ∈ draft.names :=
            List.mem_of_getElem? (names_of_stateId? hstart)
          rw [build_of_start hduplicate hstart]
          cases hclauses : draft.compileStates compile draft.states with
          | error error =>
              exact .defect htracks hmem (compileStates_eq_error_iff.mp hclauses)
          | ok clauses =>
              change StateDraft.Verdict compile draft.states
                ((clauses.flatten 0 clauses).map (RuleTable.mk · start))
              have hsound : StateDraft.Sound compile draft.states :=
                (exists_ok_iff_sound fun _ => compileStates_eq_error_iff).mp ⟨clauses, hclauses⟩
              have hcyclic := cyclic_iff hclauses htracks
              rcases Clauses.flatten_verdict (closed_of_compileStates hclauses) with
                ⟨states, hstates, hacyclic⟩ | ⟨name, via, herror, hcycle⟩
              · rw [hstates]
                exact .built htracks hmem hsound (mt hcyclic.mpr hacyclic)
              · rw [herror]
                exact .cycle htracks hmem hsound (hcyclic.mp hcycle)

end Draft

theorem RuleTable.ofCallsWith_verdict (compile : PatternCompiler) (calls : List DraftCall) :
    StateDraft.Verdict compile (DraftCall.declared calls) (ofCallsWith compile calls) := by
  rw [← Draft.ofCalls_states]
  exact Draft.build_verdict compile (Draft.ofCalls_tracksNames calls)

namespace StateDraft.Verdict

variable {states : List StateDraft} {result : Except BuildError RuleTable}

theorem of_repeat (hverdict : Verdict compile states result) {name : String}
    (hrepeat : FirstRepeat (names states) name) :
    result = .error (.duplicateState name) := by
  cases hverdict with
  | duplicate hother => rw [hrepeat.unique hother]
  | _ hnodup => exact absurd hnodup hrepeat.not_nodup

theorem of_no_start (hverdict : Verdict compile states result) (hnodup : (names states).Nodup)
    (hstart : startName ∉ names states) : result = .error .missingStart := by
  cases hverdict with
  | duplicate hrepeat => exact absurd hnodup hrepeat.not_nodup
  | missingStart => rfl
  | _ _ hmem => exact absurd hmem hstart

theorem of_defect (hverdict : Verdict compile states result) (hnodup : (names states).Nodup)
    (hstart : startName ∈ names states) {error : BuildError}
    (hdefect : FirstDefect compile (names states) (Site.ofStates states) error) :
    result = .error error := by
  cases hverdict with
  | duplicate hrepeat => exact absurd hnodup hrepeat.not_nodup
  | missingStart _ hmissing => exact absurd hstart hmissing
  | defect _ _ hother => rw [firstDefect_unique hdefect hother]
  | _ _ _ hsound => exact absurd hsound (not_sound_of_firstDefect hdefect)

theorem of_cyclic (hverdict : Verdict compile states result) (hnodup : (names states).Nodup)
    (hstart : startName ∈ names states) (hsound : Sound compile states) (hcyclic : Cyclic states) :
    ∃ state via, result = .error (.spliceCycle state via) := by
  cases hverdict with
  | duplicate hrepeat => exact absurd hnodup hrepeat.not_nodup
  | missingStart _ hmissing => exact absurd hstart hmissing
  | defect _ _ hdefect => exact absurd hsound (not_sound_of_firstDefect hdefect)
  | cycle => exact ⟨_, _, rfl⟩
  | built _ _ _ hacyclic => exact absurd hcyclic hacyclic

theorem of_acyclic (hverdict : Verdict compile states result) (hnodup : (names states).Nodup)
    (hstart : startName ∈ names states) (hsound : Sound compile states)
    (hacyclic : ¬ Cyclic states) : ∃ table, result = .ok table := by
  cases hverdict with
  | duplicate hrepeat => exact absurd hnodup hrepeat.not_nodup
  | missingStart _ hmissing => exact absurd hstart hmissing
  | defect _ _ hdefect => exact absurd hsound (not_sound_of_firstDefect hdefect)
  | cycle _ _ _ hcyclic => exact absurd hcyclic hacyclic
  | built => exact ⟨_, rfl⟩

theorem duplicate_iff (hverdict : Verdict compile states result) (name : String) :
    result = .error (.duplicateState name) ↔ FirstRepeat (names states) name := by
  refine ⟨?_, hverdict.of_repeat⟩
  rintro rfl
  cases hverdict with
  | duplicate hrepeat => exact hrepeat
  | defect _ _ hdefect => exact hdefect.atDeclaration.elim

theorem missingStart_iff (hverdict : Verdict compile states result) :
    result = .error .missingStart ↔ (names states).Nodup ∧ startName ∉ names states := by
  refine ⟨?_, fun ⟨hnodup, hstart⟩ => hverdict.of_no_start hnodup hstart⟩
  rintro rfl
  cases hverdict with
  | missingStart hnodup hstart => exact ⟨hnodup, hstart⟩
  | defect _ _ hdefect => exact hdefect.atDeclaration.elim

theorem defect_iff (hverdict : Verdict compile states result) {error : BuildError}
    (herror : error.AtDeclaration) :
    result = .error error ↔
      (names states).Nodup ∧ startName ∈ names states ∧
      FirstDefect compile (names states) (Site.ofStates states) error := by
  refine ⟨?_, fun ⟨hnodup, hstart, hdefect⟩ => hverdict.of_defect hnodup hstart hdefect⟩
  rintro rfl
  cases hverdict with
  | defect hnodup hstart hdefect => exact ⟨hnodup, hstart, hdefect⟩
  | _ => exact herror.elim

theorem cycle_iff (hverdict : Verdict compile states result) :
    (∃ state via, result = .error (.spliceCycle state via)) ↔
      (names states).Nodup ∧ startName ∈ names states ∧ Sound compile states ∧ Cyclic states := by
  refine ⟨?_, fun ⟨hnodup, hstart, hsound, hcyclic⟩ =>
    hverdict.of_cyclic hnodup hstart hsound hcyclic⟩
  rintro ⟨state, via, rfl⟩
  cases hverdict with
  | defect _ _ hdefect => exact hdefect.atDeclaration.elim
  | cycle hnodup hstart hsound hcyclic => exact ⟨hnodup, hstart, hsound, hcyclic⟩

theorem built_iff (hverdict : Verdict compile states result) :
    (∃ table, result = .ok table) ↔
      (names states).Nodup ∧ startName ∈ names states ∧ Sound compile states ∧ ¬ Cyclic states := by
  refine ⟨?_, fun ⟨hnodup, hstart, hsound, hacyclic⟩ =>
    hverdict.of_acyclic hnodup hstart hsound hacyclic⟩
  rintro ⟨table, rfl⟩
  cases hverdict with
  | built hnodup hstart hsound hacyclic => exact ⟨hnodup, hstart, hsound, hacyclic⟩

end StateDraft.Verdict

open StateDraft in
/-- Building decides whether the declared states make a table, and otherwise
names the first fault in a fixed order, whatever the compiler makes of the
patterns. -/
theorem RuleTable.ofCalls_gives_first_verdict (compile : PatternCompiler)
    (calls : List DraftCall) :
    let states := DraftCall.declared calls
    let result := RuleTable.ofCallsWith compile calls
    (∀ name, result = .error (.duplicateState name) ↔ FirstRepeat (names states) name) ∧
    (result = .error .missingStart ↔
      (names states).Nodup ∧ startName ∉ names states) ∧
    (∀ error, error.AtDeclaration →
      (result = .error error ↔
        (names states).Nodup ∧ startName ∈ names states ∧
        FirstDefect compile (names states) (Site.ofStates states) error)) ∧
    ((∃ state via, result = .error (.spliceCycle state via)) ↔
      (names states).Nodup ∧ startName ∈ names states ∧ Sound compile states ∧ Cyclic states) ∧
    ((∃ table, result = .ok table) ↔
      (names states).Nodup ∧ startName ∈ names states ∧ Sound compile states ∧
        ¬ Cyclic states) := by
  intro states result
  have hverdict : Verdict compile states result := RuleTable.ofCallsWith_verdict compile calls
  refine ⟨hverdict.duplicate_iff, hverdict.missingStart_iff, ?_, hverdict.cycle_iff,
    hverdict.built_iff⟩
  intro error herror
  exact hverdict.defect_iff herror

end Highlighter
