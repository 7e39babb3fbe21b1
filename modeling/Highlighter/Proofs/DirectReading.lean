import Highlighter.Proofs.BuildVerdict
import Highlighter.Proofs.ByteOffsets

/-!
# Reading declarations directly

A built table has its spliced states in place.  The declarations can also be
read as they stand: in order, and into a spliced state where it is spliced
in.  The two readings agree, because a list of clauses and its expansion are
walked by the same steps, a splice taking as many places as its expansion has
rules.
-/

namespace Highlighter

/-- What the rule takes at the cursor; an empty match does not count. -/
def RuleDraft.takes? (compile : PatternCompiler) (rule : RuleDraft) (cursor : Cursor) :
    Option Thread :=
  match compile rule.pattern with
  | .error _ => none
  | .ok pattern =>
    (pattern.plan.marked.matchAt? cursor).filter fun thread =>
      cursor.offset < thread.cursor.offset

def RuleDraft.report (rule : RuleDraft) (cursor : Cursor) (thread : Thread) (next : StateId)
    (place : Nat) : RuleMatch where
  label := rule.labelling.ofMatch thread
  span := ⟨cursor.offset, thread.cursor.offset⟩
  next := next
  rule := place

/-- How a walk ends. -/
inductive Outcome where
  | found (rule : RuleDraft) (thread : Thread) (place : Nat)
  | passed (count : Nat)

/-- Walks declarations in order, and into spliced states, up to the first rule
that takes something at the cursor; `count` rules were passed before. -/
inductive Walk (compile : PatternCompiler) (states : List StateDraft) (cursor : Cursor) :
    List Declaration → Nat → Outcome → Prop
  | nil {count : Nat} : Walk compile states cursor [] count (.passed count)
  | found {rule : RuleDraft} {rest : List Declaration} {count : Nat} {thread : Thread} :
      rule.takes? compile cursor = some thread →
      Walk compile states cursor (.rule rule :: rest) count (.found rule thread count)
  | skipped {rule : RuleDraft} {rest : List Declaration} {count : Nat} {outcome : Outcome} :
      rule.takes? compile cursor = none →
      Walk compile states cursor rest (count + 1) outcome →
      Walk compile states cursor (.rule rule :: rest) count outcome
  | inside {name : String} {state : StateDraft} {rest : List Declaration} {count : Nat}
      {rule : RuleDraft} {thread : Thread} {place : Nat} :
      state ∈ states → state.name = name →
      Walk compile states cursor state.body count (.found rule thread place) →
      Walk compile states cursor (.splice name :: rest) count (.found rule thread place)
  | behind {name : String} {state : StateDraft} {rest : List Declaration} {count later : Nat}
      {outcome : Outcome} :
      state ∈ states → state.name = name →
      Walk compile states cursor state.body count (.passed later) →
      Walk compile states cursor rest later outcome →
      Walk compile states cursor (.splice name :: rest) count outcome

/-- What the declarations of `state` say of byte `pos` of a line.  A rule
without a next state stays in `state`, wherever it is declared. -/
inductive Reports (compile : PatternCompiler) (states : List StateDraft) (state : StateDraft)
    (line : List Char) (pos : Nat) : Option RuleMatch → Prop
  | outside :
      (∀ cursor : Cursor, ¬ cursor.StandsAt line pos) →
      Reports compile states state line pos none
  | unmatched {cursor : Cursor} {count : Nat} :
      cursor.StandsAt line pos →
      Walk compile states cursor state.body 0 (.passed count) →
      Reports compile states state line pos none
  | matched {cursor : Cursor} {rule : RuleDraft} {thread : Thread} {place : Nat}
      {next : StateId} :
      cursor.StandsAt line pos →
      Walk compile states cursor state.body 0 (.found rule thread place) →
      (StateDraft.names states)[next.index]? = some (rule.next.getD state.name) →
      Reports compile states state line pos (some (rule.report cursor thread next place))

/-! ## One reading -/

variable {compile : PatternCompiler}

theorem state_unique {states : List StateDraft} (hnodup : (StateDraft.names states).Nodup)
    {state state' : StateDraft} {name : String}
    (hstate : state ∈ states) (hname : state.name = name)
    (hstate' : state' ∈ states) (hname' : state'.name = name) : state = state' :=
  List.inj_on_of_nodup_map hnodup hstate hstate' (hname.trans hname'.symm)

theorem Walk.unique {states : List StateDraft} (hnodup : (StateDraft.names states).Nodup)
    {cursor : Cursor} {body : List Declaration} {count : Nat} {outcome outcome' : Outcome}
    (hwalk : Walk compile states cursor body count outcome)
    (hwalk' : Walk compile states cursor body count outcome') : outcome = outcome' := by
  induction hwalk generalizing outcome' with
  | nil =>
      cases hwalk'
      rfl
  | found htakes =>
      cases hwalk' with
      | found htakes' =>
          obtain rfl := Option.some.inj (htakes.symm.trans htakes')
          rfl
      | skipped hnone => simp [htakes] at hnone
  | skipped hnone _ ih =>
      cases hwalk' with
      | found htakes => simp [hnone] at htakes
      | skipped _ hrest => exact ih hrest
  | inside hstate hname _ ih =>
      cases hwalk' with
      | inside hstate' hname' hfound =>
          obtain rfl := state_unique hnodup hstate hname hstate' hname'
          exact ih hfound
      | behind hstate' hname' hpassed _ =>
          obtain rfl := state_unique hnodup hstate hname hstate' hname'
          exact absurd (ih hpassed) (by simp)
  | behind hstate hname _ _ ihInside ihBehind =>
      cases hwalk' with
      | inside hstate' hname' hfound =>
          obtain rfl := state_unique hnodup hstate hname hstate' hname'
          exact absurd (ihInside hfound) (by simp)
      | behind hstate' hname' hpassed hrest =>
          obtain rfl := state_unique hnodup hstate hname hstate' hname'
          obtain rfl := Outcome.passed.inj (ihInside hpassed)
          exact ihBehind hrest

theorem stateId_unique {names : List String} (hnodup : names.Nodup) {id id' : StateId}
    {name : String} (hid : names[id.index]? = some name)
    (hid' : names[id'.index]? = some name) : id = id' := by
  have hlt := (List.getElem?_eq_some_iff.mp hid).1
  have hindex := (List.getElem?_inj hlt hnodup).mp (hid.trans hid'.symm)
  cases id
  cases id'
  exact congrArg StateId.mk hindex

theorem Cursor.StandsAt.unique {line : List Char} {pos : Nat} {cursor cursor' : Cursor}
    (hstands : cursor.StandsAt line pos) (hstands' : cursor'.StandsAt line pos) :
    cursor = cursor' := by
  rw [← Cursor.at?_eq_some_iff] at hstands hstands'
  exact Option.some.inj (hstands.symm.trans hstands')

theorem Reports.unique {states : List StateDraft} (hnodup : (StateDraft.names states).Nodup)
    {state : StateDraft} {line : List Char} {pos : Nat} {result result' : Option RuleMatch}
    (hreports : Reports compile states state line pos result)
    (hreports' : Reports compile states state line pos result') : result = result' := by
  cases hreports with
  | outside hnone =>
      cases hreports' with
      | outside => rfl
      | unmatched => rfl
      | matched hstands => exact absurd hstands (hnone _)
  | unmatched hstands hwalk =>
      cases hreports' with
      | outside => rfl
      | unmatched => rfl
      | matched hstands' hwalk' =>
          obtain rfl := hstands.unique hstands'
          exact absurd (hwalk.unique hnodup hwalk') (by simp)
  | matched hstands hwalk hnext =>
      cases hreports' with
      | outside hnone => exact absurd hstands (hnone _)
      | unmatched hstands' hwalk' =>
          obtain rfl := hstands.unique hstands'
          exact absurd (hwalk.unique hnodup hwalk') (by simp)
      | matched hstands' hwalk' hnext' =>
          obtain rfl := hstands.unique hstands'
          obtain ⟨rfl, rfl, rfl⟩ := Outcome.found.inj (hwalk.unique hnodup hwalk')
          rw [stateId_unique hnodup hnext hnext']

/-! ## The flattened reading -/

theorem firstMatch?_append (state : StateId) (cursor : Cursor) (index : Nat)
    (first rules : List Rule) :
    firstMatch? state cursor index (first ++ rules) =
      (firstMatch? state cursor index first).or
        (firstMatch? state cursor (index + first.length) rules) := by
  induction first generalizing index with
  | nil => simp [firstMatch?]
  | cons rule first ih =>
      have hindex : index + 1 + first.length = index + (first.length + 1) := by omega
      simp only [List.cons_append, firstMatch?, List.length_cons, ih, hindex]
      split
      · rfl
      · split <;> simp

section Compiled

variable {rule : RuleDraft} {pattern : Pattern} {cursor : Cursor} {state : StateId}
  {index : Nat} {next : Option StateId} {rules : List Rule}

theorem firstMatch?_of_takes (hread : compile rule.pattern = .ok pattern)
    {thread : Thread} (htakes : rule.takes? compile cursor = some thread) :
    firstMatch? state cursor index
        (⟨rule.labelling, rule.pattern, pattern.plan.marked, next⟩ :: rules) =
      some (rule.report cursor thread (next.getD state) index, thread.cursor) := by
  simp only [RuleDraft.takes?, hread, Option.filter_eq_some_iff, decide_eq_true_eq] at htakes
  obtain ⟨hmatch, hlt⟩ := htakes
  simp only [firstMatch?, hmatch, if_pos hlt]
  rfl

theorem firstMatch?_of_not_takes (hread : compile rule.pattern = .ok pattern)
    (htakes : rule.takes? compile cursor = none) :
    firstMatch? state cursor index
        (⟨rule.labelling, rule.pattern, pattern.plan.marked, next⟩ :: rules) =
      firstMatch? state cursor (index + 1) rules := by
  simp only [RuleDraft.takes?, hread, Option.filter_eq_none_iff, decide_eq_true_eq] at htakes
  rw [firstMatch?]
  split
  next => rfl
  next thread hthread => rw [if_neg (htakes thread hthread)]

end Compiled

namespace Draft

variable {draft : Draft} {clauses : Clauses}

theorem exists_of_stateId? {name : String} {id : StateId}
    (hid : draft.stateId? name = some id) :
    ∃ state, draft.states[id.index]? = some state ∧ state.name = name := by
  have hname := names_of_stateId? hid
  rw [names, List.getElem?_map, Option.map_eq_some_iff] at hname
  exact hname

/-- A walk over declarations ends as the search through the rules they expand
to. -/
theorem walk_of_expands (hclauses : draft.compileStates compile draft.states = .ok clauses)
    (id : StateId) (cursor : Cursor)
    {path : List StateId} {body : List Clause} {rules : List Rule}
    (hexpands : clauses.Expands path body rules)
    {declarations : List Declaration}
    (hcompiled : List.Forall₂ (Declaration.Compiled compile draft) declarations body)
    (count : Nat) :
    (firstMatch? id cursor count rules = none ∧
      Walk compile draft.states cursor declarations count (.passed (count + rules.length))) ∨
    (∃ (rule : RuleDraft) (thread : Thread) (place : Nat) (next : Option StateId),
      firstMatch? id cursor count rules =
        some (rule.report cursor thread (next.getD id) place, thread.cursor) ∧
      rule.next.map draft.stateId? = next.map some ∧
      Walk compile draft.states cursor declarations count (.found rule thread place)) := by
  induction hexpands generalizing declarations count with
  | nil =>
      cases hcompiled
      exact Or.inl ⟨rfl, .nil⟩
  | @rule path rest compiled rules _ ih =>
      cases hcompiled with
      | cons hhead htail =>
          cases hhead with
          | @rule rule pattern next hread hnext =>
              cases htakes : rule.takes? compile cursor with
              | some thread =>
                  right
                  exact ⟨rule, thread, count, next, firstMatch?_of_takes hread htakes, hnext,
                    .found htakes⟩
              | none =>
                  rw [firstMatch?_of_not_takes hread htakes]
                  rcases ih htail (count + 1) with
                    ⟨hnone, hwalk⟩ | ⟨found, thread, place, target, hsome, htarget, hwalk⟩
                  · left
                    have hcount : count + 1 + rules.length = count + (rules.length + 1) := by
                      omega
                    rw [hcount] at hwalk
                    exact ⟨hnone, .skipped htakes hwalk⟩
                  · right
                    exact ⟨found, thread, place, target, hsome, htarget,
                      .skipped htakes hwalk⟩
  | @splice path rest target name first rules _ _ _ ihFirst ihRest =>
      cases hcompiled with
      | cons hhead htail =>
          cases hhead with
          | splice hid =>
              obtain ⟨state, hstate, hname⟩ := exists_of_stateId? hid
              have hmem : state ∈ draft.states := List.mem_of_getElem? hstate
              rw [firstMatch?_append]
              rcases ihFirst (body_compiled hclauses hstate) count with
                ⟨hnone, hinside⟩ | ⟨found, thread, place, next, hsome, hnext, hinside⟩
              · rw [hnone, Option.none_or]
                rcases ihRest htail (count + first.length) with
                  ⟨hnone, hwalk⟩ | ⟨found, thread, place, next, hsome, hnext, hwalk⟩
                · left
                  rw [List.length_append, ← Nat.add_assoc]
                  exact ⟨hnone, .behind hmem hname hinside hwalk⟩
                · right
                  exact ⟨found, thread, place, next, hsome, hnext,
                    .behind hmem hname hinside hwalk⟩
              · right
                rw [hsome, Option.some_or]
                exact ⟨found, thread, place, next, rfl, hnext, .inside hmem hname hinside⟩

theorem names_next {id : StateId} {name : String} (hid : draft.names[id.index]? = some name)
    {declared : Option String} {next : Option StateId}
    (hnext : declared.map draft.stateId? = next.map some) :
    draft.names[(next.getD id).index]? = some (declared.getD name) := by
  cases declared with
  | none =>
      cases next with
      | none => exact hid
      | some next => simp at hnext
  | some target =>
      cases next with
      | none => simp at hnext
      | some next =>
          have htarget : draft.stateId? target = some next := by simpa using hnext
          exact names_of_stateId? htarget

/-- A built table has the states of the draft, each with the rules that its
clauses expand to. -/
theorem build_expands {table : RuleTable} (hbuild : draft.build compile = .ok table) :
    ∃ clauses,
      draft.compileStates compile draft.states = .ok clauses ∧
      table.states.map (·.name) = draft.names ∧
      ∀ id state, table.state? id = some state → clauses.ExpandsTo id state.rules := by
  unfold build at hbuild
  split at hbuild
  next => simp at hbuild
  next =>
    split at hbuild
    next => simp at hbuild
    next start _ =>
      obtain ⟨clauses, hclauses, hrest⟩ := Except.bind_eq_ok_iff.mp hbuild
      obtain ⟨states, hstates, hresult⟩ := Except.bind_eq_ok_iff.mp hrest
      obtain rfl := Except.ok.inj hresult
      refine ⟨clauses, hclauses, ?_⟩
      rcases Clauses.flatten_ends (closed_of_compileStates hclauses) List.drop_zero with
        ⟨flattened, hflatten, hnames, hrules⟩ | ⟨_, _, _, herror, _⟩
      · obtain rfl := Except.ok.inj (hstates.symm.trans hflatten)
        refine ⟨hnames.trans (names_of_compileStates hclauses), ?_⟩
        intro id state hstate
        have hexpands := hrules id.index state hstate
        rw [Nat.zero_add] at hexpands
        exact hexpands
      · simp [hstates] at herror

theorem build_reports {table : RuleTable} (hbuild : draft.build compile = .ok table)
    {id : StateId} {state : StateDraft} (hstate : draft.states[id.index]? = some state)
    (line : List Char) (pos : Nat) :
    Reports compile draft.states state line pos (table.matchAt? id line pos) := by
  obtain ⟨clauses, hclauses, hnames, hrules⟩ := build_expands hbuild
  have hname : draft.names[id.index]? = some state.name := names_getElem? hstate
  obtain ⟨lexical, hlexical, _⟩ : ∃ lexical, table.state? id = some lexical ∧
      lexical.name = state.name := by
    rw [← hnames, List.getElem?_map, Option.map_eq_some_iff] at hname
    exact hname
  have htable : table.rules id = lexical.rules := by simp [RuleTable.rules, hlexical]
  cases hcursor : Cursor.at? line pos with
  | none =>
      have hresult : table.matchAt? id line pos = none := by
        simp [RuleTable.matchAt?, hcursor]
      rw [hresult]
      refine .outside ?_
      intro cursor hstands
      simp [Cursor.at?_eq_some_iff.mpr hstands] at hcursor
  | some cursor =>
      have hresult :
          table.matchAt? id line pos =
            (firstMatch? id cursor 0 lexical.rules).map (·.1) := by
        simp [RuleTable.matchAt?, RuleTable.matchFrom?, hcursor, htable]
      rw [hresult]
      have hstands := Cursor.at?_eq_some_iff.mp hcursor
      rcases walk_of_expands hclauses id cursor (hrules id lexical hlexical)
          (body_compiled hclauses hstate) 0 with
        ⟨hnone, hwalk⟩ | ⟨rule, thread, place, next, hsome, hnext, hwalk⟩
      · rw [hnone]
        exact .unmatched hstands hwalk
      · rw [hsome]
        exact .matched hstands hwalk (names_next hname hnext)

end Draft

theorem RuleTable.stateId?_eq {draft : Draft} {table : RuleTable}
    (hnames : table.states.map (·.name) = draft.names) (name : String) :
    table.stateId? name = draft.stateId? name := by
  unfold RuleTable.stateId? Draft.stateId?
  rw [← hnames, List.findIdx?_map]
  rfl

/-- Looking a state up in a built table is reading its declarations as they
stand.  The table numbers the states as they were declared. -/
theorem RuleTable.matchAt_iff_reports {compile : PatternCompiler} {calls : List DraftCall}
    {table : RuleTable} (hbuild : RuleTable.ofCallsWith compile calls = .ok table)
    {state : StateDraft}
    (hstate : state ∈ DraftCall.declared calls) :
    table.states.map (·.name) = StateDraft.names (DraftCall.declared calls) ∧
    ∃ id, table.stateId? state.name = some id ∧
      ∀ line pos result,
        table.matchAt? id line pos = result ↔
          Reports compile (DraftCall.declared calls) state line pos result := by
  have hverdict := RuleTable.ofCallsWith_verdict compile calls
  rw [hbuild] at hverdict
  cases hverdict with
  | built hnodup _ _ _ =>
      rw [← Draft.ofCalls_states] at hstate hnodup ⊢
      obtain ⟨_, _, hnames, _⟩ := Draft.build_expands hbuild
      obtain ⟨index, hindex⟩ := List.mem_iff_getElem?.mp hstate
      refine ⟨hnames, ⟨index⟩, ?_, ?_⟩
      · rw [RuleTable.stateId?_eq hnames]
        exact Draft.stateId?_of_nodup hnodup (Draft.names_getElem? hindex)
      · intro line pos result
        have hreports :
            Reports compile (Draft.ofCalls calls).states state line pos
              (table.matchAt? ⟨index⟩ line pos) :=
          Draft.build_reports hbuild hindex line pos
        constructor
        · rintro rfl
          exact hreports
        · intro hresult
          exact hreports.unique hnodup hresult

/-- A state spliced in through another, with a rule that can match nothing. -/
def nestedCalls : List DraftCall :=
  [.state "start", .splice "words", .token .classify "b",
   .state "words", .splice "letters", .token .classify "x*",
   .state "letters", .tokenNext .classify "a" "words"]

theorem RuleTable.matchAt_iff_reports_nested :
    ∃ table, RuleTable.ofCalls nestedCalls = .ok table ∧
      table.matchAt? ⟨0⟩ ['b'] 0 = some ⟨.classify, ⟨0, 1⟩, ⟨0⟩, 2⟩ ∧
      Reports Pattern.read (DraftCall.declared nestedCalls)
        ⟨"start", [.splice "words", .rule ⟨.classify, "b", none⟩]⟩ ['b'] 0
        (some ⟨.classify, ⟨0, 1⟩, ⟨0⟩, 2⟩) := by
  have hbuild :
      ∃ table, RuleTable.ofCalls nestedCalls = .ok table ∧
        table.stateId? "start" = some ⟨0⟩ ∧
        table.matchAt? ⟨0⟩ ['b'] 0 = some ⟨.classify, ⟨0, 1⟩, ⟨0⟩, 2⟩ :=
    ⟨_, rfl, rfl, rfl⟩
  have hstate :
      ⟨"start", [.splice "words", .rule ⟨.classify, "b", none⟩]⟩ ∈
        DraftCall.declared nestedCalls := by
    decide
  obtain ⟨table, htable, hstart, hmatch⟩ := hbuild
  obtain ⟨_, id, hid, hreports⟩ := RuleTable.matchAt_iff_reports htable hstate
  obtain rfl := Option.some.inj (hstart.symm.trans hid)
  exact ⟨table, htable, hmatch, (hreports ['b'] 0 _).mp hmatch⟩

end Highlighter
