import Highlighter.Proofs.DirectReading
import Highlighter.Proofs.IncrementalHighlighting
import Highlighter.Proofs.ScanRuns

/-!
# States that exist

The rules of a built table lead to states of the table only: a rule keeps the
next state that its declaration was resolved to, wherever splicing puts it.
The states reached by scanning are therefore states of the table as well.
What a line ends in is its own start state, the next state of a rule that won,
or the start state of the table, and a document only ever keeps states that a
line has ended in.
-/

namespace Highlighter

namespace RuleTable

def HasState (table : RuleTable) (id : StateId) : Prop :=
  ∃ state, table.state? id = some state

/-- Neither the table nor a rule of it leads to a state that is not there. -/
structure Closed (table : RuleTable) : Prop where
  start : table.HasState table.start
  next : ∀ state ∈ table.states, ∀ rule ∈ state.rules, ∀ id,
    rule.next = some id → table.HasState id

theorem hasState_iff {table : RuleTable} {id : StateId} :
    table.HasState id ↔ id.index < table.states.length := by
  unfold HasState state?
  constructor
  · rintro ⟨state, hstate⟩
    exact (List.getElem?_eq_some_iff.mp hstate).1
  · intro hlt
    exact ⟨_, List.getElem?_eq_getElem hlt⟩

theorem stateName_of_names {table : RuleTable} {id : StateId} {name : String}
    (hname : (table.states.map (·.name))[id.index]? = some name) :
    table.stateName id = name := by
  rw [List.getElem?_map, Option.map_eq_some_iff] at hname
  obtain ⟨state, hstate, hname⟩ := hname
  unfold stateName state?
  rw [hstate]
  exact hname

end RuleTable

/-! ## Built tables -/

namespace Clauses

theorem Expands.mem_rules {clauses : Clauses} {path : List StateId} {body : List Clause}
    {rules : List Rule} (hexpands : clauses.Expands path body rules)
    {id : StateId} (hbody : body ⊆ clauses.body id) {rule : Rule} (hrule : rule ∈ rules) :
    ∃ source, Clause.rule rule ∈ clauses.body source := by
  induction hexpands generalizing id with
  | nil => simp at hrule
  | rule _ ih =>
      have hrest := List.subset_of_cons_subset hbody
      rcases List.mem_cons.mp hrule with heq | hrule
      · rw [heq]
        exact ⟨id, hbody List.mem_cons_self⟩
      · exact ih hrest hrule
  | splice _ _ _ ihTarget ihRest =>
      have hrest := List.subset_of_cons_subset hbody
      rcases List.mem_append.mp hrule with hinside | hbehind
      · exact ihTarget (List.Subset.refl _) hinside
      · exact ihRest hrest hbehind

end Clauses

namespace Draft

variable {compile : PatternCompiler} {draft : Draft} {table : RuleTable}

theorem stateId?_lt {name : String} {id : StateId} (hid : draft.stateId? name = some id) :
    id.index < draft.names.length :=
  (List.getElem?_eq_some_iff.mp (names_of_stateId? hid)).1

theorem build_start (hbuild : draft.build compile = .ok table) :
    draft.stateId? startName = some table.start := by
  unfold build at hbuild
  split at hbuild
  next => simp at hbuild
  next =>
    split at hbuild
    next => simp at hbuild
    next start hstart =>
      obtain ⟨clauses, _, hrest⟩ := Except.bind_eq_ok_iff.mp hbuild
      obtain ⟨states, _, hresult⟩ := Except.bind_eq_ok_iff.mp hrest
      obtain rfl := Except.ok.inj hresult
      exact hstart

/-- Every rule of the table is the rule of a declaration. -/
theorem clause_of_mem_rules (hbuild : draft.build compile = .ok table)
    {state : LexicalState} (hstate : state ∈ table.states)
    {rule : Rule} (hrule : rule ∈ state.rules) :
    ∃ body clauses,
      List.Forall₂ (Declaration.Compiled compile draft) body clauses ∧
      Clause.rule rule ∈ clauses := by
  obtain ⟨clauses, hclauses, _, hrules⟩ := build_expands hbuild
  obtain ⟨index, hindex⟩ := List.mem_iff_getElem?.mp hstate
  have hexpands := hrules ⟨index⟩ state hindex
  obtain ⟨source, hclause⟩ := hexpands.mem_rules (List.Subset.refl _) hrule
  have hsource := Clauses.lt_length_of_mem_body hclause
  rw [length_of_compileStates hclauses, names, List.length_map] at hsource
  exact ⟨_, _, body_compiled hclauses (List.getElem?_eq_getElem hsource), hclause⟩

theorem build_closed (hbuild : draft.build compile = .ok table) : table.Closed := by
  obtain ⟨clauses, _, hnames, _⟩ := build_expands hbuild
  have hcount : table.states.length = draft.names.length := by
    have hlength := congrArg List.length hnames
    simpa using hlength
  constructor
  · have hstart := stateId?_lt (build_start hbuild)
    rw [RuleTable.hasState_iff]
    omega
  · intro state hstate rule hrule id hnext
    obtain ⟨body, clauses, hcompiled, hclause⟩ := clause_of_mem_rules hbuild hstate hrule
    obtain ⟨target, htarget⟩ := next_of_clause_mem hcompiled hclause hnext
    have hlt := stateId?_lt htarget
    rw [RuleTable.hasState_iff]
    omega

theorem build_stateId?_stateName (hbuild : draft.build compile = .ok table)
    (hnodup : draft.names.Nodup) {id : StateId} (hid : table.HasState id) :
    table.stateId? (table.stateName id) = some id := by
  obtain ⟨clauses, _, hnames, _⟩ := build_expands hbuild
  obtain ⟨state, hstate⟩ := hid
  have hname : (table.states.map (·.name))[id.index]? = some state.name := by
    rw [List.getElem?_map]
    exact congrArg (Option.map (·.name)) hstate
  rw [RuleTable.stateName_of_names hname, RuleTable.stateId?_eq hnames]
  rw [hnames] at hname
  exact stateId?_of_nodup hnodup hname

theorem build_stateName_stateId? (hbuild : draft.build compile = .ok table) {name : String}
    (hname : name ∈ draft.names) :
    ∃ id, table.stateId? name = some id ∧ table.HasState id ∧ table.stateName id = name := by
  obtain ⟨clauses, _, hnames, _⟩ := build_expands hbuild
  cases hid : draft.stateId? name with
  | none => exact absurd hname (stateId?_eq_none_iff.mp hid)
  | some id =>
      have hplace := names_of_stateId? hid
      rw [← hnames] at hplace
      have hlt : id.index < table.states.length := by
        have hplaceLt := (List.getElem?_eq_some_iff.mp hplace).1
        simpa using hplaceLt
      exact ⟨id, by rw [RuleTable.stateId?_eq hnames, hid], RuleTable.hasState_iff.mpr hlt,
        RuleTable.stateName_of_names hplace⟩

end Draft

/-! ## Scans -/

namespace RuleTable

variable {table : RuleTable}

theorem ScanStep.hasState (hclosed : table.Closed) {cursor behind : Cursor}
    {state next : StateId} {pieces : List Piece}
    (hstep : table.ScanStep cursor state pieces behind next) (hstate : table.HasState state) :
    table.HasState next := by
  cases hstep with
  | plain => exact hstate
  | matched _ hmatch =>
      obtain ⟨rule, thread, place, hwins, _, rfl⟩ := firstMatch?_wins hmatch
      obtain ⟨lexical, hmem, hrule⟩ := exists_state_of_mem_rules hwins.mem
      cases hnext : rule.next with
      | none => simpa [Rule.report, hnext] using hstate
      | some id => simpa [Rule.report, hnext] using hclosed.next lexical hmem rule hrule id hnext

theorem Scans.hasState (hclosed : table.Closed) {cap : Option Nat} {cursor : Cursor}
    {state : StateId} {count : Nat} {result : List Piece × StateId}
    (hscan : table.Scans cap cursor state count result) (hstate : table.HasState state) :
    table.HasState result.2 := by
  induction hscan using Scans.step_induction with
  | done => exact hstate
  | capped => exact hclosed.start
  | step _ _ hstep _ ih => exact ih (hstep.hasState hclosed hstate)

end RuleTable

namespace Scanner

variable {scanner : Scanner}

theorem line_hasState (hclosed : scanner.table.Closed) (line : List Char) {state : StateId}
    (hstate : scanner.table.HasState state) :
    scanner.table.HasState (scanner.line line state).endState :=
  (scanner.table.scan_scans scanner.config.cap line state).hasState hclosed hstate

theorem linesFrom_hasState (hclosed : scanner.table.Closed) {state : StateId}
    (hstate : scanner.table.HasState state) (lines : List (List Char)) :
    ∀ tokens ∈ scanner.linesFrom state lines, scanner.table.HasState tokens.endState := by
  induction lines generalizing state with
  | nil => simp [linesFrom]
  | cons line lines ih =>
      have hline := line_hasState hclosed line hstate
      intro tokens htokens
      rcases List.mem_cons.mp htokens with heq | hrest
      · rw [heq]
        exact hline
      · exact ih hline tokens hrest

/-- Every one of the lines ends in a state of the table. -/
def EndsExist (scanner : Scanner) (entries : List LineEntry) : Prop :=
  ∀ entry ∈ entries, scanner.table.HasState entry.tokens.endState

theorem EndsExist.append {xs ys : List LineEntry} (hxs : scanner.EndsExist xs)
    (hys : scanner.EndsExist ys) : scanner.EndsExist (xs ++ ys) := by
  intro entry hentry
  rcases List.mem_append.mp hentry with hentry | hentry
  · exact hxs entry hentry
  · exact hys entry hentry

theorem EndsExist.stateBehind (hclosed : scanner.table.Closed) {entries : List LineEntry}
    (hentries : scanner.EndsExist entries) :
    scanner.table.HasState (scanner.stateBehind entries) := by
  unfold Scanner.stateBehind
  cases hlast : entries.getLast? with
  | none => exact hclosed.start
  | some entry => exact hentries entry (List.mem_of_getLast? hlast)

theorem entries_endsExist (hclosed : scanner.table.Closed) {state : StateId}
    (hstate : scanner.table.HasState state) (lines : List (List Char)) :
    scanner.EndsExist (scanner.entries state lines) := by
  induction lines generalizing state with
  | nil => simp [EndsExist, entries]
  | cons line lines ih =>
      have hline := line_hasState hclosed line hstate
      intro entry hentry
      rcases List.mem_cons.mp hentry with heq | hrest
      · rw [heq]
        exact hline
      · exact ih hline entry hrest

theorem rescan_endsExist (hclosed : scanner.table.Closed) {state : StateId}
    (hstate : scanner.table.HasState state) {olds : List LineEntry}
    (holds : scanner.EndsExist olds) (lines : List (List Char)) :
    scanner.EndsExist (scanner.rescan state olds lines).1 := by
  induction olds generalizing state lines with
  | nil => simpa [rescan] using holds
  | cons old olds ih =>
      unfold rescan
      by_cases hsame : old.startState = state
      · rw [if_pos hsame]
        exact holds
      · rw [if_neg hsame]
        have hline := line_hasState hclosed (lines.headD []) hstate
        have holdsRest : scanner.EndsExist olds :=
          fun entry hentry => holds entry (List.mem_cons_of_mem _ hentry)
        intro entry hentry
        rcases List.mem_cons.mp hentry with heq | hrest
        · rw [heq]
          exact hline
        · exact ih hline holdsRest lines.tail entry hrest

end Scanner

namespace Document

variable {document : Document}

theorem rehighlight_endsExist (hclosed : document.scanner.table.Closed)
    (hlines : document.scanner.EndsExist document.lines)
    (text : List Char) (index : LineIndex) (window : EditWindow) :
    document.scanner.EndsExist (document.rehighlight text index window).1.lines := by
  have hkept : document.scanner.EndsExist (document.lines.take window.first) :=
    fun entry hentry => hlines entry (List.mem_of_mem_take hentry)
  have hbehind : document.scanner.EndsExist
      (document.lines.drop (window.first + window.removed)) :=
    fun entry hentry => hlines entry (List.mem_of_mem_drop hentry)
  have hfresh := Scanner.entries_endsExist hclosed (hkept.stateBehind hclosed)
    (((index.contents text).drop window.first).take window.inserted)
  have hblock := hkept.append hfresh
  exact hblock.append (Scanner.rescan_endsExist hclosed (hblock.stateBehind hclosed) hbehind _)

theorem edited_endsExist (hclosed : document.scanner.table.Closed)
    (hlines : document.scanner.EndsExist document.lines) (edit : Edit) :
    document.scanner.EndsExist (document.edited edit).lines := by
  rcases document.edited_cases edit with
    ⟨text, _, _, hedited⟩ | ⟨text, _, _, hedited⟩ | ⟨_, hedited⟩
  · rw [hedited]
    exact rehighlight_endsExist hclosed hlines _ _ _
  · rw [hedited]
    exact hlines
  · rw [hedited]
    exact hlines

theorem run_endsExist (hclosed : document.scanner.table.Closed)
    (hlines : document.scanner.EndsExist document.lines) (edits : List Edit) :
    document.scanner.EndsExist (document.run edits).lines := by
  induction edits generalizing document with
  | nil => exact hlines
  | cons edit edits ih =>
      have hedited := edited_endsExist hclosed hlines edit
      rw [← document.edited_scanner edit] at hclosed hedited ⊢
      exact ih hclosed hedited

theorem lineState?_hasState (hlines : document.scanner.EndsExist document.lines)
    {line : Nat} {state : StateId} (hstate : document.lineState? line = some state) :
    document.scanner.table.HasState state := by
  unfold lineState? line? at hstate
  simp only [Option.map_map, Option.map_eq_some_iff] at hstate
  obtain ⟨entry, hentry, rfl⟩ := hstate
  exact hlines entry (List.mem_of_getElem? hentry)

end Document

/-- A table built from calls numbers its states by their names, and no scan by
it ends in a state that it does not have. -/
theorem RuleTable.ofCalls_states_exist {compile : PatternCompiler} {calls : List DraftCall}
    {table : RuleTable} (hbuild : RuleTable.ofCallsWith compile calls = .ok table) :
    table.HasState table.start ∧
    (∀ state ∈ table.states, ∀ rule ∈ state.rules, ∀ next,
      rule.next = some next → table.HasState next) ∧
    (∀ id, table.HasState id → table.stateId? (table.stateName id) = some id) ∧
    (∀ name ∈ StateDraft.names (DraftCall.declared calls),
      ∃ id, table.stateId? name = some id ∧ table.HasState id ∧ table.stateName id = name) ∧
    ∀ vocabulary config,
      let scanner : Scanner := ⟨table, vocabulary, config⟩
      (∀ lines, ∀ tokens ∈ scanner.lines lines, table.HasState tokens.endState) ∧
      (∀ line state, table.HasState state →
        table.HasState (scanner.line line state).endState) ∧
      (∀ text edits line state,
        ((Document.ofText scanner text).run edits).lineState? line = some state →
          table.HasState state) := by
  have hclosed : table.Closed := Draft.build_closed hbuild
  have hnodup : (Draft.ofCalls calls).names.Nodup := by
    have hverdict := RuleTable.ofCallsWith_verdict compile calls
    rw [hbuild, ← Draft.ofCalls_states] at hverdict
    cases hverdict with
    | built hnodup => exact hnodup
  refine ⟨hclosed.start, hclosed.next, ?_, ?_, ?_⟩
  · intro id hid
    exact Draft.build_stateId?_stateName hbuild hnodup hid
  · intro name hname
    rw [← Draft.ofCalls_states] at hname
    exact Draft.build_stateName_stateId? hbuild hname
  · intro vocabulary config scanner
    have hscanner : scanner.table.Closed := hclosed
    refine ⟨?_, ?_, ?_⟩
    · intro lines
      exact Scanner.linesFrom_hasState hscanner hclosed.start lines
    · intro line state hstate
      exact Scanner.line_hasState hscanner line hstate
    · intro text edits line state hstate
      have hfresh : scanner.EndsExist (Document.ofText scanner text).lines :=
        Scanner.entries_endsExist hscanner hclosed.start _
      have hrun := Document.run_endsExist hscanner hfresh edits
      rw [← Document.run_scanner (Document.ofText scanner text) edits] at hrun
      have hexists := Document.lineState?_hasState hrun hstate
      rwa [Document.run_scanner] at hexists

/-- A rule that leads to another state stands in a state that splices it in. -/
def crossedCalls : List DraftCall :=
  [.state "start", .splice "words",
   .state "words", .tokenNext .classify "a" "string",
   .state "string", .tokenNext (.whole .string) "b" "start"]

theorem RuleTable.ofCalls_states_exist_crossed :
    ∃ table, RuleTable.ofCalls crossedCalls = .ok table ∧
      (Scanner.line ⟨table, .empty, .default⟩ ['a'] table.start).endState = ⟨2⟩ ∧
      table.HasState ⟨2⟩ := by
  have hbuild :
      ∃ table, RuleTable.ofCalls crossedCalls = .ok table ∧
        (Scanner.line ⟨table, .empty, .default⟩ ['a'] table.start).endState = ⟨2⟩ :=
    ⟨_, rfl, rfl⟩
  obtain ⟨table, htable, hend⟩ := hbuild
  obtain ⟨hstart, _, _, _, hscans⟩ := RuleTable.ofCalls_states_exist htable
  have hline := (hscans .empty .default).2.1 ['a'] table.start hstart
  rw [hend] at hline
  exact ⟨table, htable, hend, hline⟩

end Highlighter
