import Highlighter.Proofs.EditedText
import Highlighter.Proofs.TokenCap
import Mathlib.Tactic

/-!
# What the vocabulary decides

Two scans that differ in the vocabulary alone go through the same steps, so
they cut a line at the same places and end in the same state.  Their labels
differ at most on the tokens of rules that ask the vocabulary, and which tokens
these are is told by the steps.

The state in which a line ends is all that highlighting a document hands on
from line to line and compares with what it kept.  So two documents go through
their edits alike: each line that one of them scans is scanned by the other, in
the same state.
-/

namespace Highlighter

/-! ## The tokens of rules that ask the vocabulary -/

namespace RuleTable

/-- A rule that asks the vocabulary wins at the cursor. -/
def AsksAt (table : RuleTable) (state : StateId) (cursor : Cursor) : Prop :=
  ∃ (rule : Rule) (thread : Thread) (place : Nat),
    rule.Wins cursor thread (table.rules state) place ∧ rule.labelling = .classify

/-- Piece number `index` from the cursor on is what a rule matches that asks the
vocabulary, when `count` pieces lie before the cursor: the steps before it give
the pieces before it, and the cap does not stop the run there. -/
def AsksFrom (table : RuleTable) (cap : Option Nat) (cursor : Cursor) (state : StateId)
    (count index : Nat) : Prop :=
  ∃ front later final,
    table.Passes cursor state front later final ∧
    front.length = index ∧
    cap.any (· ≤ count + index) = false ∧
    table.AsksAt final later

/-- Token number `index` of a line is what a rule matches that asks the
vocabulary. -/
def Asks (table : RuleTable) (cap : Option Nat) (line : List Char) (start : StateId)
    (index : Nat) : Prop :=
  table.AsksFrom cap (.start line) start 0 index

theorem asksAt_iff {table : RuleTable} {state : StateId} {cursor : Cursor} :
    table.AsksAt state cursor ↔
      ∃ m behind, table.matchFrom? state cursor = some (m, behind) ∧ m.label = .classify := by
  constructor
  · rintro ⟨rule, thread, place, hwins, hlabelling⟩
    refine ⟨_, _, firstMatch?_of_wins hwins 0, ?_⟩
    rw [Rule.report, hlabelling]
    rfl
  · rintro ⟨m, behind, hmatch, hlabel⟩
    obtain ⟨rule, thread, place, hwins, _, rfl⟩ := firstMatch?_wins hmatch
    refine ⟨rule, thread, place, hwins, ?_⟩
    cases hlabelling : rule.labelling with
    | classify => rfl
    | whole label => simp [Rule.report, hlabelling, Labelling.ofMatch] at hlabel
    | groups labels => simp [Rule.report, hlabelling, Labelling.ofMatch] at hlabel

theorem AsksAt.rest_ne_nil {table : RuleTable} {state : StateId} {cursor : Cursor}
    (hasks : table.AsksAt state cursor) : cursor.rest ≠ [] := by
  obtain ⟨_, _, hmatch, _⟩ := asksAt_iff.mp hasks
  exact rest_ne_nil_of_matchFrom? hmatch

theorem map_mark_cutPieces (pos : Nat) (text : List Char) (cuts : List (Mark × Nat)) :
    (cutPieces pos text cuts).map (·.mark) = cuts.map (·.1) := by
  induction cuts generalizing pos text with
  | nil => rfl
  | cons cut cuts ih => simp [cutPieces, ih]

theorem classify_not_mem_groupCuts (stop pos : Nat) (groups : List (Label × Span)) :
    Mark.classify ∉ (groupCuts stop pos groups).map (·.1) := by
  induction groups generalizing pos with
  | nil =>
      rw [groupCuts]
      split <;> simp
  | cons group groups ih =>
      rw [groupCuts]
      split
      · exact ih pos
      · split <;> simpa using ih group.2.stop

/-- Where a rule asks the vocabulary, a step gives one piece and leaves its
label open; all other pieces have their labels. -/
theorem ScanStep.marks {table : RuleTable} {cursor behind : Cursor} {state next : StateId}
    {pieces : List Piece} (hstep : table.ScanStep cursor state pieces behind next) :
    (table.AsksAt state cursor ∧ pieces.map (·.mark) = [.classify]) ∨
    (¬ table.AsksAt state cursor ∧ .classify ∉ pieces.map (·.mark)) := by
  rw [asksAt_iff]
  cases hstep with
  | plain _ hnone => exact Or.inr ⟨by simp [hnone], by simp [Cursor.plainPiece]⟩
  | @matched _ _ m _ hmatch =>
      rw [map_mark_cutPieces]
      cases hlabel : m.label with
      | classify => exact Or.inl ⟨⟨m, behind, hmatch, hlabel⟩, by simp [RuleMatch.cuts, hlabel]⟩
      | whole label =>
          exact Or.inr ⟨by simp [hmatch, hlabel], by simp [RuleMatch.cuts, hlabel]⟩
      | groups groups =>
          refine Or.inr ⟨by simp [hmatch, hlabel], ?_⟩
          rw [RuleMatch.cuts, hlabel]
          exact classify_not_mem_groupCuts _ _ _

theorem ScanStep.offset_lt {table : RuleTable} {cursor behind : Cursor} {state next : StateId}
    {pieces : List Piece} (hstep : table.ScanStep cursor state pieces behind next) :
    cursor.offset < behind.offset := by
  cases hstep with
  | matched _ hmatch => exact (matchFrom?_fits hmatch).nonempty
  | @plain _ c => exact Nat.lt_add_of_pos_right c.utf8Size_pos

theorem ScanStep.length_pos {table : RuleTable} {cursor behind : Cursor} {state next : StateId}
    {pieces : List Piece} (hstep : table.ScanStep cursor state pieces behind next) :
    0 < pieces.length := by
  have hlt := hstep.offset_lt
  obtain ⟨taken, _, hoffset, htiles⟩ := hstep.tiles
  cases htiles with
  | nil => simp [hoffset] at hlt
  | cons => simp

/-- Steps that begin with a given one have not begun, or go on behind it. -/
theorem Passes.cases_step {table : RuleTable} {cursor middle behind : Cursor}
    {state next final : StateId} {pieces front : List Piece}
    (hstep : table.ScanStep cursor state pieces middle next)
    (hpasses : table.Passes cursor state front behind final) :
    (front = [] ∧ behind = cursor ∧ final = state) ∨
    ∃ more, front = pieces ++ more ∧ table.Passes middle next more behind final := by
  cases hpasses with
  | refl => exact Or.inl ⟨rfl, rfl, rfl⟩
  | head hstep' hmore =>
      obtain ⟨rfl, rfl, rfl⟩ := hstep.unique hstep'
      exact Or.inr ⟨_, rfl, hmore⟩

theorem asksFrom_of_lt {table : RuleTable} {cap : Option Nat} {cursor middle : Cursor}
    {state next : StateId} {pieces : List Piece} {count index : Nat}
    (hstep : table.ScanStep cursor state pieces middle next)
    (hfree : cap.any (· ≤ count) = false)
    (hlt : index < pieces.length) :
    table.AsksFrom cap cursor state count index ↔ index = 0 ∧ table.AsksAt state cursor := by
  constructor
  · rintro ⟨front, later, final, hpasses, rfl, _, hasks⟩
    rcases hpasses.cases_step hstep with ⟨rfl, rfl, rfl⟩ | ⟨more, rfl, _⟩
    · exact ⟨rfl, hasks⟩
    · rw [List.length_append] at hlt
      omega
  · rintro ⟨rfl, hasks⟩
    exact ⟨[], cursor, state, .refl _ _, rfl, hfree, hasks⟩

theorem asksFrom_length_add {table : RuleTable} {cap : Option Nat} {cursor middle : Cursor}
    {state next : StateId} {pieces : List Piece} {count : Nat}
    (hstep : table.ScanStep cursor state pieces middle next) (index : Nat) :
    table.AsksFrom cap cursor state count (pieces.length + index) ↔
      table.AsksFrom cap middle next (count + pieces.length) index := by
  have hpos := hstep.length_pos
  constructor
  · rintro ⟨front, later, final, hpasses, hlength, hbelow, hasks⟩
    rcases hpasses.cases_step hstep with ⟨rfl, _, _⟩ | ⟨more, rfl, hmore⟩
    · rw [List.length_nil] at hlength
      omega
    · rw [List.length_append] at hlength
      rw [← Nat.add_assoc] at hbelow
      exact ⟨more, later, final, hmore, by omega, hbelow, hasks⟩
  · rintro ⟨more, later, final, hmore, rfl, hbelow, hasks⟩
    rw [Nat.add_assoc] at hbelow
    exact ⟨pieces ++ more, later, final, .head hstep hmore, List.length_append, hbelow, hasks⟩

/-- The pieces of a run whose labels are left open are those at whose places a
rule asks the vocabulary. -/
theorem Scans.mark_eq_classify_iff {table : RuleTable} {cap : Option Nat} {cursor : Cursor}
    {state : StateId} {count : Nat} {result : List Piece × StateId}
    (hscan : table.Scans cap cursor state count result) (index : Nat) :
    (result.1.map (·.mark))[index]? = some .classify ↔
      table.AsksFrom cap cursor state count index := by
  induction hscan using Scans.step_induction generalizing index with
  | done hrest =>
      constructor
      · simp
      · rintro ⟨_, _, _, hpasses, _, _, hasks⟩
        cases hpasses with
        | refl => exact absurd hrest hasks.rest_ne_nil
        | head hstep => exact absurd hrest hstep.rest_ne_nil
  | @capped _ _ count _ hcap =>
      constructor
      · intro hmark
        cases index <;> simp [Cursor.remainder] at hmark
      · rintro ⟨_, _, _, _, _, hbelow, _⟩
        have hfree := cap_free_of_le hbelow (Nat.le_add_right count index)
        simp [hcap] at hfree
  | @step _ _ _ _ _ pieces _ _ hfree hstep _ ih =>
      rw [List.map_append]
      by_cases hlt : index < pieces.length
      · rw [asksFrom_of_lt hstep hfree hlt, List.getElem?_append_left (by simpa using hlt)]
        rcases hstep.marks with ⟨hasks, hmarks⟩ | ⟨hasks, hmarks⟩
        · have hone := congrArg List.length hmarks
          simp only [List.length_map, List.length_singleton] at hone
          obtain rfl : index = 0 := by omega
          simp [hmarks, hasks]
        · constructor
          · exact fun hmark => absurd (List.mem_of_getElem? hmark) hmarks
          · exact fun hboth => absurd hboth.2 hasks
      · obtain ⟨later, rfl⟩ := Nat.exists_eq_add_of_le (Nat.le_of_not_lt hlt)
        rw [asksFrom_length_add hstep, ← ih, List.getElem?_append_right (by simp)]
        simp

end RuleTable

/-! ## Lines -/

/-- The tokens of a line by two vocabularies: they differ in labels only, and
in these only where a rule asks the vocabulary. -/
structure LineTokens.SameButLabels (table : RuleTable) (cap : Option Nat)
    (first second : Vocabulary) (line : List Char) (start : StateId)
    (one other : LineTokens) : Prop where
  endState : one.endState = other.endState
  length : one.tokens.length = other.tokens.length
  token : ∀ index a b, one.tokens[index]? = some a → other.tokens[index]? = some b →
    a.range = b.range ∧
    a.text = b.text ∧
    (table.Asks cap line start index →
      a.label = (first.classify a.text).label ∧ b.label = (second.classify b.text).label) ∧
    (¬ table.Asks cap line start index → a.label = b.label)

namespace Scanner

section Vocabularies

variable (table : RuleTable) (config : ScanConfig) (first second : Vocabulary)

theorem line_sameButLabels (line : List Char) (start : StateId) :
    LineTokens.SameButLabels table config.cap first second line start
      (Scanner.line ⟨table, first, config⟩ line start)
      (Scanner.line ⟨table, second, config⟩ line start) where
  endState := rfl
  length := by simp [Scanner.line]
  token := by
    intro index a b ha hb
    simp only [Scanner.line, List.getElem?_map, Option.map_eq_some_iff] at ha hb
    obtain ⟨piece, hpiece, rfl⟩ := ha
    obtain ⟨same, hsame, rfl⟩ := hb
    obtain rfl := Option.some.inj (hpiece.symm.trans hsame)
    have hasks := (table.scan_scans config.cap line start).mark_eq_classify_iff index
    rw [List.getElem?_map, hpiece, Option.map_some, Option.some.injEq] at hasks
    refine ⟨rfl, rfl, ?_, ?_⟩
    · intro hask
      simp [Piece.token, hasks.mpr hask, Mark.resolve]
    · intro hask
      cases hmark : piece.mark with
      | classify => exact absurd (hasks.mp hmark) hask
      | label label => simp [Piece.token, hmark, Mark.resolve]

/-- One line, scanned in one state by each of the vocabularies. -/
def Twins (one other : LineEntry) : Prop :=
  ∃ state line,
    one = entry ⟨table, first, config⟩ state line ∧
    other = entry ⟨table, second, config⟩ state line

variable {table config first second}

theorem Twins.startState {one other : LineEntry}
    (htwins : Twins table config first second one other) :
    one.startState = other.startState := by
  obtain ⟨state, line, rfl, rfl⟩ := htwins
  rfl

theorem Twins.endState {one other : LineEntry}
    (htwins : Twins table config first second one other) :
    one.tokens.endState = other.tokens.endState := by
  obtain ⟨state, line, rfl, rfl⟩ := htwins
  rfl

/-- A line is what its tokens spell. -/
theorem Twins.sameButLabels {one other : LineEntry}
    (htwins : Twins table config first second one other) :
    LineTokens.SameButLabels table config.cap first second one.tokens.text.toList one.startState
      one.tokens other.tokens := by
  obtain ⟨state, line, rfl, rfl⟩ := htwins
  have hspelled : (entry ⟨table, first, config⟩ state line).tokens.text.toList = line := by
    rw [entry, line_text, String.toList_ofList]
  rw [hspelled]
  exact line_sameButLabels table config first second line state

theorem entries_twins (state : StateId) (lines : List (List Char)) :
    List.Forall₂ (Twins table config first second)
      (entries ⟨table, first, config⟩ state lines)
      (entries ⟨table, second, config⟩ state lines) := by
  induction lines generalizing state with
  | nil => exact .nil
  | cons line lines ih => exact .cons ⟨state, line, rfl, rfl⟩ (ih _)

theorem stateBehind_eq_of_twins {ones others : List LineEntry}
    (htwins : List.Forall₂ (Twins table config first second) ones others) :
    stateBehind ⟨table, first, config⟩ ones = stateBehind ⟨table, second, config⟩ others := by
  have hends : ones.map (·.tokens.endState) = others.map (·.tokens.endState) := by
    induction htwins with
    | nil => rfl
    | cons hhead _ ih => rw [List.map_cons, List.map_cons, hhead.endState, ih]
  rw [stateBehind, stateBehind, ← List.getLast?_map, ← List.getLast?_map, hends]

/-- Lines are scanned again up to the same one. -/
theorem rescan_twins {ones others : List LineEntry}
    (htwins : List.Forall₂ (Twins table config first second) ones others)
    (state : StateId) (lines : List (List Char)) :
    List.Forall₂ (Twins table config first second)
      (rescan ⟨table, first, config⟩ state ones lines).1
      (rescan ⟨table, second, config⟩ state others lines).1 ∧
    (rescan ⟨table, first, config⟩ state ones lines).2 =
      (rescan ⟨table, second, config⟩ state others lines).2 := by
  induction htwins generalizing state lines with
  | nil => exact ⟨.nil, rfl⟩
  | @cons one other _ _ hhead htail ih =>
      rw [rescan, rescan, ← hhead.startState]
      by_cases hsame : one.startState = state
      · rw [if_pos hsame, if_pos hsame]
        exact ⟨.cons hhead htail, rfl⟩
      · rw [if_neg hsame, if_neg hsame]
        obtain ⟨hrest, hcount⟩ :=
          ih (line ⟨table, first, config⟩ (lines.headD []) state).endState lines.tail
        exact ⟨.cons ⟨state, lines.headD [], rfl, rfl⟩ hrest, congrArg (· + 1) hcount⟩

end Vocabularies

end Scanner

/-! ## Documents -/

namespace Document

/-- What an update tells: the change that it made, or why the edit was refused;
nothing if it stops. -/
def report (document : Document) (edit : Edit) : Option (Except EditError DocumentDelta) :=
  match document.update edit with
  | .ok (_, delta) => some (.ok delta)
  | .error (.refused error) => some (.error error)
  | .error (.stopped _) => none

/-- What an edit after another tells of the change that it makes. -/
def deltas (document : Document) : List Edit → List (Option (Except EditError DocumentDelta))
  | [] => []
  | edit :: edits => document.report edit :: (document.edited edit).deltas edits

/-- Documents that have come the same way with different vocabularies. -/
structure Alike (table : RuleTable) (config : ScanConfig) (first second : Vocabulary)
    (one other : Document) : Prop where
  scanner : one.scanner = ⟨table, first, config⟩
  scanner' : other.scanner = ⟨table, second, config⟩
  text : one.text = other.text
  index : one.index = other.index
  version : one.version = other.version
  lines : List.Forall₂ (Scanner.Twins table config first second) one.lines other.lines

variable {table : RuleTable} {config : ScanConfig} {first second : Vocabulary}
  {one other : Document}

theorem ofText_alike (text : List Char) :
    Alike table config first second (ofText ⟨table, first, config⟩ text)
      (ofText ⟨table, second, config⟩ text) :=
  ⟨rfl, rfl, rfl, rfl, rfl, Scanner.entries_twins _ _⟩

theorem Alike.rehighlight (halike : Alike table config first second one other)
    (text : List Char) (index : LineIndex) (window : EditWindow) :
    Alike table config first second (one.rehighlight text index window).1
      (other.rehighlight text index window).1 ∧
    (one.rehighlight text index window).2 = (other.rehighlight text index window).2 := by
  obtain ⟨hscanner, hscanner', _, _, hversion, hlines⟩ := halike
  simp only [Document.rehighlight, Document.withText, hscanner, hscanner', hversion]
  have hkept := List.forall₂_take window.first hlines
  rw [← Scanner.stateBehind_eq_of_twins hkept]
  set state := Scanner.stateBehind ⟨table, first, config⟩ (one.lines.take window.first)
  have hblock := List.rel_append hkept (Scanner.entries_twins state
    (((index.contents text).drop window.first).take window.inserted))
  rw [← Scanner.stateBehind_eq_of_twins hblock]
  obtain ⟨htail, hcount⟩ := Scanner.rescan_twins
    (List.forall₂_drop (window.first + window.removed) hlines) _
    ((index.contents text).drop (window.first + window.inserted))
  exact ⟨⟨rfl, rfl, rfl, rfl, rfl, List.rel_append hblock htail⟩, by rw [hcount]⟩

theorem Alike.withText (halike : Alike table config first second one other)
    (text : List Char) (index : LineIndex) :
    Alike table config first second (one.withText text index) (other.withText text index) := by
  obtain ⟨hscanner, hscanner', _, _, hversion, hlines⟩ := halike
  exact ⟨hscanner, hscanner', rfl, rfl, congrArg (· + 1) hversion, hlines⟩

theorem Alike.window_eq (halike : Alike table config first second one other) (edit : Edit)
    (index : LineIndex) : one.window edit index = other.window edit index := by
  rw [window, window, halike.index]

theorem Alike.edited (halike : Alike table config first second one other) (edit : Edit) :
    Alike table config first second (one.edited edit) (other.edited edit) ∧
    one.report edit = other.report edit := by
  have hcount : one.lineCount = other.lineCount := halike.lines.length_eq
  unfold Document.edited report update
  rw [← halike.text]
  cases edit.applyTo one.text with
  | error error => exact ⟨halike, rfl⟩
  | ok text =>
      simp only [← halike.window_eq edit, ← hcount]
      by_cases hfits : (one.window edit (LineIndex.ofText text)).Fits one.lineCount
      · obtain ⟨hafter, hdelta⟩ := halike.rehighlight text (LineIndex.ofText text)
          (one.window edit (LineIndex.ofText text))
        rw [if_pos hfits, if_pos hfits]
        exact ⟨hafter, congrArg (fun delta => some (Except.ok delta)) hdelta⟩
      · rw [if_neg hfits, if_neg hfits]
        exact ⟨halike.withText text _, rfl⟩

theorem Alike.run (halike : Alike table config first second one other) (edits : List Edit) :
    Alike table config first second (one.run edits) (other.run edits) ∧
    one.deltas edits = other.deltas edits := by
  induction edits generalizing one other with
  | nil => exact ⟨halike, rfl⟩
  | cons edit edits ih =>
      obtain ⟨hafter, hdelta⟩ := halike.edited edit
      obtain ⟨hfinal, hdeltas⟩ := ih hafter
      exact ⟨hfinal, by rw [deltas, deltas, hdelta, hdeltas]⟩

end Document

/-- The vocabulary affects labels only, and of these only the ones that are
left to it.  A document is highlighted again by the states of its lines, which
hold no labels, so each edit changes the same lines and tells the same. -/
theorem Scanner.vocabulary_affects_labels_only (table : RuleTable) (config : ScanConfig)
    (first second : Vocabulary) :
    (∀ line start,
      LineTokens.SameButLabels table config.cap first second line start
        (Scanner.line ⟨table, first, config⟩ line start)
        (Scanner.line ⟨table, second, config⟩ line start)) ∧
    ∀ text edits,
      let one := Document.ofText ⟨table, first, config⟩ text
      let other := Document.ofText ⟨table, second, config⟩ text
      one.deltas edits = other.deltas edits ∧
      (one.run edits).text = (other.run edits).text ∧
      (one.run edits).version = (other.run edits).version ∧
      List.Forall₂
        (fun a b => a.startState = b.startState ∧
          LineTokens.SameButLabels table config.cap first second
            a.tokens.text.toList a.startState a.tokens b.tokens)
        (one.run edits).lines (other.run edits).lines := by
  refine ⟨line_sameButLabels table config first second, ?_⟩
  intro text edits one other
  obtain ⟨halike, hdeltas⟩ :=
    (Document.ofText_alike text : Document.Alike table config first second one other).run edits
  refine ⟨hdeltas, halike.text, halike.version, halike.lines.imp ?_⟩
  intro a b htwins
  exact ⟨htwins.startState, htwins.sameButLabels⟩

end Highlighter
