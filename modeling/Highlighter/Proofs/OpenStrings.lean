import Highlighter.Proofs.GreedyStrings
import Highlighter.Proofs.ShiftedScans
import Highlighter.Proofs.TokenCap
import Mathlib.Tactic

/-!
# Strings that are left open

A string that a line leaves open goes on in the next one, a token for every
character.  Its closing quote hands over to the rest of the line, which is
scanned as a line of its own: no rule of the table looks back to before its
match.
-/

namespace Highlighter

/-- A line is what the steps so far have cut, and what a run from there cuts. -/
theorem Scanner.line_of_passes {table : RuleTable} (words : Vocabulary) {line : List Char}
    {behind : Cursor} {state final : StateId} {pieces : List Piece}
    {back : List Piece × StateId}
    (hpasses : table.Passes (.start line) state pieces behind final)
    (hback : ∀ count, table.Scans none behind final count back) :
    Scanner.line ⟨table, words, ⟨none⟩⟩ line state =
      ⟨(pieces ++ back.1).map (Piece.token words), back.2⟩ := by
  obtain ⟨later, hlater, hresult⟩ := hpasses.run_goes_on (table.scan_scans none line state)
  obtain rfl := (hback _).unique hlater
  simp only [Scanner.line, ScanConfig.cap, Option.map_none, hresult]

namespace CellTail

theorem blind_builtTable : builtTable.Blind := by
  intro state
  rcases rules_builtTable state with hrules | hrules | hrules | hrules
  all_goals
    rw [hrules]
    decide

/-- One token for every character of a text that begins at byte `pos`. -/
def stringTokens : Nat → List Char → List Token
  | _, [] => []
  | pos, c :: cs =>
    ⟨.string, String.singleton c, .ofSpan ⟨pos, pos + c.utf8Size⟩⟩ ::
      stringTokens (pos + c.utf8Size) cs

def stringPieces : Cursor → List Char → List Piece
  | _, [] => []
  | cursor, c :: cs => cursor.piece (.label .string) [c] :: stringPieces (cursor.after [c]) cs

theorem stringPieces_append (cursor : Cursor) (xs ys : List Char) :
    stringPieces cursor (xs ++ ys) =
      stringPieces cursor xs ++ stringPieces (cursor.after xs) ys := by
  induction xs generalizing cursor with
  | nil => rfl
  | cons c xs ih => exact congrArg _ (ih _)

theorem map_token_stringPieces (words : Vocabulary) (cursor : Cursor) (text : List Char) :
    (stringPieces cursor text).map (Piece.token words) = stringTokens cursor.offset text := by
  induction text generalizing cursor with
  | nil => rfl
  | cons c text ih => exact congrArg _ (ih _)

section Steps

variable {cursor behind : Cursor} {inside rest : List Char}

theorem scanStep_quote (hrest : cursor.rest = '"' :: rest) :
    builtTable.ScanStep cursor ⟨1⟩ [cursor.piece (.label .string) ['"']]
      (cursor.after ['"']) ⟨0⟩ := by
  obtain ⟨thread, htakes, hcursor⟩ := exists_takes_quoteRule hrest ⟨0⟩
  have hwins : (quoteRule ⟨0⟩).Wins cursor thread (builtTable.rules ⟨1⟩) 0 := .here htakes
  have htext : ['"'] <+: cursor.rest := by
    rw [hrest]
    exact List.prefix_append ['"'] rest
  exact RuleTable.scanStep_of_wins hwins rfl htext hcursor

/-- Inside a string every character is a step of its own. -/
theorem passes_inside (hopen : '"' ∉ inside) (hrest : cursor.rest = inside ++ rest)
    {pieces : List Piece} {final : StateId}
    (hpasses : builtTable.Passes (cursor.after inside) ⟨1⟩ pieces behind final) :
    builtTable.Passes cursor ⟨1⟩ (stringPieces cursor inside ++ pieces) behind final := by
  induction inside generalizing cursor with
  | nil => exact hpasses
  | cons c inside ih =>
      rw [List.mem_cons, not_or] at hopen
      have hnext : (cursor.after [c]).rest = inside ++ rest := by simp [hrest]
      have hstep := scanStep_char hrest (Ne.symm hopen.1)
      have hbehind := ih hopen.2 hnext hpasses
      exact (RuleTable.Passes.head hstep hbehind :)

theorem passes_closed (hopen : '"' ∉ inside) (hrest : cursor.rest = inside ++ '"' :: rest) :
    builtTable.Passes cursor ⟨1⟩ (stringPieces cursor (inside ++ ['"']))
      (cursor.after (inside ++ ['"'])) ⟨0⟩ := by
  have hquote : (cursor.after inside).rest = '"' :: rest := by simp [hrest]
  rw [stringPieces_append, cursor.after_append]
  exact passes_inside hopen hrest (.head (scanStep_quote hquote) (.refl _ _))

end Steps

section Lines

variable (words : Vocabulary) {inside : List Char}

theorem line_inside (hopen : '"' ∉ inside) :
    Scanner.line ⟨builtTable, words, ⟨none⟩⟩ inside ⟨1⟩ = ⟨stringTokens 0 inside, ⟨1⟩⟩ := by
  have hrest : (Cursor.start inside).rest = inside ++ [] := (List.append_nil inside).symm
  have hdone : ((Cursor.start inside).after inside).rest = [] := by simp [Cursor.start]
  have hpasses := passes_inside hopen hrest (.refl _ _)
  rw [Scanner.line_of_passes words hpasses fun _ => .done hdone, List.append_nil, List.append_nil,
    map_token_stringPieces]
  rfl

theorem line_closed (hopen : '"' ∉ inside) (rest : List Char) :
    Scanner.line ⟨builtTable, words, ⟨none⟩⟩ (inside ++ '"' :: rest) ⟨1⟩ =
      ⟨stringTokens 0 (inside ++ ['"']) ++
          (Scanner.line ⟨builtTable, words, ⟨none⟩⟩ rest ⟨0⟩).tokens.map
            (Token.shift (Text.byteLength (inside ++ ['"']))),
        (Scanner.line ⟨builtTable, words, ⟨none⟩⟩ rest ⟨0⟩).endState⟩ := by
  have hpasses := passes_closed hopen (rfl : (Cursor.start (inside ++ '"' :: rest)).rest = _)
  have hmoved : (Cursor.start rest).Moved (Text.byteLength (inside ++ ['"'])) false
      ((Cursor.start (inside ++ '"' :: rest)).after (inside ++ ['"'])) := by
    refine ⟨?_, ?_, fun hsame => absurd hsame Bool.false_ne_true⟩
    · simp [Cursor.start]
    · simp [Cursor.start]
  have hscan := builtTable.scan_scans none rest ⟨0⟩
  rw [Scanner.line_of_passes words hpasses (hscan.moved blind_builtTable hmoved), List.map_append,
    map_token_stringPieces, List.map_map]
  simp only [Scanner.line, List.map_map, Function.comp_def, Piece.token_shift]
  rfl

end Lines

/-! ## Lines without a quote -/

/-- Nothing but a quote leads out of the start state. -/
theorem next_eq_none_of_mem_startRules :
    ∀ rule ∈ startRules, rule.next = none ∨ rule = quoteRule ⟨1⟩ := by
  decide +kernel

theorem scanStep_outside {cursor behind : Cursor} {next : StateId} {pieces : List Piece}
    (hstep : builtTable.ScanStep cursor ⟨0⟩ pieces behind next) (hquote : '"' ∉ cursor.rest) :
    next = ⟨0⟩ ∧ '"' ∉ behind.rest := by
  cases hstep with
  | plain hrest _ =>
      rw [hrest, List.mem_cons, not_or] at hquote
      exact ⟨rfl, hquote.2⟩
  | matched hne hmatch =>
      obtain ⟨taken, hrest, _⟩ := (RuleTable.matchFrom?_fits hmatch).reaches
      obtain ⟨rule, thread, place, hwins, rfl, rfl⟩ := firstMatch?_wins hmatch
      constructor
      · rcases next_eq_none_of_mem_startRules rule hwins.mem with hnone | rfl
        · rw [Rule.report, hnone, Option.getD_none]
        · obtain ⟨c, cs, hcs⟩ := List.exists_cons_of_ne_nil hne
          have hc : c ≠ '"' := by
            rintro rfl
            exact hquote (hcs ▸ List.mem_cons_self)
          exact absurd hwins.takes (not_takes_quoteRule hcs hc _ thread)
      · rw [hrest, List.mem_append, not_or] at hquote
        exact hquote.2

theorem scans_outside {cap : Option Nat} {cursor : Cursor} {state : StateId} {count : Nat}
    {result : List Piece × StateId} (hscan : builtTable.Scans cap cursor state count result)
    (hstate : state = ⟨0⟩) (hquote : '"' ∉ cursor.rest) : result.2 = ⟨0⟩ := by
  induction hscan using RuleTable.Scans.step_induction with
  | done => exact hstate
  | capped => rfl
  | step _ _ hstep _ ih =>
      obtain ⟨hnext, hbehind⟩ := scanStep_outside (hstate ▸ hstep) hquote
      exact ih hnext hbehind

/-- A line without a quote leaves no string open. -/
theorem endState_of_no_quote (words : Vocabulary) (config : ScanConfig) {line : List Char}
    (hquote : '"' ∉ line) :
    (Scanner.line ⟨builtTable, words, config⟩ line ⟨0⟩).endState = ⟨0⟩ :=
  scans_outside (builtTable.scan_scans config.cap line ⟨0⟩) rfl hquote

/-- A string goes on in the next line.  Its closing quote hands over: nothing
before it has a part in how the rest of the line is scanned. -/
theorem open_string_hands_over :
    ∃ table start string,
      CellTail.table = .ok table ∧
      table.stateId? startName = some start ∧
      table.stateId? stringState = some string ∧
      ∀ (words : Vocabulary) (inside : List Char), '"' ∉ inside →
        Scanner.line ⟨table, words, ⟨none⟩⟩ inside string = ⟨stringTokens 0 inside, string⟩ ∧
        ∀ rest,
          Scanner.line ⟨table, words, ⟨none⟩⟩ (inside ++ '"' :: rest) string =
            ⟨stringTokens 0 (inside ++ ['"']) ++
                (Scanner.line ⟨table, words, ⟨none⟩⟩ rest start).tokens.map
                  (Token.shift (Text.byteLength (inside ++ ['"']))),
              (Scanner.line ⟨table, words, ⟨none⟩⟩ rest start).endState⟩ := by
  refine ⟨builtTable, ⟨0⟩, ⟨1⟩, table_eq, by decide, by decide, ?_⟩
  intro words inside hopen
  exact ⟨line_inside words hopen, line_closed words hopen⟩

/-- Behind the quote stands a definition, and one more string is left open. -/
theorem open_string_hands_over_definition :
    '"' ∉ ['é', '\n'] ∧
    uncapped.line ['é', '\n', '"', 'd', 'e', 'f', ' ', 'f', '"'] ⟨1⟩ =
      ⟨[⟨.string, "é", .ofSpan ⟨0, 2⟩⟩, ⟨.string, "\n", .ofSpan ⟨2, 3⟩⟩,
          ⟨.string, "\"", .ofSpan ⟨3, 4⟩⟩, ⟨.keyword, "def", .ofSpan ⟨4, 7⟩⟩,
          ⟨.text, " ", .ofSpan ⟨7, 8⟩⟩, ⟨.functionName, "f", .ofSpan ⟨8, 9⟩⟩,
          ⟨.string, "\"", .ofSpan ⟨9, 10⟩⟩],
        ⟨1⟩⟩ := by
  have hopen : '"' ∉ ['é', '\n'] := by decide
  obtain ⟨table, start, string, htable, hstart, hstring, hline⟩ := open_string_hands_over
  obtain rfl := Except.ok.inj (table_eq.symm.trans htable)
  obtain rfl : ⟨0⟩ = start := Option.some.inj hstart
  obtain rfl : ⟨1⟩ = string := Option.some.inj hstring
  refine ⟨hopen, ((hline vocabulary _ hopen).2 ['d', 'e', 'f', ' ', 'f', '"']).trans ?_⟩
  decide +kernel

end CellTail

end Highlighter
