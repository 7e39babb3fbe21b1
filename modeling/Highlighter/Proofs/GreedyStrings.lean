import Highlighter.Proofs.CellTailTable
import Highlighter.Proofs.MergedTokens
import Mathlib.Tactic

/-!
# Strings taken in runs

Inside a string the table takes one character at a time.  Taking all of the
string up to its closing quote at once gives fewer tokens, and the same ones
after merging.  The two tables are compared step by step: wherever one of them
does not stand inside a string, both make the same step.  Inside a string the
run that is taken at once may be cut behind its first character, since the
table would take the rest of the run from there.
-/

namespace Highlighter.CellTail

/-- All of a string up to its closing quote. -/
def runRule : Rule where
  labelling := .whole .string
  source := "[^\"]+"
  plan := .many true (.one (CharSet.single '"').compl)
  next := none

theorem runTable_eq : RuleTable.ofCalls (callsWith "[^\"]+") = .ok (tableWith runRule) := by
  have hreads : runRule.Reads := by decide +kernel
  have hbuilt := ofCalls_callsWith hreads rfl rfl
  exact hbuilt

/-! ## Steps inside a string -/

section Steps

variable {cursor : Cursor} {c : Char} {cs : List Char}

theorem rules_tableWith {state : StateId} (hstate : state ≠ ⟨1⟩) (content content' : Rule) :
    (tableWith content).rules state = (tableWith content').rules state := by
  obtain ⟨index⟩ := state
  match index with
  | 0 => rfl
  | 1 => exact absurd rfl hstate
  | _ + 2 => rfl

theorem not_takes_quoteRule (hrest : cursor.rest = c :: cs) (hc : c ≠ '"') (next : StateId) :
    ∀ thread, ¬ (quoteRule next).Takes cursor thread := by
  rintro thread ⟨hmatch, _⟩
  have hway := Plan.matchAt?_mem_ways hmatch
  have hclosed : ¬ (CharSet.single '"').contains c = true := by
    rwa [CharSet.contains_single]
  rw [quoteRule, Plan.ways_one_cons hrest, if_neg hclosed] at hway
  exact List.not_mem_nil hway

theorem exists_takes_quoteRule (hrest : cursor.rest = '"' :: cs) (next : StateId) :
    ∃ thread, (quoteRule next).Takes cursor thread ∧ thread.cursor = cursor.after ['"'] := by
  have hway : ((quoteRule next).plan.ways (.start cursor)).head? =
      some ((Place.start cursor).after ['"']) := by
    rw [quoteRule, Plan.ways_one_cons hrest]
    rfl
  exact Rule.exists_takes rfl (List.cons_ne_nil '"' []) hway

/-- A closing quote is taken before the content is asked. -/
theorem matchFrom?_quote (hrest : cursor.rest = '"' :: cs) (content content' : Rule) :
    (tableWith content).matchFrom? ⟨1⟩ cursor = (tableWith content').matchFrom? ⟨1⟩ cursor := by
  obtain ⟨thread, htakes, _⟩ := exists_takes_quoteRule hrest ⟨0⟩
  exact (firstMatch?_of_wins (.here htakes) 0).trans (firstMatch?_of_wins (.here htakes) 0).symm

theorem scanStep_content {content : Rule} {text : List Char}
    (hlabel : content.labelling = .whole .string) (hnext : content.next = none)
    (hunmarked : content.plan.unmarked = true)
    (hrest : cursor.rest = c :: cs) (hc : c ≠ '"')
    (hne : text ≠ []) (htext : text <+: cursor.rest)
    (hway : (content.plan.ways (.start cursor)).head? = some ((Place.start cursor).after text)) :
    (tableWith content).ScanStep cursor ⟨1⟩ [cursor.piece (.label .string) text]
      (cursor.after text) ⟨1⟩ := by
  obtain ⟨thread, htakes, hcursor⟩ := Rule.exists_takes hunmarked hne hway
  have hwins : content.Wins cursor thread ((tableWith content).rules ⟨1⟩) 1 :=
    .behind (not_takes_quoteRule hrest hc _) (.here htakes)
  have hstep := RuleTable.scanStep_of_wins hwins (congrArg Labelling.mark? hlabel) htext hcursor
  rwa [hnext] at hstep

theorem contains_of_ne_quote (hc : c ≠ '"') : (CharSet.single '"').compl.contains c = true :=
  CharSet.contains_compl_single.mpr hc

theorem scanStep_char (hrest : cursor.rest = c :: cs) (hc : c ≠ '"') :
    builtTable.ScanStep cursor ⟨1⟩ [cursor.piece (.label .string) [c]]
      (cursor.after [c]) ⟨1⟩ := by
  refine scanStep_content rfl rfl rfl hrest hc (List.cons_ne_nil c []) ?_ ?_
  · rw [hrest]
    exact List.prefix_append [c] cs
  · rw [contentRule, Plan.ways_one_cons hrest, if_pos (contains_of_ne_quote hc)]
    rfl

theorem scanStep_run (hrest : cursor.rest = c :: cs) (hc : c ≠ '"') :
    (tableWith runRule).ScanStep cursor ⟨1⟩
      [cursor.piece (.label .string) (c :: cs.takeWhile (CharSet.single '"').compl.contains)]
      (cursor.after (c :: cs.takeWhile (CharSet.single '"').compl.contains)) ⟨1⟩ := by
  have hcontains := contains_of_ne_quote hc
  have hrun : cursor.rest.takeWhile (CharSet.single '"').compl.contains =
      c :: cs.takeWhile (CharSet.single '"').compl.contains := by
    rw [hrest, List.takeWhile_cons_of_pos hcontains]
  rw [← hrun]
  refine scanStep_content rfl rfl rfl hrest hc ?_ (List.takeWhile_prefix _) ?_
  · rw [hrun]
    exact List.cons_ne_nil _ _
  · exact Plan.head?_ways_many_one hrest hcontains

/-- Both tables make the same step, or one character of a string is taken. -/
theorem scanStep_cases {behind : Cursor} {state next : StateId} {pieces : List Piece}
    (hstep : builtTable.ScanStep cursor state pieces behind next) :
    (tableWith runRule).ScanStep cursor state pieces behind next ∨
      ∃ c cs,
        cursor.rest = c :: cs ∧ c ≠ '"' ∧ state = ⟨1⟩ ∧ next = ⟨1⟩ ∧
        pieces = [cursor.piece (.label .string) [c]] ∧ behind = cursor.after [c] := by
  by_cases hstate : state = ⟨1⟩
  · subst hstate
    obtain ⟨c, cs, hrest⟩ := List.exists_cons_of_ne_nil hstep.rest_ne_nil
    by_cases hc : c = '"'
    · subst hc
      exact Or.inl (hstep.congr (matchFrom?_quote hrest runRule contentRule))
    · obtain ⟨rfl, rfl, rfl⟩ := hstep.unique (scanStep_char hrest hc)
      exact Or.inr ⟨c, cs, hrest, hc, rfl, rfl, rfl, rfl⟩
  · have hrules := rules_tableWith hstate runRule contentRule
    left
    apply hstep.congr
    unfold RuleTable.matchFrom?
    rw [hrules, builtTable_eq]

end Steps

/-! ## Runs of both tables -/

section Runs

variable {cursor : Cursor} (words : Vocabulary)

/-- A run may be cut behind its first character. -/
theorem scans_behind_first {c : Char} {cs : List Char} {count : Nat}
    {result : List Piece × StateId}
    (hrest : cursor.rest = c :: cs) (hc : c ≠ '"')
    (hscan : (tableWith runRule).Scans none cursor ⟨1⟩ count result) :
    ∃ count' after,
      (tableWith runRule).Scans none (cursor.after [c]) ⟨1⟩ count' after ∧
      result.2 = after.2 ∧
      Token.merge (result.1.map (Piece.token words)) =
        ((cursor.piece (.label .string) [c]).token words).mergeInto
          (Token.merge (after.1.map (Piece.token words))) := by
  obtain ⟨after, hafter, rfl⟩ := hscan.behind_step (scanStep_run hrest hc)
  have hnext : (cursor.after [c]).rest = cs := by simp [hrest]
  by_cases hinside : ∃ d rest, cs = d :: rest ∧ d ≠ '"'
  · obtain ⟨d, rest, rfl, hd⟩ := hinside
    rw [List.takeWhile_cons_of_pos (contains_of_ne_quote hd), ← List.singleton_append] at hafter ⊢
    have hstep := scanStep_run hnext hd
    rw [cursor.after_append] at hafter
    refine ⟨count, _, .of_step rfl hstep hafter, rfl, ?_⟩
    exact mergeInto_token_piece words cursor .string [c] _ _
  · have hdone : cs.takeWhile (CharSet.single '"').compl.contains = [] := by
      cases cs with
      | nil => rfl
      | cons d rest =>
          apply List.takeWhile_cons_of_neg
          intro hd
          exact hinside ⟨d, rest, rfl, CharSet.contains_compl_single.mp hd⟩
    rw [hdone] at hafter ⊢
    exact ⟨_, after, hafter, rfl, rfl⟩

/-- Taken in runs or not, strings merge to the same tokens. -/
theorem merge_eq_of_scans {state : StateId} {count count' : Nat}
    {result result' : List Piece × StateId}
    (hscan : builtTable.Scans none cursor state count result)
    (hscan' : (tableWith runRule).Scans none cursor state count' result') :
    result.2 = result'.2 ∧
    Token.merge (result.1.map (Piece.token words)) =
      Token.merge (result'.1.map (Piece.token words)) := by
  induction hscan using RuleTable.Scans.step_induction generalizing count' result' with
  | done hrest =>
      rcases hscan'.cases_step with ⟨_, rfl⟩ | ⟨hne, _⟩ | ⟨_, _, _, _, _, hstep, _⟩
      · exact ⟨rfl, rfl⟩
      · exact absurd hrest hne
      · exact absurd hrest hstep.rest_ne_nil
  | capped hne hcap => simp at hcap
  | step _ _ hstep _ ih =>
      rcases scanStep_cases hstep with hsame | ⟨c, cs, hrest, hc, rfl, rfl, rfl, rfl⟩
      · obtain ⟨after', hafter', rfl⟩ := hscan'.behind_step hsame
        obtain ⟨hend, hmerge⟩ := ih hafter'
        refine ⟨hend, ?_⟩
        rw [List.map_append, List.map_append, Token.merge_append, Token.merge_append, hmerge]
      · obtain ⟨_, after', hafter', hend', hmerge'⟩ := scans_behind_first words hrest hc hscan'
        obtain ⟨hend, hmerge⟩ := ih hafter'
        refine ⟨hend.trans hend'.symm, ?_⟩
        rw [hmerge', ← hmerge]
        rfl

end Runs

/-- Strings may be taken in runs: the tokens differ, the merged ones do not. -/
theorem greedy_strings_merge_alike :
    ∃ table greedy,
      CellTail.table = .ok table ∧
      RuleTable.ofCalls (callsWith "[^\"]+") = .ok greedy ∧
      (∀ (line : List Char) (state : StateId),
        (Scanner.line ⟨table, vocabulary, ⟨none⟩⟩ line state).endState =
          (Scanner.line ⟨greedy, vocabulary, ⟨none⟩⟩ line state).endState ∧
        (Scanner.line ⟨table, vocabulary, ⟨none⟩⟩ line state).merged =
          (Scanner.line ⟨greedy, vocabulary, ⟨none⟩⟩ line state).merged) ∧
      ∃ (line : List Char) (state : StateId),
        (Scanner.line ⟨table, vocabulary, ⟨none⟩⟩ line state).tokens ≠
          (Scanner.line ⟨greedy, vocabulary, ⟨none⟩⟩ line state).tokens := by
  refine ⟨builtTable, tableWith runRule, table_eq, runTable_eq, ?_, ['a', 'b'], ⟨1⟩, ?_⟩
  · intro line state
    exact merge_eq_of_scans vocabulary (builtTable.scan_scans none line state)
      ((tableWith runRule).scan_scans none line state)
  · decide +kernel

end Highlighter.CellTail
