import Highlighter.Proofs.NumbersAndWords
import Mathlib.Tactic

/-!
# Lines of one word

On a line that is one word, no rule but the one for words can match: the
others take a character that words do not have, or a number.  The pattern for
words ends at a word edge, and a dollar sign is no word character, so the
dollar signs at the end of the word are left over.  They are plain text, and
what is looked up in the vocabulary is the word without them.
-/

namespace Highlighter

/-- A rule wins behind rules that match nothing. -/
theorem Rule.Wins.behind_all
    {cursor : Cursor} {rule : Rule} {thread : Thread} {front rules : List Rule} {place : Nat}
    (hfront : ∀ passed ∈ front, ∀ thread, ¬ passed.Takes cursor thread)
    (hwins : rule.Wins cursor thread rules place) :
    rule.Wins cursor thread (front ++ rules) (place + front.length) := by
  induction front with
  | nil => exact hwins
  | cons passed front ih =>
      rw [List.forall_mem_cons] at hfront
      exact .behind hfront.1 (ih hfront.2)

theorem Category.label_ne_text (category : Category) : category.label ≠ .text := by
  cases category <;> decide

namespace CellTail

/-! ## Rules that take no word -/

/-- What the rule takes holds a character that words do not have. -/
def LeavesWords (rule : Rule) : Prop :=
  rule.Gives fun text _ => text.all isWordPart = false

theorem all_isWordPart_eq_false {text : List Char} {c : Char} (hmem : c ∈ text)
    (hc : isWordPart c = false) : text.all isWordPart = false :=
  List.all_eq_false.mpr ⟨c, hmem, by rw [hc]; exact Bool.false_ne_true⟩

theorem isWordPart_of_blank {c : Char} (hblank : CharSet.blank.contains c = true) :
    isWordPart c = false := by
  have hunderscore : c = '_' ↔ c.toNat = 95 := Char.toNat_inj.symm
  have hdollar : c = '$' ↔ c.toNat = 36 := Char.toNat_inj.symm
  rw [← Bool.not_eq_true]
  intro hpart
  simp [CharSet.blank, Text.blankRanges] at hblank
  simp [isWordPart, isAlpha_iff_toNat, Char.isDigit_iff_toNat, hunderscore, hdollar] at hpart
  omega

theorem leavesWords_of_mem {rule : Rule} (words : List String)
    (hgives : rule.Gives fun text _ => String.ofList text ∈ words)
    (hwords : ∀ word ∈ words, word.toList.all isWordPart = false) : LeavesWords rule := by
  intro cursor thread htakes
  obtain ⟨text, htext, hcursor, hmem⟩ := hgives cursor thread htakes
  have hforeign := hwords _ hmem
  rw [String.toList_ofList] at hforeign
  exact ⟨text, htext, hcursor, hforeign⟩

theorem commentRule_leavesWords : LeavesWords commentRule := by
  intro cursor thread htakes
  obtain ⟨text, htext, hcursor, hhead, _⟩ := commentRule_gives cursor thread htakes
  rw [String.toList_ofList] at hhead
  exact ⟨text, htext, hcursor,
    all_isWordPart_eq_false (List.mem_of_mem_head? hhead) (by decide)⟩

theorem quoteRule_leavesWords (next : StateId) : LeavesWords (quoteRule next) := by
  refine Rule.gives_of_accepts (Plan.one_accepts (.single '"')) ?_
  rintro cursor _ ⟨c, rfl, hc⟩
  obtain rfl := CharSet.contains_single.mp hc
  decide

theorem charRule_leavesWords : LeavesWords charRule := by
  have haccepts := (Plan.one_accepts (.single '\'')).seq
    ((Plan.one_accepts (CharSet.single '\n').compl).seq (Plan.one_accepts (.single '\'')))
  refine Rule.gives_of_accepts haccepts ?_
  rintro cursor _ ⟨_, _, rfl, ⟨c, rfl, hc⟩, _⟩
  obtain rfl := CharSet.contains_single.mp hc
  exact all_isWordPart_eq_false List.mem_cons_self (by decide)

theorem operatorRule_leavesWords : LeavesWords operatorRule :=
  leavesWords_of_mem ["+", "-", "*", "/", "|", "&", "%", "^", ".."] operatorRule_gives (by decide)

theorem punctuationRule_leavesWords : LeavesWords punctuationRule :=
  leavesWords_of_mem _
    (Rule.gives_of_accepts (Plan.anyWord_accepts _ _) fun _ _ hword => hword) (by decide)

theorem leftParenRule_leavesWords : LeavesWords leftParenRule :=
  leavesWords_of_mem ["[", "(", "\x7b"] leftParenRule_gives (by decide)

theorem rightParenRule_leavesWords : LeavesWords rightParenRule :=
  leavesWords_of_mem ["]", ")", "\x7d"] rightParenRule_gives (by decide)

theorem blankRule_leavesWords : LeavesWords blankRule := by
  refine Rule.gives_of_accepts (Plan.many_one_accepts .blank) ?_
  rintro cursor text ⟨hne, hblank⟩
  have hhead := List.head_mem hne
  exact all_isWordPart_eq_false hhead (isWordPart_of_blank (hblank _ hhead))

/-- A definition has blanks behind its keyword. -/
theorem definitionRule_leavesWords : LeavesWords definitionRule := by
  intro cursor thread htakes
  obtain ⟨keyword, blanks, name, hheader, _⟩ := exists_longest_header htakes
  obtain ⟨hne, hblank⟩ := hheader.blanks_run
  have hhead := List.head_mem hne
  have hname := hheader.name_begins
  rw [← Cursor.after_append, Cursor.rest_after] at hname
  have hblanks := hheader.blanks_begin
  rw [Cursor.rest_after] at hblanks
  refine ⟨keyword ++ blanks ++ name, ?_, ?_, ?_⟩
  · rw [append_prefix_iff ((append_prefix_iff hheader.keyword_begins).mpr hblanks)]
    exact hname
  · rw [hheader.behind, Cursor.after_append, Cursor.after_append]
  · refine all_isWordPart_eq_false ?_ (isWordPart_of_blank (hblank _ hhead))
    simp [hhead]

section Words

variable {cursor : Cursor}

/-- Before a text of word characters and dollar signs, only the last two rules
can match. -/
theorem not_takes_before_word (hparts : ∀ c ∈ cursor.rest, isWordPart c = true) :
    ∀ rule ∈ startRules.take 9, ∀ thread, ¬ rule.Takes cursor thread := by
  have hnone : ∀ {rule}, LeavesWords rule → ∀ thread, ¬ rule.Takes cursor thread := by
    intro rule hleaves thread htakes
    obtain ⟨text, htext, _, hforeign⟩ := hleaves cursor thread htakes
    have hall : text.all isWordPart = true :=
      List.all_eq_true.mpr fun c hc => hparts c (htext.subset hc)
    rw [hall] at hforeign
    exact absurd hforeign.symm Bool.false_ne_true
  intro rule hrule
  have hmem : rule ∈ [commentRule, quoteRule ⟨1⟩, charRule, operatorRule, punctuationRule,
      leftParenRule, rightParenRule, definitionRule, blankRule] := hrule
  simp only [List.mem_cons, List.not_mem_nil, or_false] at hmem
  rcases hmem with rfl | rfl | rfl | rfl | rfl | rfl | rfl | rfl | rfl
  · exact hnone commentRule_leavesWords
  · exact hnone (quoteRule_leavesWords _)
  · exact hnone charRule_leavesWords
  · exact hnone operatorRule_leavesWords
  · exact hnone punctuationRule_leavesWords
  · exact hnone leftParenRule_leavesWords
  · exact hnone rightParenRule_leavesWords
  · exact hnone definitionRule_leavesWords
  · exact hnone blankRule_leavesWords

theorem scanStep_word
    (hparts : ∀ c ∈ cursor.rest, isWordPart c = true)
    (hnumber : startsNumber cursor.rest = false)
    (hword : startsWord cursor.rest = true) :
    builtTable.ScanStep cursor ⟨0⟩ [cursor.piece .classify (wordAhead cursor.rest)]
      (cursor.after (wordAhead cursor.rest)) ⟨0⟩ := by
  obtain ⟨thread, htakes⟩ := exists_takes_wordRule hword
  have hinteger : ∀ thread, ¬ integerRule.Takes cursor thread := by
    intro thread hinteger
    rw [(takes_integerRule hinteger).1] at hnumber
    exact absurd hnumber.symm Bool.false_ne_true
  have hconstants : wordRule.Wins cursor thread constantRules 1 :=
    .behind hinteger (.here htakes)
  have hwins : wordRule.Wins cursor thread (builtTable.rules ⟨0⟩) 10 :=
    hconstants.behind_all (not_takes_before_word hparts)
  exact RuleTable.scanStep_of_wins hwins rfl (wordAhead_begins cursor.rest)
    (takes_wordRule htakes).2

theorem scanStep_dollar {c : Char} {cs : List Char}
    (hrest : cursor.rest = c :: cs)
    (hdollars : ∀ d ∈ cursor.rest, d = '$') :
    builtTable.ScanStep cursor ⟨0⟩ [cursor.plainPiece c] (cursor.past c cs) ⟨0⟩ := by
  have hparts : ∀ d ∈ cursor.rest, isWordPart d = true := by
    intro d hd
    rw [hdollars d hd]
    decide
  have hrun : runAhead cursor.rest = cursor.rest := List.takeWhile_eq_self_iff.mpr hparts
  have hnumber : startsNumber cursor.rest = false := by
    rw [hrest, hdollars c (by rw [hrest]; exact List.mem_cons_self)]
    rfl
  have hword : startsWord cursor.rest = false := by
    have hnone : cursor.rest.any (· != '$') = false := by
      rw [List.any_eq_false]
      intro d hd
      simp [hdollars d hd]
    rw [startsWord, hrun, hnone, Bool.and_false]
  refine .plain hrest (firstMatch?_eq_none ?_ ⟨0⟩ 0)
  intro rule hrule thread htakes
  have hmem : rule ∈ startRules.take 9 ++ [integerRule, wordRule] := hrule
  simp only [List.mem_append, List.mem_cons, List.not_mem_nil, or_false] at hmem
  rcases hmem with hmem | rfl | rfl
  · exact not_takes_before_word hparts rule hmem thread htakes
  · rw [(takes_integerRule htakes).1] at hnumber
    exact absurd hnumber.symm Bool.false_ne_true
  · rw [(takes_wordRule htakes).1] at hword
    exact absurd hword.symm Bool.false_ne_true

/-- Dollar signs at the end of a line are plain text, with or without a cap. -/
theorem scans_dollars {cap : Option Nat} {count : Nat} {result : List Piece × StateId}
    {state : StateId}
    (hscan : builtTable.Scans cap cursor state count result)
    (hstate : state = ⟨0⟩)
    (hdollars : ∀ c ∈ cursor.rest, c = '$') :
    ∀ piece ∈ result.1, piece.mark = .label .text := by
  induction hscan using RuleTable.Scans.step_induction with
  | done => simp
  | capped => simp [Cursor.remainder]
  | @step cursor _ _ _ _ _ _ _ _ hstep _ ih =>
      subst hstate
      obtain ⟨c, cs, hrest⟩ := List.exists_cons_of_ne_nil hstep.rest_ne_nil
      obtain ⟨rfl, rfl, rfl⟩ := hstep.unique (scanStep_dollar hrest hdollars)
      rw [hrest, List.forall_mem_cons] at hdollars
      rw [List.singleton_append, List.forall_mem_cons]
      exact ⟨rfl, ih rfl hdollars.2⟩

end Words

/-! ## Words as lines -/

/-- A word at the beginning of a line, looked up as a whole. -/
def wordPieces (word : List Char) : List Piece :=
  if word = [] then [] else [⟨.classify, ⟨0, Text.byteLength word⟩, word⟩]

theorem flatMap_wordPieces (word : List Char) : (wordPieces word).flatMap (·.text) = word := by
  unfold wordPieces
  split
  next hword => rw [hword, List.flatMap_nil]
  next => rw [List.flatMap_singleton]

theorem rtakeWhile_dollar_eq_nil_iff (text : List Char) :
    text.rtakeWhile (· == '$') = [] ↔ text.getLast? ≠ some '$' := by
  cases text using List.reverseRecOn with
  | nil => simp
  | append_singleton text c => simp [List.rtakeWhile_concat]

theorem isIdentifierShape_spec {word : String} (hshape : isIdentifierShape word = true) :
    word.toList ≠ [] ∧
    word.toList.head?.any Char.isDigit = false ∧
    ∀ c ∈ word.toList, isWordPart c = true := by
  unfold isIdentifierShape at hshape
  split at hshape
  next => exact absurd hshape Bool.false_ne_true
  next c cs hword =>
      rw [Bool.and_eq_true, List.all_eq_true] at hshape
      obtain ⟨hstart, hparts⟩ := hshape
      have hpart : ∀ {d : Char}, (isIdentifierShape.isStart d || d.isDigit) = true →
          isWordPart d = true := by
        intro d hd
        rwa [← contains_wordParts, contains_wordParts_eq] at hd
      have hc : isWordPart c = true := hpart (by rw [hstart, Bool.true_or])
      rw [hword]
      refine ⟨List.cons_ne_nil c cs, ?_, ?_⟩
      · rw [← contains_wordStarts, contains_wordStarts_of_isWordPart hc] at hstart
        simpa using hstart
      · rw [List.forall_mem_cons]
        exact ⟨hc, fun d hd => hpart (hparts d hd)⟩

theorem startsNumber_eq_false {word : List Char} (hhead : word.head?.any Char.isDigit = false) :
    startsNumber word = false := by
  have hdigits : digitsAhead word = [] := by
    cases word with
    | nil => rfl
    | cons c cs => exact List.takeWhile_cons_of_neg (by simpa using hhead)
  rw [startsNumber, hdigits]
  rfl

/-- The run of the loop over a word: the word without its last dollar signs,
and then those as plain text. -/
theorem scan_word {word : List Char} (cap : Option Nat)
    (hcap : cap.any (· ≤ 0) = false)
    (hhead : word.head?.any Char.isDigit = false)
    (hparts : ∀ c ∈ word, isWordPart c = true) :
    ∃ tail,
      (builtTable.scan cap word ⟨0⟩).1 = wordPieces (word.rdropWhile (· == '$')) ++ tail ∧
      ∀ piece ∈ tail, piece.mark = .label .text := by
  have hscan := builtTable.scan_scans cap word ⟨0⟩
  have hrun : runAhead word = word := List.takeWhile_eq_self_iff.mpr hparts
  have hahead : wordAhead word = word.rdropWhile (· == '$') := by rw [wordAhead, hrun]
  by_cases hcore : word.rdropWhile (· == '$') = []
  · have hdollars : ∀ c ∈ word, c = '$' := by
      intro c hc
      exact beq_iff_eq.mp (List.rdropWhile_eq_nil_iff.mp hcore c hc)
    exact ⟨_, by rw [hcore]; rfl, scans_dollars hscan rfl hdollars⟩
  · have hword : startsWord word = true := by
      have hsome : word.any (· != '$') = true := by
        by_contra hnone
        refine hcore (List.rdropWhile_eq_nil_iff.mpr ?_)
        simpa using hnone
      rw [startsWord, hrun, hhead, hsome]
      rfl
    have hstep : builtTable.ScanStep (.start word) ⟨0⟩ _ _ ⟨0⟩ :=
      scanStep_word hparts (startsNumber_eq_false hhead) hword
    obtain ⟨after, hafter, hresult⟩ := hscan.behind_free_step hcap hstep
    refine ⟨after.1, ?_, scans_dollars hafter rfl ?_⟩
    · rw [hresult, wordPieces, if_neg hcore, ← hahead, Cursor.piece, Cursor.offset_after]
      simp [Cursor.start]
    · obtain ⟨dollars, _, hsplit, hdollars⟩ := exists_behind_wordAhead word
      have hrest : word.drop (wordAhead word).length = dollars := by
        have hdrop := congrArg (List.drop (wordAhead word).length) hsplit
        rwa [hrun, List.drop_left] at hdrop
      intro c hc
      rw [Cursor.rest_after] at hc
      change c ∈ word.drop (wordAhead word).length at hc
      rw [hrest] at hc
      exact hdollars c hc

theorem mode_eq : mode = .ok builtMode := by
  rw [mode, table_eq]
  rfl

/-- The tokens of a line that is one word. -/
def lineTokens (word : String) : List Token :=
  (Scanner.line ⟨builtTable, vocabulary, .default⟩ word.toList ⟨0⟩).tokens

theorem exists_lineTokens {word : String} (hshape : isIdentifierShape word = true) :
    ∃ tail,
      lineTokens word =
        (wordPieces (word.toList.rdropWhile (· == '$'))).map (Piece.token vocabulary) ++ tail ∧
      (∀ token ∈ tail, token.label = .text) ∧
      tail.flatMap (·.text.toList) = word.toList.rtakeWhile (· == '$') := by
  obtain ⟨_, hhead, hparts⟩ := isIdentifierShape_spec hshape
  obtain ⟨tail, hpieces, htail⟩ := scan_word ScanConfig.default.cap rfl hhead hparts
  refine ⟨tail.map (Piece.token vocabulary), ?_, ?_, ?_⟩
  · rw [← List.map_append, ← hpieces]
    rfl
  · intro token htoken
    obtain ⟨piece, hpiece, rfl⟩ := List.mem_map.mp htoken
    rw [Piece.token, htail piece hpiece]
    rfl
  · have hflatten := (builtTable.scan_tiles ScanConfig.default.cap word.toList ⟨0⟩).flatten
    rw [hpieces, List.flatMap_append, flatMap_wordPieces] at hflatten
    rw [flatMap_text_tokens]
    exact List.append_cancel_left
      (hflatten.trans (List.rdropWhile_append_rtakeWhile (p := (· == '$'))).symm)

theorem lineTokens_eq_singleton {word : String}
    (hshape : isIdentifierShape word = true)
    (hlast : word.toList.getLast? ≠ some '$') :
    lineTokens word =
      [Piece.token vocabulary ⟨.classify, ⟨0, Text.byteLength word.toList⟩, word.toList⟩] := by
  obtain ⟨tail, htokens, _, hdollars⟩ := exists_lineTokens hshape
  rw [rtakeWhile_dollar_eq_nil_iff _ |>.mpr hlast] at hdollars
  have htail : tail = [] := by
    rw [List.eq_nil_iff_forall_not_mem]
    intro token htoken
    have hmem : token ∈ lineTokens word := htokens ▸ List.mem_append_right _ htoken
    refine Scanner.text_ne_empty_of_mem_line hmem ?_
    rw [← String.toList_eq_nil_iff]
    exact List.flatMap_eq_nil_iff.mp hdollars token htoken
  have hcore : word.toList.rdropWhile (· == '$') = word.toList := by
    have hsplit := List.rdropWhile_append_rtakeWhile (p := (· == '$')) (l := word.toList)
    rwa [(rtakeWhile_dollar_eq_nil_iff _).mpr hlast, List.append_nil] at hsplit
  rw [htokens, htail, hcore, wordPieces, if_neg (isIdentifierShape_spec hshape).1]
  rfl

/-- A word gives one token, looked up as a whole, unless it ends in dollar
signs: these are plain text behind the rest of the word. -/
theorem word_is_one_token_iff (word : String) (hshape : isIdentifierShape word = true) :
    ∃ mode tail,
      CellTail.mode = .ok mode ∧
      (mode.scanner.line word.toList mode.table.start).tokens =
        (wordPieces (word.toList.rdropWhile (· == '$'))).map (Piece.token mode.vocabulary) ++
          tail ∧
      (∀ token ∈ tail, token.label = .text) ∧
      tail.flatMap (·.text.toList) = word.toList.rtakeWhile (· == '$') ∧
      ((∃ token,
          (mode.scanner.line word.toList mode.table.start).tokens = [token] ∧
          token.text = word ∧
          token.label = (mode.vocabulary.classify word).label) ↔
        word.toList.getLast? ≠ some '$') := by
  obtain ⟨tail, htokens, hlabels, hdollars⟩ := exists_lineTokens hshape
  refine ⟨_, tail, mode_eq, htokens, hlabels, hdollars, ?_⟩
  change (∃ token, lineTokens word = [token] ∧ _) ↔ _
  constructor
  · rintro ⟨token, htoken, _, hlabel⟩
    rw [← rtakeWhile_dollar_eq_nil_iff, ← hdollars]
    rw [htokens] at htoken
    rcases List.append_eq_singleton_iff.mp htoken with ⟨_, htail⟩ | ⟨_, htail⟩
    · have htext := hlabels token (htail ▸ List.mem_singleton_self token)
      exact absurd (hlabel.symm.trans htext) (Category.label_ne_text _)
    · rw [htail, List.flatMap_nil]
  · intro hlast
    refine ⟨_, lineTokens_eq_singleton hshape hlast, String.ofList_toList, ?_⟩
    rw [Piece.token, String.ofList_toList]
    rfl

/-- Dollar signs inside of a word are part of it. -/
theorem word_is_one_token_inner_dollar :
    isIdentifierShape "$a$1" = true ∧
    ∃ mode token,
      CellTail.mode = .ok mode ∧
      (mode.scanner.line "$a$1".toList mode.table.start).tokens = [token] ∧
      token.text = "$a$1" ∧
      token.label = .identifier := by
  have hshape : isIdentifierShape "$a$1" = true := by decide
  obtain ⟨mode, _, hmode, _, _, _, hiff⟩ := word_is_one_token_iff "$a$1" hshape
  obtain ⟨token, htokens, htext, hlabel⟩ := hiff.mpr (by decide)
  refine ⟨hshape, mode, token, hmode, htokens, htext, ?_⟩
  obtain rfl := Except.ok.inj (mode_eq.symm.trans hmode)
  rw [hlabel]
  decide

/-- A listed word is recognised in a longer one. -/
theorem keyword_found_before_dollar :
    isIdentifierShape "fn$" = true ∧
    ∃ mode,
      CellTail.mode = .ok mode ∧
      (mode.scanner.line "fn$".toList mode.table.start).tokens =
        [⟨.keyword, "fn", .ofSpan ⟨0, 2⟩⟩, ⟨.text, "$", .ofSpan ⟨2, 3⟩⟩] ∧
      ¬ ∃ token,
        (mode.scanner.line "fn$".toList mode.table.start).tokens = [token] ∧
        token.text = "fn$" ∧
        token.label = (mode.vocabulary.classify "fn$").label := by
  have htokens : lineTokens "fn$" =
      [⟨.keyword, "fn", .ofSpan ⟨0, 2⟩⟩, ⟨.text, "$", .ofSpan ⟨2, 3⟩⟩] := by
    decide +kernel
  refine ⟨by decide, _, mode_eq, htokens, ?_⟩
  rintro ⟨token, hone, _⟩
  exact absurd (htokens.symm.trans hone) (by simp)

end CellTail

end Highlighter
