import Highlighter.Proofs.DefinitionHeaders
import Highlighter.Proofs.FollowedPieces
import Mathlib.Tactic

/-!
# The shape of CellTail tokens

A token's label says what its text looks like and, for comments and numbers,
what may follow it.  Each rule gives texts of the shape that its label
promises, because of the characters that its plan takes; two rules need more
than that.  Punctuation is only matched where no operator is, and a word takes
as much as the word edge behind it allows, so it never ends in a dollar sign.
-/

namespace Highlighter

namespace CellTail

/-! ## Promises -/

/-- What a token's label promises of its text and of the text behind it. -/
def Promise (label : Label) (text : String) (after : List Char) : Prop :=
  match label with
  | .comment => text.toList.head? = some '#' ∧ '\n' ∉ text.toList ∧ after = []
  | .string => text.toList.length = 1 ∨ ∃ c, c ≠ '\n' ∧ text.toList = ['\'', c, '\'']
  | .keywordOperator => text ∈ ["+", "-", "*", "/", "|", "&", "%", "^", ".."]
  | .punctuation => text ∈ [",", ":", ";", "@=", ">>=", "<<="]
  | .leftParen => text ∈ ["[", "(", "\x7b"]
  | .rightParen => text ∈ ["]", ")", "\x7d"]
  | .keyword => text ∈ ["fn", "I", "INPUT", "D", "DEBUG", "O", "OUTPUT", "def", "class"]
  | .text => True
  | .functionName => True
  | .numeric =>
    (text = "0" ∨
      text.toList ≠ [] ∧ (∀ c ∈ text.toList, c.isDigit = true) ∧
        text.toList.head? ≠ some '0') ∧
    ∀ c, after.head? = some c → Text.isAsciiWord c = false
  | .languageConstant => text ∈ ["N", "false", "true"]
  | .supportFunction => False
  | .languageVariable => text ∈ ["self", "cls"]
  | .invalidDeprecated => text = "debugger"
  | .identifier =>
    isIdentifierShape text = true ∧
    text.toList.getLast? ≠ some '$' ∧
    ∀ category, text ∉ vocabulary.list category

def Keeps (piece : Piece) (after : List Char) : Prop :=
  Promise (piece.token vocabulary).label (piece.token vocabulary).text after

/-- The promise of a label, for the texts that a rule takes. -/
def Shape (label : Label) (text after : List Char) : Prop :=
  Promise label (String.ofList text) after

theorem commentRule_gives : commentRule.Gives (Shape .comment) := by
  have haccepts := (Plan.one_accepts (.single '#')).seq
    ((Plan.star_one_accepts (CharSet.single '\n').compl).seq (Plan.look_accepts .textEnd))
  refine Rule.gives_of_accepts haccepts ?_
  rintro cursor _ ⟨_, _, rfl, ⟨c, rfl, hc⟩, run, _, rfl, hrun, rfl, hend⟩
  obtain rfl := CharSet.contains_single.mp hc
  rw [List.append_nil, Cursor.after_append]
  refine ⟨by simp, ?_, ?_⟩
  · simp only [String.toList_ofList, List.mem_append, List.mem_singleton, not_or]
    refine ⟨by decide, ?_⟩
    intro hmem
    exact CharSet.contains_compl_single.mp (hrun _ hmem) rfl
  · simpa [Assertion.holds, Cursor.atEnd] using hend

theorem quoteRule_gives (next : StateId) : (quoteRule next).Gives (Shape .string) := by
  refine Rule.gives_of_accepts (Plan.one_accepts (.single '"')) ?_
  rintro cursor _ ⟨c, rfl, _⟩
  exact Or.inl (by simp)

theorem contentRule_gives : contentRule.Gives (Shape .string) := by
  refine Rule.gives_of_accepts (Plan.one_accepts (CharSet.single '"').compl) ?_
  rintro cursor _ ⟨c, rfl, _⟩
  exact Or.inl (by simp)

theorem charRule_gives : charRule.Gives (Shape .string) := by
  have haccepts := (Plan.one_accepts (.single '\'')).seq
    ((Plan.one_accepts (CharSet.single '\n').compl).seq (Plan.one_accepts (.single '\'')))
  refine Rule.gives_of_accepts haccepts ?_
  rintro cursor _ ⟨_, _, rfl, ⟨a, rfl, ha⟩, _, _, rfl, ⟨c, rfl, hc⟩, b, rfl, hb⟩
  obtain rfl := CharSet.contains_single.mp ha
  obtain rfl := CharSet.contains_single.mp hb
  exact Or.inr ⟨c, CharSet.contains_compl_single.mp hc, by simp⟩

theorem operatorRule_gives : operatorRule.Gives (Shape .keywordOperator) :=
  Rule.gives_of_accepts (Plan.anyWord_accepts _ _) fun _ _ hword => hword

theorem gives_of_singles {rule : Rule} {label : Label} (cs : List Char)
    (hplan : rule.plan = .one ⟨cs.map fun c => (c.toNat, c.toNat)⟩)
    (hshape : ∀ c ∈ cs, ∀ after, Shape label [c] after) : rule.Gives (Shape label) := by
  have haccepts := Plan.one_accepts ⟨cs.map fun c => (c.toNat, c.toNat)⟩
  rw [← hplan] at haccepts
  refine Rule.gives_of_accepts haccepts ?_
  rintro cursor _ ⟨c, rfl, hc⟩
  exact hshape c (CharSet.mem_of_contains_singles hc) _

theorem leftParenRule_gives : leftParenRule.Gives (Shape .leftParen) :=
  gives_of_singles ['(', '[', '\x7b'] (by decide) (by simp [Shape, Promise])

theorem rightParenRule_gives : rightParenRule.Gives (Shape .rightParen) :=
  gives_of_singles [')', ']', '\x7d'] (by decide) (by simp [Shape, Promise])

/-! ## Numbers and words -/

theorem holds_wordEdge_after {cursor : Cursor} {text : List Char} {c : Char}
    (hlast : text.getLast? = some c) :
    (Assertion.wordEdge .ascii).holds (cursor.after text) =
      (Text.isAsciiWord c != (cursor.after text).wordAfter .ascii) := by
  have hne : text ≠ [] := by
    rintro rfl
    simp at hlast
  simp [Assertion.holds, Cursor.atWordEdge, Cursor.wordBefore, cursor.before_after hne, hlast,
    Alphabet.isWord]

theorem wordEdge_behind_word {cursor : Cursor} {text : List Char} {c : Char}
    (hlast : text.getLast? = some c) (hword : Text.isAsciiWord c = true) :
    (Assertion.wordEdge .ascii).holds (cursor.after text) = true ↔
      ∀ d, (cursor.after text).rest.head? = some d → Text.isAsciiWord d = false := by
  rw [holds_wordEdge_after hlast, hword, Cursor.wordAfter]
  cases (cursor.after text).rest.head? with
  | none => simp
  | some d => simp [Alphabet.isWord]

/-- The word characters that follow a cursor end at a word edge. -/
theorem exists_word_ahead {cursor : Cursor} (hword : cursor.wordAfter .ascii = true) :
    ∃ taken,
      taken ≠ [] ∧
      taken <+: cursor.rest ∧
      (∀ c ∈ taken, Text.isAsciiWord c = true) ∧
      (Assertion.wordEdge .ascii).holds (cursor.after taken) = true := by
  have hall : ∀ c ∈ cursor.rest.takeWhile Text.isAsciiWord, Text.isAsciiWord c = true :=
    fun c hc => List.mem_takeWhile_imp hc
  have hne : cursor.rest.takeWhile Text.isAsciiWord ≠ [] := by
    rw [Cursor.wordAfter] at hword
    cases hrest : cursor.rest with
    | nil => simp [hrest] at hword
    | cons c cs =>
        have hc : Text.isAsciiWord c = true := by simpa [hrest, Alphabet.isWord] using hword
        rw [List.takeWhile_cons_of_pos hc]
        exact List.cons_ne_nil _ _
  refine ⟨_, hne, List.takeWhile_prefix _, hall, ?_⟩
  apply (wordEdge_behind_word (List.getLast?_eq_getLast_of_ne_nil hne)
    (hall _ (List.getLast_mem hne))).mpr
  intro d hd
  rw [Cursor.rest_after, drop_length_takeWhile] at hd
  exact eq_false_of_head?_dropWhile hd

theorem isAsciiWord_of_isDigit {c : Char} (hdigit : c.isDigit = true) :
    Text.isAsciiWord c = true := by
  simp [Text.isAsciiWord, Char.isAlphanum, hdigit]

/-- Zero, or digits that do not begin with it. -/
def IsNumeral (text : List Char) : Prop :=
  text ≠ [] ∧ (∀ c ∈ text, c.isDigit = true) ∧ (text = ['0'] ∨ text.head? ≠ some '0')

theorem isNumeral_cons {c : Char} {run : List Char} :
    IsNumeral (c :: run) ↔
      (c.isDigit = true ∧ c ≠ '0' ∧ ∀ d ∈ run, d.isDigit = true) ∨ (c = '0' ∧ run = []) := by
  simp only [IsNumeral, List.forall_mem_cons, List.head?_cons, ne_eq, Option.some.injEq,
    List.cons.injEq, List.cons_ne_nil, not_false_eq_true, true_and]
  constructor
  · rintro ⟨⟨hdigit, hrun⟩, hzero | hnonzero⟩
    · exact Or.inr hzero
    · exact Or.inl ⟨hdigit, hnonzero, hrun⟩
  · rintro (⟨hdigit, hnonzero, hrun⟩ | ⟨rfl, rfl⟩)
    · exact ⟨⟨hdigit, hrun⟩, Or.inr hnonzero⟩
    · exact ⟨⟨rfl, by simp⟩, Or.inl ⟨rfl, rfl⟩⟩

theorem integerRule_accepts :
    integerRule.plan.Accepts fun cursor text =>
      IsNumeral text ∧ (Assertion.wordEdge .ascii).holds (cursor.after text) = true := by
  have haccepts := (((Plan.one_accepts (.range '1' '9')).seq
    (Plan.star_one_accepts .asciiDigit)).alt (Plan.one_accepts (.single '0'))).seq
      (Plan.look_accepts (.wordEdge .ascii))
  refine haccepts.congr ?_
  intro cursor text
  simp only [CharSet.contains_nonzeroDigit, CharSet.contains_asciiDigit, CharSet.contains_single]
  constructor
  · rintro ⟨text, _, rfl, hdigits, rfl, hedge⟩
    rw [List.append_nil]
    refine ⟨?_, hedge⟩
    rcases hdigits with ⟨_, run, rfl, ⟨c, rfl, hc⟩, hrun⟩ | ⟨c, rfl, rfl⟩
    · exact isNumeral_cons.mpr (Or.inl ⟨hc.1, hc.2, hrun⟩)
    · exact isNumeral_cons.mpr (Or.inr ⟨rfl, rfl⟩)
  · rintro ⟨hnumeral, hedge⟩
    refine ⟨text, [], (List.append_nil text).symm, ?_, rfl, hedge⟩
    obtain ⟨c, run, rfl⟩ := List.exists_cons_of_ne_nil hnumeral.1
    rcases isNumeral_cons.mp hnumeral with ⟨hdigit, hnonzero, hrun⟩ | ⟨rfl, rfl⟩
    · exact Or.inl ⟨[c], run, rfl, ⟨c, rfl, hdigit, hnonzero⟩, hrun⟩
    · exact Or.inr ⟨'0', rfl, rfl⟩

/-- A number ends at a word edge if no word character follows it. -/
theorem IsNumeral.wordEdge_iff {text : List Char} (hnumeral : IsNumeral text) (cursor : Cursor) :
    (Assertion.wordEdge .ascii).holds (cursor.after text) = true ↔
      ∀ d, (cursor.after text).rest.head? = some d → Text.isAsciiWord d = false := by
  obtain ⟨hne, hdigits, _⟩ := hnumeral
  have hword := isAsciiWord_of_isDigit (hdigits _ (List.getLast_mem hne))
  exact wordEdge_behind_word (List.getLast?_eq_getLast_of_ne_nil hne) hword

theorem integerRule_gives : integerRule.Gives (Shape .numeric) := by
  refine Rule.gives_of_accepts integerRule_accepts ?_
  rintro cursor text ⟨hnumeral, hedge⟩
  constructor
  · rcases hnumeral with ⟨hne, hdigits, rfl | hhead⟩
    · exact Or.inl (by decide)
    · exact Or.inr (by simpa using ⟨hne, hdigits, hhead⟩)
  · exact (hnumeral.wordEdge_iff cursor).mp hedge

/-- A word takes as much as the edge behind it allows, so it does not stop
between a dollar sign and a word character. -/
theorem getLast?_ne_dollar {cursor : Cursor} {c : Char} {run : List Char}
    (htext : c :: run <+: cursor.rest)
    (hrun : ∀ d ∈ run, wordParts.contains d = true)
    (hedge : (Assertion.wordEdge .ascii).holds (cursor.after (c :: run)) = true)
    (hlongest : ∀ longer, c :: longer <+: cursor.rest →
      (∀ d ∈ longer, wordParts.contains d = true) →
      (Assertion.wordEdge .ascii).holds (cursor.after (c :: longer)) = true →
      longer.length ≤ run.length) :
    (c :: run).getLast? ≠ some '$' := by
  intro hlast
  -- A word character follows, and the edge behind it and the next ones is further on.
  have hdollar : Text.isAsciiWord '$' = false := by decide
  have hword : (cursor.after (c :: run)).wordAfter .ascii = true := by
    rw [holds_wordEdge_after hlast, hdollar] at hedge
    simpa using hedge
  obtain ⟨taken, hne, hmore, hwords, hfurther⟩ := exists_word_ahead hword
  have hall : ∀ d ∈ run ++ taken, wordParts.contains d = true := by
    intro d hd
    rcases List.mem_append.mp hd with hd | hd
    · exact hrun d hd
    · exact contains_wordParts_of_isAsciiWord (hwords d hd)
  rw [Cursor.rest_after] at hmore
  rw [← Cursor.after_append] at hfurther
  have hle := hlongest (run ++ taken) ((append_prefix_iff htext).mpr hmore) hall hfurther
  have hpos := List.length_pos_of_ne_nil hne
  rw [List.length_append] at hle
  omega

theorem wordRule_gives :
    wordRule.Gives fun text _ =>
      isIdentifierShape (String.ofList text) = true ∧ text.getLast? ≠ some '$' := by
  rintro cursor thread ⟨hmatch, _⟩
  obtain ⟨c, run, htext, hc, hrun, hedge, hplace, hlongest⟩ := Plan.matchAt?_longest hmatch
  refine ⟨c :: run, htext, congrArg Place.cursor hplace, ?_, ?_⟩
  · simp only [isIdentifierShape, String.toList_ofList, Bool.and_eq_true, List.all_eq_true]
    refine ⟨contains_wordStarts c ▸ hc, ?_⟩
    intro d hd
    exact contains_wordParts d ▸ hrun d hd
  · exact getLast?_ne_dollar htext hrun hedge hlongest

/-! ## Punctuation -/

/-- Punctuation begins with an operator, or is one of the six that are
reached. -/
theorem punctuationRule_words :
    punctuationRule.Gives fun text _ =>
      String.ofList text ∈ [",", ":", ";", "@=", ">>=", "<<="] ∨
        ∃ operator ∈ ["+", "-", "*", "/", "|", "&", "%", "^", ".."],
          operator.toList <+: text := by
  have hwords : ∀ word ∈ [",", ":", ";", "->", "+=", "-=", "*=", "/=", "//=", "%=", "@=", "&=",
        "|=", "^=", ">>=", "<<=", "**="],
      word ∈ [",", ":", ";", "@=", ">>=", "<<="] ∨
        ∃ operator ∈ ["+", "-", "*", "/", "|", "&", "%", "^", ".."],
          operator.toList <+: word.toList := by
    decide
  refine Rule.gives_of_accepts (Plan.anyWord_accepts _ _) ?_
  intro cursor text hword
  simpa using hwords _ hword

theorem punctuationRule_gives {cursor : Cursor} {thread : Thread}
    (htakes : punctuationRule.Takes cursor thread)
    (hfree : ∀ thread, ¬ operatorRule.Takes cursor thread) :
    ∃ text,
      text <+: cursor.rest ∧
      thread.cursor = cursor.after text ∧
      Shape .punctuation text (cursor.after text).rest := by
  obtain ⟨text, htext, hcursor, hwords⟩ := punctuationRule_words cursor thread htakes
  rcases hwords with hreached | ⟨operator, hoperator, hbegins⟩
  · exact ⟨text, htext, hcursor, hreached⟩
  · have hnone := Rule.not_accepted rfl (Plan.anyWord_accepts _ _) (by decide) hfree
      (hbegins.trans htext)
    rw [String.ofList_toList] at hnone
    exact absurd hoperator hnone

/-! ## Words and their lists -/

theorem vocabulary_eq :
    vocabulary =
      { invalidDeprecated := ["debugger"]
        supportFunction := []
        pseudoVariable := ["self", "cls"]
        constant := ["N", "false", "true"]
        keyword := ["fn", "I", "INPUT", "D", "DEBUG", "O", "OUTPUT"] } := by
  decide

theorem promise_classify {word : String} (hshape : isIdentifierShape word = true)
    (hlast : word.toList.getLast? ≠ some '$') (after : List Char) :
    Promise (vocabulary.classify word).label word after := by
  unfold Vocabulary.classify
  cases hfind : Category.precedence.find? (vocabulary.contains · word) with
  | none =>
      refine ⟨hshape, hlast, ?_⟩
      intro category hmem
      have hcontains : vocabulary.contains category word = true := List.contains_iff_mem.mpr hmem
      have hnone := List.find?_eq_none.mp hfind
      cases category with
      | identifier => simp [Vocabulary.list] at hmem
      | _ => exact hnone _ (by decide) hcontains
  | some category =>
      have hcontains := List.find?_some hfind
      have hmem : word ∈ vocabulary.list category := List.contains_iff_mem.mp hcontains
      rw [vocabulary_eq] at hmem
      cases category with
      | identifier => simp [Vocabulary.list] at hmem
      | supportFunction => simp [Vocabulary.list] at hmem
      | invalidDeprecated => exact List.mem_singleton.mp hmem
      | pseudoVariable => exact hmem
      | constant => exact hmem
      | keyword => exact List.mem_append_left ["def", "class"] hmem

/-! ## Steps of a scan -/

/-- The pieces of a match keep what their labels promise. -/
def KeepsAt (rule : Rule) (cursor : Cursor) (thread : Thread) : Prop :=
  ∀ state place,
    EachFollowed Keeps
      (cutPieces cursor.offset cursor.rest (rule.report state cursor thread place).cuts)
      thread.cursor.rest

section Steps

variable {rule : Rule} {cursor : Cursor} {thread : Thread} {place : Nat}

theorem keepsAt_of_gives {label : Label} (hlabel : rule.labelling = .whole label)
    (hgives : rule.Gives (Shape label)) (htakes : rule.Takes cursor thread) :
    KeepsAt rule cursor thread := by
  have hmark : rule.labelling.mark? = some (.label label) := congrArg Labelling.mark? hlabel
  obtain ⟨text, htext, hcursor, hshape⟩ := hgives cursor thread htakes
  exact Rule.eachFollowed_single hmark htext hcursor fun _ => hshape

theorem blankRule_gives : blankRule.Gives (Shape .text) :=
  Rule.gives_of_accepts (Plan.many_one_accepts .blank) fun _ _ _ => trivial

theorem keepsAt_punctuation (htakes : punctuationRule.Takes cursor thread)
    (hfree : ∀ thread, ¬ operatorRule.Takes cursor thread) :
    KeepsAt punctuationRule cursor thread := by
  have hmark : punctuationRule.labelling.mark? = some (.label .punctuation) := rfl
  obtain ⟨text, htext, hcursor, hshape⟩ := punctuationRule_gives htakes hfree
  exact Rule.eachFollowed_single hmark htext hcursor fun _ => hshape

theorem keepsAt_definition (htakes : definitionRule.Takes cursor thread) :
    KeepsAt definitionRule cursor thread := by
  intro state place
  obtain ⟨keyword, blanks, name, hheader, _⟩ := exists_longest_header htakes
  rw [hheader.pieces]
  refine ⟨?_, trivial, trivial, trivial⟩
  have hmem := hheader.keyword_mem
  exact List.mem_append_right ["fn", "I", "INPUT", "D", "DEBUG", "O", "OUTPUT"] hmem

theorem keepsAt_word (htakes : wordRule.Takes cursor thread) : KeepsAt wordRule cursor thread := by
  have hmark : wordRule.labelling.mark? = some .classify := rfl
  obtain ⟨text, htext, hcursor, hshape, hlast⟩ := wordRule_gives cursor thread htakes
  refine Rule.eachFollowed_single hmark htext hcursor fun _ => ?_
  exact promise_classify hshape (by rwa [String.toList_ofList]) _

theorem keepsAt_of_mem_constantRules (hmem : rule ∈ constantRules)
    (htakes : rule.Takes cursor thread) : KeepsAt rule cursor thread := by
  simp only [constantRules, List.mem_cons, List.not_mem_nil, or_false] at hmem
  rcases hmem with rfl | rfl
  · exact keepsAt_of_gives rfl integerRule_gives htakes
  · exact keepsAt_word htakes

theorem keepsAt_of_mem_stringRules (hmem : rule ∈ stringRules)
    (htakes : rule.Takes cursor thread) : KeepsAt rule cursor thread := by
  simp only [stringRules, List.mem_cons, List.not_mem_nil, or_false] at hmem
  rcases hmem with rfl | rfl
  · exact keepsAt_of_gives rfl (quoteRule_gives _) htakes
  · exact keepsAt_of_gives rfl contentRule_gives htakes

/-- Operators stand before punctuation. -/
theorem not_operator_of_punctuation (hwins : punctuationRule.Wins cursor thread startRules place) :
    ∀ thread, ¬ operatorRule.Takes cursor thread := by
  have hsplit : startRules =
      [commentRule, quoteRule ⟨1⟩, charRule] ++ operatorRule :: startRules.drop 4 := rfl
  rw [hsplit] at hwins
  rcases hwins.mem_or_not_takes with hmem | hfree
  · exact absurd hmem (by decide)
  · exact hfree

theorem keepsAt_of_wins_start (hwins : rule.Wins cursor thread startRules place) :
    KeepsAt rule cursor thread := by
  have htakes := hwins.takes
  rcases List.mem_append.mp hwins.mem with hmem | hmem
  · simp only [List.mem_cons, List.not_mem_nil, or_false] at hmem
    rcases hmem with rfl | rfl | rfl | rfl | rfl | rfl | rfl | rfl | rfl
    · exact keepsAt_of_gives rfl commentRule_gives htakes
    · exact keepsAt_of_gives rfl (quoteRule_gives _) htakes
    · exact keepsAt_of_gives rfl charRule_gives htakes
    · exact keepsAt_of_gives rfl operatorRule_gives htakes
    · exact keepsAt_punctuation htakes (not_operator_of_punctuation hwins)
    · exact keepsAt_of_gives rfl leftParenRule_gives htakes
    · exact keepsAt_of_gives rfl rightParenRule_gives htakes
    · exact keepsAt_definition htakes
    · exact keepsAt_of_gives rfl blankRule_gives htakes
  · exact keepsAt_of_mem_constantRules hmem htakes

end Steps

theorem step_keeps {cursor behind : Cursor} {state next : StateId} {pieces : List Piece}
    (hstep : builtTable.ScanStep cursor state pieces behind next) :
    EachFollowed Keeps pieces behind.rest := by
  cases hstep with
  | plain => exact ⟨trivial, trivial⟩
  | matched _ hmatch =>
      obtain ⟨rule, thread, place, hwins, rfl, rfl⟩ := firstMatch?_wins hmatch
      rcases rules_builtTable state with hrules | hrules | hrules | hrules
      · rw [hrules] at hwins
        exact keepsAt_of_wins_start hwins _ _
      · exact keepsAt_of_mem_stringRules (hrules ▸ hwins.mem) hwins.takes _ _
      · exact keepsAt_of_mem_constantRules (hrules ▸ hwins.mem) hwins.takes _ _
      · have hmem := hwins.mem
        rw [hrules] at hmem
        exact absurd hmem List.not_mem_nil

/-! ## Tokens -/

theorem flatMap_text_tokens (pieces : List Piece) :
    (pieces.map (Piece.token vocabulary)).flatMap (·.text.toList) = pieces.flatMap (·.text) := by
  simp [List.flatMap_map, Piece.token]

/-- Every token of a line looks as its label promises. -/
theorem tokens_keep_promises :
    ∃ table, CellTail.table = .ok table ∧
      ∀ (config : ScanConfig) (line : List Char) (state : StateId)
        (front : List Token) (token : Token) (back : List Token),
        (Scanner.line ⟨table, vocabulary, config⟩ line state).tokens = front ++ token :: back →
        line =
          front.flatMap (·.text.toList) ++ token.text.toList ++ back.flatMap (·.text.toList) ∧
        Promise token.label token.text (back.flatMap (·.text.toList)) := by
  refine ⟨builtTable, table_eq, ?_⟩
  intro config line state front token back htokens
  have hscan := builtTable.scan_scans config.cap line state
  have hkeeps := hscan.eachFollowed step_keeps fun _ => trivial
  have htext := hscan.tiles.flatten
  obtain ⟨before, others, hpieces, rfl, hothers⟩ := List.map_eq_append_iff.mp htokens
  obtain ⟨piece, after, rfl, rfl, rfl⟩ := List.map_eq_cons_iff.mp hothers
  rw [hpieces] at hkeeps htext
  rw [flatMap_text_tokens, flatMap_text_tokens]
  constructor
  · have hline : line = (before ++ piece :: after).flatMap (·.text) := htext.symm
    simp [hline, Piece.token]
  · have hpiece := (eachFollowed_append.mp hkeeps).2.1
    rwa [List.append_nil] at hpiece

/-- The word stops before the dollar sign, because no word character follows
it, and the number before a letter that is not of ASCII. -/
theorem tokens_keep_promises_at_edges :
    ∃ table, CellTail.table = .ok table ∧
      (Scanner.line ⟨table, vocabulary, ⟨none⟩⟩ "ab$-=7é".toList ⟨0⟩).tokens =
        [⟨.identifier, "ab", .ofSpan ⟨0, 2⟩⟩, ⟨.text, "$", .ofSpan ⟨2, 3⟩⟩,
          ⟨.keywordOperator, "-", .ofSpan ⟨3, 4⟩⟩, ⟨.text, "=", .ofSpan ⟨4, 5⟩⟩,
          ⟨.numeric, "7", .ofSpan ⟨5, 6⟩⟩, ⟨.text, "é", .ofSpan ⟨6, 8⟩⟩] ∧
      Promise .identifier "ab" ['$', '-', '=', '7', 'é'] ∧
      Promise .numeric "7" ['é'] := by
  obtain ⟨table, htable, hpromise⟩ := tokens_keep_promises
  have heq : table = builtTable := by
    rw [table_eq] at htable
    exact (Except.ok.inj htable).symm
  subst heq
  have htokens : (Scanner.line ⟨builtTable, vocabulary, ⟨none⟩⟩ "ab$-=7é".toList ⟨0⟩).tokens =
      [⟨.identifier, "ab", .ofSpan ⟨0, 2⟩⟩, ⟨.text, "$", .ofSpan ⟨2, 3⟩⟩,
        ⟨.keywordOperator, "-", .ofSpan ⟨3, 4⟩⟩, ⟨.text, "=", .ofSpan ⟨4, 5⟩⟩,
        ⟨.numeric, "7", .ofSpan ⟨5, 6⟩⟩, ⟨.text, "é", .ofSpan ⟨6, 8⟩⟩] := by
    decide +kernel
  refine ⟨builtTable, htable, htokens, ?_, ?_⟩
  · exact (hpromise ⟨none⟩ _ ⟨0⟩ [] _ _ htokens).2
  · exact (hpromise ⟨none⟩ _ ⟨0⟩ [_, _, _, _] _ [_] htokens).2

end CellTail

end Highlighter
