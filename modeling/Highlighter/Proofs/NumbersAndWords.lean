import Highlighter.Proofs.CellTailShapes
import Highlighter.Proofs.DirectReading
import Mathlib.Data.List.DropRight

/-!
# Numbers and words

Both patterns end at a word edge behind a greedy run, so what they match is
told by the whole run at the cursor.  Digits are followed by a word edge only
at the end of their run.  A run of word characters and dollar signs has its
last word edge where its trailing dollar signs begin, and the greedy word
finds this one.
-/

namespace Highlighter

namespace CellTail

/-! ## What stands at the head of a text -/

def digitsAhead (text : List Char) : List Char :=
  text.takeWhile Char.isDigit

/-- Zero or digits that do not begin with it, and no letter or underscore
behind them. -/
def startsNumber (text : List Char) : Bool :=
  (digitsAhead text == ['0'] || (digitsAhead text).head?.any (· != '0')) &&
    !(text.dropWhile Char.isDigit).head?.any fun c => c.isAlpha || c == '_'

def isWordPart (c : Char) : Bool :=
  c.isAlpha || c.isDigit || c == '_' || c == '$'

def runAhead (text : List Char) : List Char :=
  text.takeWhile isWordPart

/-- A run that does not begin with a digit and is more than dollar signs. -/
def startsWord (text : List Char) : Bool :=
  !(runAhead text).head?.any Char.isDigit && (runAhead text).any (· != '$')

def wordAhead (text : List Char) : List Char :=
  (runAhead text).rdropWhile (· == '$')

/-- The number or word at the head of a text that begins at byte `pos`, as a
match in `state` of two rules from place `index` on. -/
def constantMatch? (state : StateId) (index pos : Nat) (text : List Char) : Option RuleMatch :=
  if startsNumber text then
    some ⟨.whole .numeric, ⟨pos, pos + Text.byteLength (digitsAhead text)⟩, state, index⟩
  else if startsWord text then
    some ⟨.classify, ⟨pos, pos + Text.byteLength (wordAhead text)⟩, state, index + 1⟩
  else
    none

/-! ## Numbers -/

section Numbers

variable {cursor : Cursor} {thread : Thread}

theorem isNumeral_digitsAhead (text : List Char) :
    IsNumeral (digitsAhead text) ↔
      (digitsAhead text == ['0'] || (digitsAhead text).head?.any (· != '0')) = true := by
  have hdigits : ∀ c ∈ digitsAhead text, c.isDigit = true :=
    fun c hc => List.mem_takeWhile_imp hc
  cases hrun : digitsAhead text with
  | nil => simp [IsNumeral]
  | cons c run =>
      rw [hrun] at hdigits
      rw [IsNumeral, and_iff_right (List.cons_ne_nil c run), and_iff_right hdigits]
      simp

theorem startsNumber_iff (cursor : Cursor) :
    startsNumber cursor.rest = true ↔
      IsNumeral (digitsAhead cursor.rest) ∧
        (Assertion.wordEdge .ascii).holds (cursor.after (digitsAhead cursor.rest)) = true := by
  rw [startsNumber, Bool.and_eq_true, ← isNumeral_digitsAhead]
  apply and_congr_right
  intro hnumeral
  rw [hnumeral.wordEdge_iff, Cursor.rest_after, digitsAhead, drop_length_takeWhile]
  cases hnext : (cursor.rest.dropWhile Char.isDigit).head? with
  | none => simp
  | some c => simp [Text.isAsciiWord, Char.isAlphanum, eq_false_of_head?_dropWhile hnext]

theorem takes_integerRule (htakes : integerRule.Takes cursor thread) :
    startsNumber cursor.rest = true ∧ thread.cursor = cursor.after (digitsAhead cursor.rest) := by
  obtain ⟨text, htext, ⟨hnumeral, hedge⟩, hplace⟩ :=
    (integerRule_accepts (.start cursor) _).mp (Plan.matchAt?_mem_ways htakes.1)
  obtain ⟨behind, hrest⟩ : ∃ behind, text ++ behind = cursor.rest := htext
  have hstop := (hnumeral.wordEdge_iff cursor).mp hedge
  rw [Cursor.rest_after, ← hrest, List.drop_left] at hstop
  have hdigits : digitsAhead cursor.rest = text := by
    rw [← hrest]
    apply takeWhile_append_eq hnumeral.2.1
    intro c hc
    by_contra hdigit
    rw [Bool.not_eq_false] at hdigit
    have hword := isAsciiWord_of_isDigit hdigit
    rw [hstop c hc] at hword
    exact absurd hword Bool.false_ne_true
  rw [startsNumber_iff, hdigits]
  exact ⟨⟨hnumeral, hedge⟩, congrArg Place.cursor hplace⟩

theorem exists_takes_integerRule (hnumber : startsNumber cursor.rest = true) :
    ∃ thread, integerRule.Takes cursor thread := by
  by_contra hnone
  apply Rule.not_accepted rfl integerRule_accepts _ (not_exists.mp hnone)
    (List.takeWhile_prefix Char.isDigit)
  · exact (startsNumber_iff cursor).mp hnumber
  · intro hempty
    exact hempty.1.1 rfl

end Numbers

/-! ## Words -/

section Words

variable {cursor : Cursor} {thread : Thread}

theorem contains_wordParts_eq (c : Char) : wordParts.contains c = isWordPart c := by
  rw [contains_wordParts, isIdentifierShape.isStart, isWordPart, Bool.eq_iff_iff]
  simp only [Bool.or_eq_true]
  tauto

theorem contains_wordStarts_of_isWordPart {c : Char} (hpart : isWordPart c = true) :
    wordStarts.contains c = !c.isDigit := by
  have hunderscore : c = '_' ↔ c.toNat = 95 := Char.toNat_inj.symm
  have hdollar : c = '$' ↔ c.toNat = 36 := Char.toNat_inj.symm
  rw [contains_wordStarts, Bool.eq_iff_iff, Bool.not_eq_true', ← Bool.not_eq_true]
  simp [isWordPart, isIdentifierShape.isStart, isAlpha_iff_toNat, Char.isDigit_iff_toNat,
    -Bool.not_eq_true, hunderscore, hdollar] at hpart ⊢
  omega

theorem isAsciiWord_of_isWordPart {c : Char} (hpart : isWordPart c = true) (hc : c ≠ '$') :
    Text.isAsciiWord c = true := by
  simpa [isWordPart, hc, Text.isAsciiWord, Char.isAlphanum] using hpart

theorem not_isAsciiWord_of_not_isWordPart {c : Char} (hpart : isWordPart c = false) :
    Text.isAsciiWord c = false := by
  by_contra hword
  rw [Bool.not_eq_false] at hword
  have hcontains := contains_wordParts_of_isAsciiWord hword
  rw [contains_wordParts_eq, hpart] at hcontains
  exact absurd hcontains Bool.false_ne_true

/-- What stands behind the word: its dollar signs, and what ends the run. -/
theorem exists_behind_wordAhead (text : List Char) :
    ∃ dollars,
      text = wordAhead text ++ (dollars ++ text.dropWhile isWordPart) ∧
      runAhead text = wordAhead text ++ dollars ∧
      ∀ c ∈ dollars, c = '$' := by
  have hrun : wordAhead text ++ (runAhead text).rtakeWhile (· == '$') = runAhead text :=
    List.rdropWhile_append_rtakeWhile
  refine ⟨(runAhead text).rtakeWhile (· == '$'), ?_, hrun.symm, ?_⟩
  · rw [← List.append_assoc, hrun, runAhead, List.takeWhile_append_dropWhile]
  · intro c hc
    have hdollar := List.mem_rtakeWhile_imp hc
    exact eq_of_beq hdollar

theorem isWordPart_of_mem_wordAhead {text : List Char} {c : Char} (hc : c ∈ wordAhead text) :
    isWordPart c = true := by
  have hmem : c ∈ runAhead text := (List.rdropWhile_prefix _ _).subset hc
  exact List.mem_takeWhile_imp hmem

theorem wordAhead_begins (text : List Char) : wordAhead text <+: text := by
  obtain ⟨dollars, htext, _⟩ := exists_behind_wordAhead text
  exact ⟨_, htext.symm⟩

theorem wordEdge_wordAhead (cursor : Cursor) (hne : wordAhead cursor.rest ≠ []) :
    (Assertion.wordEdge .ascii).holds (cursor.after (wordAhead cursor.rest)) = true := by
  obtain ⟨dollars, hrest, _, hdollars⟩ := exists_behind_wordAhead cursor.rest
  have hlast : (wordAhead cursor.rest).getLast hne ≠ '$' := by
    intro hdollar
    exact List.rdropWhile_last_not (· == '$') (runAhead cursor.rest) hne (beq_iff_eq.mpr hdollar)
  have hpart := isWordPart_of_mem_wordAhead (List.getLast_mem hne)
  apply (wordEdge_behind_word (List.getLast?_eq_getLast_of_ne_nil hne)
    (isAsciiWord_of_isWordPart hpart hlast)).mpr
  intro d hd
  have hbehind : cursor.rest.drop (wordAhead cursor.rest).length =
      dollars ++ cursor.rest.dropWhile isWordPart := by
    generalize wordAhead cursor.rest = word at hrest
    generalize cursor.rest.dropWhile isWordPart = behind at hrest
    rw [hrest, List.drop_left]
  rw [Cursor.rest_after, hbehind] at hd
  cases dollars with
  | nil =>
      rw [List.nil_append] at hd
      exact not_isAsciiWord_of_not_isWordPart (eq_false_of_head?_dropWhile hd)
  | cons e dollars =>
      obtain rfl : e = d := by simpa using hd
      rw [hdollars e List.mem_cons_self]
      decide

theorem startsWord_iff (text : List Char) :
    startsWord text = true ↔
      ∃ c run, wordAhead text = c :: run ∧ wordStarts.contains c = true := by
  cases hword : wordAhead text with
  | nil =>
      have hdollars := (List.rdropWhile_eq_nil_iff (p := (· == '$'))).mp hword
      have hnone : (runAhead text).any (· != '$') = false := by
        rw [List.any_eq_false]
        intro c hc
        simpa using hdollars c hc
      simp [startsWord, hnone]
  | cons c run =>
      obtain ⟨dollars, _, hrun, _⟩ := exists_behind_wordAhead text
      have hpart : isWordPart c = true :=
        isWordPart_of_mem_wordAhead (hword ▸ List.mem_cons_self)
      have hsome : (runAhead text).any (· != '$') = true := by
        by_contra hnone
        rw [Bool.not_eq_true, List.any_eq_false] at hnone
        have hnil : wordAhead text = [] :=
          List.rdropWhile_eq_nil_iff.mpr fun d hd => by simpa using hnone d hd
        rw [hnil] at hword
        exact absurd hword (List.cons_ne_nil c run).symm
      rw [startsWord, hsome, hrun, hword]
      simp [contains_wordStarts_of_isWordPart hpart]

theorem wordRule_accepts :
    wordRule.plan.Accepts fun cursor text =>
      (∃ c run,
        text = c :: run ∧
        wordStarts.contains c = true ∧
        ∀ d ∈ run, wordParts.contains d = true) ∧
      (Assertion.wordEdge .ascii).holds (cursor.after text) = true := by
  have haccepts := (Plan.one_accepts wordStarts).seq
    ((Plan.star_one_accepts wordParts).seq (Plan.look_accepts (.wordEdge .ascii)))
  refine haccepts.congr ?_
  intro cursor text
  constructor
  · rintro ⟨_, _, rfl, ⟨c, rfl, hc⟩, run, _, rfl, hrun, rfl, hedge⟩
    rw [List.append_nil, List.singleton_append]
    exact ⟨⟨c, run, rfl, hc, hrun⟩, hedge⟩
  · rintro ⟨⟨c, run, rfl, hc, hrun⟩, hedge⟩
    exact ⟨[c], run, rfl, ⟨c, rfl, hc⟩, run, [], (List.append_nil run).symm, hrun, rfl, hedge⟩

theorem exists_takes_wordRule (hword : startsWord cursor.rest = true) :
    ∃ thread, wordRule.Takes cursor thread := by
  obtain ⟨c, run, hahead, hc⟩ := (startsWord_iff cursor.rest).mp hword
  have hparts : ∀ d ∈ run, wordParts.contains d = true := by
    intro d hd
    rw [contains_wordParts_eq]
    apply isWordPart_of_mem_wordAhead
    rw [hahead]
    exact List.mem_cons_of_mem c hd
  have hedge := wordEdge_wordAhead cursor (hahead ▸ List.cons_ne_nil c run)
  by_contra hnone
  apply Rule.not_accepted rfl wordRule_accepts _ (not_exists.mp hnone)
    (wordAhead_begins cursor.rest)
  · exact ⟨⟨c, run, hahead, hc, hparts⟩, hedge⟩
  · rintro ⟨⟨c, run, hnil, _⟩, _⟩
    exact absurd hnil (List.cons_ne_nil c run).symm

theorem takes_wordRule (htakes : wordRule.Takes cursor thread) :
    startsWord cursor.rest = true ∧ thread.cursor = cursor.after (wordAhead cursor.rest) := by
  obtain ⟨c, run, htext, hc, hrun, hedge, hplace, hlongest⟩ := Plan.matchAt?_longest htakes.1
  have hlast := getLast?_ne_dollar htext hrun hedge hlongest
  obtain ⟨dollars, _, hahead, hdollars⟩ := exists_behind_wordAhead cursor.rest
  have hinside : c :: run <+: wordAhead cursor.rest ++ dollars := by
    rw [← hahead]
    apply prefix_takeWhile_iff.mpr
    refine ⟨htext, List.forall_mem_cons.mpr ⟨?_, ?_⟩⟩
    · rw [← contains_wordParts_eq, contains_wordParts, ← contains_wordStarts, hc, Bool.true_or]
    · intro d hd
      rw [← contains_wordParts_eq]
      exact hrun d hd
  have hword : wordAhead cursor.rest = c :: run := by
    rcases List.prefix_or_prefix_of_prefix hinside (List.prefix_append _ _) with
      ⟨more, hmore⟩ | ⟨more, hmore⟩
    · -- The whole word would have been taken.
      have hparts : ∀ d ∈ run ++ more, wordParts.contains d = true := by
        intro d hd
        rw [contains_wordParts_eq]
        apply isWordPart_of_mem_wordAhead
        rw [← hmore]
        exact List.mem_cons_of_mem c hd
      have hprefix := wordAhead_begins cursor.rest
      have hfurther := wordEdge_wordAhead cursor (by simp [← hmore])
      rw [← hmore] at hprefix hfurther
      have hle := hlongest (run ++ more) hprefix hparts hfurther
      rw [List.length_append] at hle
      have hnil : more = [] := List.length_eq_zero_iff.mp (by omega)
      rw [← hmore, hnil, List.append_nil]
    · -- Behind the word only dollar signs could have been taken.
      rw [← hmore] at hinside hlast
      have hbegins := (List.prefix_append_right_inj _).mp hinside
      have hnil : more = [] := by
        by_contra hne
        apply hlast
        rw [List.getLast?_append_of_ne_nil _ hne, List.getLast?_eq_getLast_of_ne_nil hne,
          hdollars _ (hbegins.subset (List.getLast_mem hne))]
      rw [← hmore, hnil, List.append_nil]
  rw [startsWord_iff, hword]
  exact ⟨⟨c, run, rfl, hc⟩, congrArg Place.cursor hplace⟩

end Words

/-! ## Matches -/

theorem firstMatch?_constantRules (state : StateId) (index : Nat) (cursor : Cursor) :
    (firstMatch? state cursor index constantRules).map (·.1) =
      constantMatch? state index cursor.offset cursor.rest := by
  unfold constantMatch?
  by_cases hnumber : startsNumber cursor.rest = true
  · obtain ⟨thread, htakes⟩ := exists_takes_integerRule hnumber
    obtain ⟨_, hcursor⟩ := takes_integerRule htakes
    rw [if_pos hnumber, constantRules, firstMatch?_of_wins (.here htakes), Rule.report, hcursor,
      Cursor.offset_after]
    rfl
  · have hpassed : ∀ thread, ¬ integerRule.Takes cursor thread :=
      fun thread htakes => hnumber (takes_integerRule htakes).1
    rw [if_neg hnumber, constantRules, firstMatch?_of_passed hpassed]
    by_cases hword : startsWord cursor.rest = true
    · obtain ⟨thread, htakes⟩ := exists_takes_wordRule hword
      obtain ⟨_, hcursor⟩ := takes_wordRule htakes
      rw [if_pos hword, firstMatch?_of_wins (.here htakes), Rule.report, hcursor,
        Cursor.offset_after]
      rfl
    · have hpassed' : ∀ thread, ¬ wordRule.Takes cursor thread :=
        fun thread htakes => hword (takes_wordRule htakes).1
      rw [if_neg hword, firstMatch?_of_passed hpassed']
      rfl

theorem constantMatch?_shift (state state' : StateId) (pos shift : Nat) (text : List Char) :
    constantMatch? state' shift pos text =
      (constantMatch? state 0 pos text).map fun m =>
        { m with next := state', rule := m.rule + shift } := by
  unfold constantMatch?
  split
  · simp
  · split <;> simp [Nat.add_comm]

theorem firstMatch?_eq_none {cursor : Cursor} {rules : List Rule}
    (hfail : ∀ rule ∈ rules, ∀ thread, ¬ rule.Takes cursor thread) (state : StateId)
    (index : Nat) : firstMatch? state cursor index rules = none := by
  induction rules generalizing index with
  | nil => rfl
  | cons rule rules ih =>
      rw [List.forall_mem_cons] at hfail
      rw [firstMatch?_of_passed hfail.1]
      exact ih hfail.2 (index + 1)

theorem matchAt?_eq_of_at? {line : List Char} {pos : Nat} {cursor : Cursor}
    (hcursor : Cursor.at? line pos = some cursor) (table : RuleTable) (state : StateId) :
    table.matchAt? state line pos = (table.matchFrom? state cursor).map (·.1) := by
  rw [RuleTable.matchAt?, hcursor, Option.bind_some]

/-- What the rules for numbers and words match is told by the runs at the
cursor, and the start state comes to the same where its other rules fail. -/
theorem numbers_and_words_match_runs :
    ∃ table start constants front,
      CellTail.table = .ok table ∧
      table.stateId? startName = some start ∧
      table.stateId? constantsState = some constants ∧
      table.rules start = front ++ table.rules constants ∧
      front.length = 9 ∧
      ∀ before rest : List Char, rest ≠ [] →
        table.matchAt? constants (before ++ rest) (Text.byteLength before) =
          constantMatch? constants 0 (Text.byteLength before) rest ∧
        ∀ cursor, Cursor.at? (before ++ rest) (Text.byteLength before) = some cursor →
          (∀ rule ∈ front, ∀ thread, ¬ rule.Takes cursor thread) →
          table.matchAt? start (before ++ rest) (Text.byteLength before) =
            (table.matchAt? constants (before ++ rest) (Text.byteLength before)).map
              fun m => { m with next := start, rule := m.rule + 9 } := by
  refine ⟨builtTable, ⟨0⟩, ⟨2⟩, startRules.take 9, table_eq, by decide, by decide, rfl, rfl, ?_⟩
  intro before rest hrest
  obtain ⟨c, cs, rfl⟩ := List.exists_cons_of_ne_nil hrest
  have hcursor := Cursor.at?_eq_some_iff.mpr ⟨before, c, cs, rfl, rfl, rfl⟩
  have hconstants :
      builtTable.matchAt? ⟨2⟩ (before ++ c :: cs) (Text.byteLength before) =
        constantMatch? ⟨2⟩ 0 (Text.byteLength before) (c :: cs) := by
    rw [matchAt?_eq_of_at? hcursor]
    exact firstMatch?_constantRules ⟨2⟩ 0 _
  refine ⟨hconstants, ?_⟩
  intro cursor hat hfail
  obtain rfl := Option.some.inj (hcursor.symm.trans hat)
  have hpassed := firstMatch?_eq_none hfail ⟨0⟩ 0
  have hstart : builtTable.rules ⟨0⟩ = startRules.take 9 ++ constantRules := rfl
  rw [hconstants, ← constantMatch?_shift, matchAt?_eq_of_at? hcursor, RuleTable.matchFrom?, hstart,
    firstMatch?_append, hpassed, Option.none_or]
  exact firstMatch?_constantRules ⟨0⟩ 9 _

/-- A word with a dollar sign inside and two behind it, between letters that
are not of ASCII. -/
theorem numbers_and_words_match_runs_dollars :
    builtTable.matchAt? ⟨2⟩ "éa$1$$é".toList 2 = some ⟨.classify, ⟨2, 5⟩, ⟨2⟩, 1⟩ ∧
    builtTable.matchAt? ⟨0⟩ "éa$1$$é".toList 2 = some ⟨.classify, ⟨2, 5⟩, ⟨0⟩, 10⟩ := by
  obtain ⟨table, start, constants, front, htable, hstart, hconstants, hrules, hlength, hmatch⟩ :=
    numbers_and_words_match_runs
  obtain rfl : builtTable = table := Except.ok.inj (table_eq.symm.trans htable)
  obtain rfl : ⟨0⟩ = start := Option.some.inj hstart
  obtain rfl : ⟨2⟩ = constants := Option.some.inj hconstants
  obtain rfl : startRules.take 9 = front := by
    have hfront := congrArg (List.take 9) hrules
    rwa [List.take_left' hlength] at hfront
  obtain ⟨hword, hagree⟩ := hmatch ['é'] "a$1$$é".toList (by decide)
  have hfail : ∀ rule ∈ startRules.take 9,
      (rule.plan.matchAt? ⟨2, some 'é', "a$1$$é".toList⟩).isNone = true := by
    decide +kernel
  have hstartWord := hagree ⟨2, some 'é', "a$1$$é".toList⟩ (by decide) (by
    intro rule hrule thread htakes
    have hnone := hfail rule hrule
    rw [htakes.1] at hnone
    exact absurd hnone Bool.false_ne_true)
  have hresult : constantMatch? ⟨2⟩ 0 2 "a$1$$é".toList =
      some ⟨.classify, ⟨2, 5⟩, ⟨2⟩, 1⟩ := by decide
  have hline : "éa$1$$é".toList = ['é'] ++ "a$1$$é".toList := by decide
  have hpos : Text.byteLength ['é'] = 2 := by decide
  rw [← hline, hpos, hresult] at hword
  rw [← hline, hpos, hword] at hstartWord
  exact ⟨hword, hstartWord⟩

end CellTail

end Highlighter
