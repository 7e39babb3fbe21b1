import Highlighter.Proofs.CellTailTable
import Highlighter.Proofs.FollowedPieces
import Highlighter.Proofs.MarkedRuns
import Highlighter.Proofs.TokenCap
import Mathlib.Tactic

/-!
# Where a definition is split

Behind the keyword of a definition stand blanks and then a name, but two blanks
are also among the characters of names: the ogham space mark and the
ideographic space.  The blanks take as much as leaves a name behind them.  So
they are the whole run of blanks where a character of names follows it, and
where none does, the last of these two in the run is taken for the name.

A name takes all that its characters allow, hence these two as well.
-/

namespace Highlighter.CellTail

/-- The blanks that are characters of names. -/
def nameBlanks : List Char :=
  ['\u1680', '\u3000']

theorem contains_nameChars_iff_of_isBlank {c : Char} (hblank : Text.isBlank c = true) :
    nameChars.contains c = true ↔ c ∈ nameBlanks := by
  have hcodes : ∀ range ∈ Text.blankRanges, ∀ n ∈ List.range' range.1 (range.2 + 1 - range.1),
      nameChars.ranges.containsCode n = true ↔ n = 0x1680 ∨ n = 0x3000 := by
    decide +kernel
  obtain ⟨range, hrange, hlo, hhi⟩ := Text.RangeTable.exists_range_of_containsCode hblank
  have hmem : c.toNat ∈ List.range' range.1 (range.2 + 1 - range.1) := by
    rw [List.mem_range'_1]
    omega
  have hogham : c = '\u1680' ↔ c.toNat = 0x1680 := Char.toNat_inj.symm
  have hideographic : c = '\u3000' ↔ c.toNat = 0x3000 := Char.toNat_inj.symm
  rw [nameBlanks, List.mem_cons, List.mem_singleton, hogham, hideographic, CharSet.contains,
    Text.RangeTable.contains]
  exact hcodes range hrange _ hmem

/-! ## The parts of a definition -/

/-- At most one of the keywords stands at a place. -/
theorem ways_keyword (place : Place) :
    (Plan.anyWord "def" ["class"]).ways place = [] ∨
    ∃ keyword,
      keyword <+: place.cursor.rest ∧
      String.ofList keyword ∈ ["def", "class"] ∧
      (Plan.anyWord "def" ["class"]).ways place = [place.after keyword] := by
  have hways : (Plan.anyWord "def" ["class"]).ways place =
      (if "def".toList <+: place.cursor.rest then [place.after "def".toList] else []) ++
      (if "class".toList <+: place.cursor.rest then [place.after "class".toList] else []) := by
    rw [← Plan.ways_seqAll_chars, ← Plan.ways_seqAll_chars]
    rfl
  rw [hways]
  by_cases hdef : "def".toList <+: place.cursor.rest
  · have hclass : ¬ "class".toList <+: place.cursor.rest := by
      intro hclass
      have hbegins := List.prefix_of_prefix_length_le hdef hclass (by decide)
      exact absurd hbegins (by decide)
    refine Or.inr ⟨_, hdef, by decide, ?_⟩
    rw [if_pos hdef, if_neg hclass, List.append_nil]
  · by_cases hclass : "class".toList <+: place.cursor.rest
    · refine Or.inr ⟨_, hclass, by decide, ?_⟩
      rw [if_neg hdef, if_pos hclass, List.nil_append]
    · rw [if_neg hdef, if_neg hclass]
      exact Or.inl rfl

/-- The parts of a definition that the rule matches at the cursor. -/
structure Header (cursor : Cursor) (thread : Thread) (keyword blanks name : List Char) : Prop where
  keyword_begins : keyword <+: cursor.rest
  blanks_begin : blanks <+: (cursor.after keyword).rest
  name_begins : name <+: ((cursor.after keyword).after blanks).rest
  keyword_mem : String.ofList keyword ∈ ["def", "class"]
  blanks_run : blanks ≠ [] ∧ ∀ c ∈ blanks, CharSet.blank.contains c = true
  name_run : name ≠ [] ∧ ∀ c ∈ name, nameChars.contains c = true
  behind : thread.cursor = ((cursor.after keyword).after blanks).after name
  groups : thread.groups =
    [(3, ⟨((cursor.after keyword).after blanks).offset, thread.cursor.offset⟩),
      (2, ⟨(cursor.after keyword).offset, ((cursor.after keyword).after blanks).offset⟩),
      (1, ⟨cursor.offset, (cursor.after keyword).offset⟩)]

/-- The blanks of a definition are as long as a name behind them allows, and
the name is as long as its characters allow. -/
structure Longest (cursor : Cursor) (keyword blanks name : List Char) : Prop where
  name_eq : name = ((cursor.after keyword).after blanks).rest.takeWhile nameChars.contains
  length_le : ∀ longer, longer <+: (cursor.after keyword).rest.takeWhile Text.isBlank →
    ((cursor.after keyword).after longer).rest.takeWhile nameChars.contains ≠ [] →
    longer.length ≤ blanks.length

theorem exists_longest_header {cursor : Cursor} {thread : Thread}
    (htakes : definitionRule.Takes cursor thread) :
    ∃ keyword blanks name,
      Header cursor thread keyword blanks name ∧ Longest cursor keyword blanks name := by
  have hplan : definitionRule.plan =
      .seq (.group 1 (.anyWord "def" ["class"]))
        (.seq (.markedRun 2 .blank 0) (.markedRun 3 nameChars 1)) := rfl
  have hrun := Plan.matchAt?_eq_some_iff.mp htakes.1
  have hunmarked : (Plan.group 1 (.anyWord "def" ["class"])).unmarked = true := by decide
  rw [hplan, Plan.run, Plan.run_tries hunmarked, Plan.ways] at hrun
  rcases ways_keyword (Thread.start cursor).place with hnone | ⟨keyword, hkeyword, hmem, hways⟩
  · rw [hnone] at hrun
    simp [tryAll] at hrun
  · rw [hways, List.map_singleton, tryAll_singleton] at hrun
    obtain ⟨blanks, name, hblanks, hbegins, hname, hall, hplace, hlongest⟩ :=
      Plan.head?_ways_markedRuns (Plan.run_markedRuns_eq_ok Nat.one_ne_zero hrun)
    have hbegins' := prefix_takeWhile_iff.mp hbegins
    have hname' := prefix_takeWhile_iff.mp ⟨[], (List.append_nil name).trans hall⟩
    have hbehind : thread.cursor = ((cursor.after keyword).after blanks).after name :=
      congrArg Place.cursor hplace
    refine ⟨keyword, blanks, name, ⟨hkeyword, hbegins'.1, hname'.1, hmem, ⟨hblanks, hbegins'.2⟩,
      ⟨hname, hname'.2⟩, hbehind, ?_⟩, hall, hlongest⟩
    rw [hbehind]
    exact congrArg Place.groups hplace

namespace Header

variable {cursor : Cursor} {thread : Thread} {keyword blanks name : List Char}
  (hheader : Header cursor thread keyword blanks name)

include hheader

theorem groupSpans_eq :
    groupSpans thread 1 [.keyword, .text, .functionName] =
      [(.keyword, ⟨cursor.offset, (cursor.after keyword).offset⟩),
        (.text, ⟨(cursor.after keyword).offset, ((cursor.after keyword).after blanks).offset⟩),
        (.functionName,
          ⟨((cursor.after keyword).after blanks).offset, thread.cursor.offset⟩)] := by
  simp [groupSpans, Thread.group?, hheader.groups, List.lookup_cons]

theorem cuts_eq (state : StateId) (place : Nat) :
    (definitionRule.report state cursor thread place).cuts =
      [(.label .keyword, (cursor.after keyword).offset),
        (.label .text, ((cursor.after keyword).after blanks).offset),
        (.label .functionName, (((cursor.after keyword).after blanks).after name).offset)] := by
  have hkeyword : keyword ≠ [] := by
    rintro rfl
    exact absurd hheader.keyword_mem (by decide)
  have hfirst := Text.byteLength_pos hkeyword
  have hsecond := Text.byteLength_pos hheader.blanks_run.1
  have hthird := Text.byteLength_pos hheader.name_run.1
  simp only [RuleMatch.cuts, Rule.report, definitionRule, Labelling.ofMatch,
    hheader.groupSpans_eq]
  rw [groupCuts_abutting, groupCuts_abutting, groupCuts_abutting, groupCuts, if_neg,
    hheader.behind]
  all_goals simp only [hheader.behind, Cursor.offset_after]
  all_goals omega

/-- A definition is cut into its keyword, the blanks behind it and the name. -/
theorem pieces (state : StateId) (place : Nat) :
    cutPieces cursor.offset cursor.rest (definitionRule.report state cursor thread place).cuts =
      [cursor.piece (.label .keyword) keyword,
        (cursor.after keyword).piece (.label .text) blanks,
        ((cursor.after keyword).after blanks).piece (.label .functionName) name] := by
  rw [hheader.cuts_eq, cutPieces_after hheader.keyword_begins,
    cutPieces_after hheader.blanks_begin, cutPieces_after hheader.name_begins]
  rfl

end Header

/-! ## The split -/

/-- How the blanks and the name of a definition share what stands behind its
keyword. -/
inductive Split : List Char → List Char → List Char → Prop
  /-- The blanks end where no blank follows. -/
  | behind {blanks name after : List Char} :
      (blanks ++ (name ++ after)).takeWhile Text.isBlank = blanks →
      Split blanks name after
  /-- No name follows the run of blanks, so its last blank that is a character
  of names is the name. -/
  | inside {blanks more after : List Char} {c : Char} :
      c ∈ nameBlanks →
      (∀ d ∈ more, Text.isBlank d = true ∧ d ∉ nameBlanks) →
      (∀ d, after.head? = some d → Text.isBlank d = false ∧ nameChars.contains d = false) →
      Split blanks [c] (more ++ after)

theorem split_of_longest {blanks name after : List Char}
    (hblanks : ∀ c ∈ blanks, Text.isBlank c = true)
    (hne : name ≠ [])
    (hname : name = (name ++ after).takeWhile nameChars.contains)
    (hlongest : ∀ longer, longer <+: (blanks ++ (name ++ after)).takeWhile Text.isBlank →
      ((blanks ++ (name ++ after)).drop longer.length).takeWhile nameChars.contains ≠ [] →
      longer.length ≤ blanks.length) :
    Split blanks name after := by
  rw [List.takeWhile_append_of_pos hblanks] at hlongest
  have hrun := List.takeWhile_append_dropWhile (p := Text.isBlank) (l := name ++ after)
  cases htail : (name ++ after).takeWhile Text.isBlank with
  | nil =>
      apply Split.behind
      rw [List.takeWhile_append_of_pos hblanks, htail, List.append_nil]
  | cons c more =>
      have hend : ∀ d, ((name ++ after).dropWhile Text.isBlank).head? = some d →
          Text.isBlank d = false := fun d => eq_false_of_head?_dropWhile
      generalize (name ++ after).dropWhile Text.isBlank = behind at hrun hend
      rw [htail] at hrun hlongest
      -- A name behind longer blanks would have been found before this one.
      have hnone : ∀ front back, front <+: more → more ++ behind = front ++ back →
          back.takeWhile nameChars.contains = [] := by
        intro front back hfront hback
        by_contra hleaves
        have hlonger : blanks ++ c :: front <+: blanks ++ c :: more := by
          simpa using hfront
        have hdrop : (blanks ++ (name ++ after)).drop (blanks ++ c :: front).length = back := by
          rw [← hrun, List.cons_append, hback, ← List.cons_append, ← List.append_assoc,
            List.drop_left]
        have hle := hlongest _ hlonger (by rwa [hdrop])
        simp at hle
      have hc : Text.isBlank c = true := List.mem_takeWhile_imp (htail ▸ List.mem_cons_self)
      rw [← hrun, List.cons_append] at hname
      have hset : nameChars.contains c = true := by
        by_contra hset
        rw [List.takeWhile_cons_of_neg hset] at hname
        exact hne hname
      rw [List.takeWhile_cons_of_pos hset, hnone [] (more ++ behind) List.nil_prefix rfl]
        at hname
      subst hname
      obtain rfl : more ++ behind = after := (List.cons.inj hrun).2
      refine Split.inside ((contains_nameChars_iff_of_isBlank hc).mp hset) ?_ ?_
      · intro d hd
        have hblank : Text.isBlank d = true :=
          List.mem_takeWhile_imp (htail ▸ List.mem_cons_of_mem c hd)
        refine ⟨hblank, ?_⟩
        intro hmem
        obtain ⟨front, back, rfl⟩ := List.append_of_mem hd
        have hstop := hnone front (d :: (back ++ behind)) (List.prefix_append _ _) (by simp)
        simp [(contains_nameChars_iff_of_isBlank hblank).mpr hmem] at hstop
      · intro d hd
        refine ⟨hend d hd, ?_⟩
        have hstop := hnone more behind List.prefix_rfl rfl
        obtain ⟨back, rfl⟩ := List.head?_eq_some_iff.mp hd
        simpa using hstop

theorem exists_split_header {cursor : Cursor} {thread : Thread}
    (htakes : definitionRule.Takes cursor thread) :
    ∃ keyword blanks name after,
      cursor.rest = keyword ++ (blanks ++ (name ++ after)) ∧
      Header cursor thread keyword blanks name ∧
      (name ++ after).takeWhile nameChars.contains = name ∧
      Split blanks name after := by
  obtain ⟨keyword, blanks, name, hheader, hname, hlongest⟩ := exists_longest_header htakes
  have hrest := Cursor.rest_eq_append hheader.keyword_begins
  have hblanks := Cursor.rest_eq_append hheader.blanks_begin
  rw [Cursor.rest_eq_append hheader.name_begins] at hname hblanks
  rw [hblanks] at hrest hlongest
  refine ⟨keyword, blanks, name, _, hrest, hheader, hname.symm, ?_⟩
  refine split_of_longest hheader.blanks_run.2 hheader.name_run.1 hname ?_
  intro longer hlonger hleaves
  refine hlongest longer hlonger ?_
  rwa [Cursor.rest_after, hblanks]

/-- A definition is split at its blanks exactly if no blank is in its name. -/
theorem Split.at_blanks_iff {blanks name after : List Char} (hsplit : Split blanks name after)
    (hname : ∀ c ∈ name, nameChars.contains c = true) :
    ((blanks ++ (name ++ after)).takeWhile Text.isBlank = blanks ∧
      ∀ c ∈ name, Text.isBlank c = false) ↔
      ∀ c ∈ name, c ∉ nameBlanks := by
  have hblank : ∀ c ∈ nameBlanks, Text.isBlank c = true :=
    List.forall_mem_cons.mpr ⟨rfl, List.forall_mem_singleton.mpr rfl⟩
  constructor
  · rintro ⟨_, hfree⟩ c hc hmem
    exact absurd ((hfree c hc).symm.trans (hblank c hmem)) Bool.false_ne_true
  · intro hfree
    cases hsplit with
    | behind hall =>
        refine ⟨hall, ?_⟩
        intro c hc
        rw [← Bool.not_eq_true]
        intro hblank'
        exact hfree c hc ((contains_nameChars_iff_of_isBlank hblank').mp (hname c hc))
    | inside hmem => exact absurd hmem (hfree _ List.mem_cons_self)

/-! ## Tokens -/

/-- The tokens of a definition that begins at byte `pos`. -/
def headerTokens (pos : Nat) (keyword blanks name : List Char) : List Token :=
  let middle := pos + Text.byteLength keyword
  let last := middle + Text.byteLength blanks
  [⟨.keyword, .ofList keyword, .ofSpan ⟨pos, middle⟩⟩,
    ⟨.text, .ofList blanks, .ofSpan ⟨middle, last⟩⟩,
    ⟨.functionName, .ofList name, .ofSpan ⟨last, last + Text.byteLength name⟩⟩]

theorem Header.map_token_pieces {cursor : Cursor} {thread : Thread}
    {keyword blanks name : List Char} (hheader : Header cursor thread keyword blanks name)
    (vocabulary : Vocabulary) (state : StateId) (place : Nat) :
    (cutPieces cursor.offset cursor.rest
        (definitionRule.report state cursor thread place).cuts).map (Piece.token vocabulary) =
      headerTokens cursor.offset keyword blanks name := by
  rw [hheader.pieces]
  simp [Cursor.piece, Piece.token, Mark.resolve, headerTokens]

/-- A definition gives three tokens that cover it: its keyword, blanks as long as
a name behind them allows, and a name as long as its characters allow. -/
theorem definition_gives_three_tokens :
    ∃ table, CellTail.table = .ok table ∧
      ∀ (line : List Char) (pos : Nat) (m : RuleMatch),
        table.matchAt? table.start line pos = some m →
        (table.rules table.start)[m.rule]?.map (·.source) = some definitionPattern →
        ∃ before keyword blanks name after,
          line = before ++ (keyword ++ (blanks ++ (name ++ after))) ∧
          pos = Text.byteLength before ∧
          m.span = ⟨pos, pos + Text.byteLength (keyword ++ (blanks ++ name))⟩ ∧
          String.ofList keyword ∈ ["def", "class"] ∧
          (blanks ≠ [] ∧ ∀ c ∈ blanks, Text.isBlank c = true) ∧
          (name ≠ [] ∧ (name ++ after).takeWhile nameChars.contains = name) ∧
          Split blanks name after ∧
          (((blanks ++ (name ++ after)).takeWhile Text.isBlank = blanks ∧
            ∀ c ∈ name, Text.isBlank c = false) ↔
            ∀ c ∈ name, c ∉ nameBlanks) ∧
          ∀ (vocabulary : Vocabulary) (config : ScanConfig) (start : StateId)
            (front : List Piece) (cursor : Cursor),
            table.Passes (.start line) start front cursor table.start →
            cursor.offset = pos →
            config.cap.any (· ≤ front.length) = false →
            ∃ back,
              (Scanner.line ⟨table, vocabulary, config⟩ line start).tokens =
                front.map (Piece.token vocabulary) ++
                  headerTokens pos keyword blanks name ++ back := by
  refine ⟨builtTable, table_eq, ?_⟩
  intro line pos m hmatch hsource
  obtain ⟨cursor, hcursor, found, hfound, rfl⟩ : ∃ cursor, Cursor.at? line pos = some cursor ∧
      ∃ found, builtTable.matchFrom? builtTable.start cursor = some found ∧ found.1 = m := by
    simpa [RuleTable.matchAt?, Option.bind_eq_some_iff] using hmatch
  obtain ⟨m, behind⟩ := found
  obtain ⟨rule, thread, place, hwins, rfl, rfl⟩ := firstMatch?_wins hfound
  have hunique : ∀ rule ∈ startRules, rule.source = definitionPattern → rule = definitionRule := by
    decide +kernel
  obtain rfl : rule = definitionRule := by
    refine hunique rule hwins.mem ?_
    rw [Rule.report, Nat.zero_add, hwins.getElem?_eq] at hsource
    exact Option.some.inj hsource
  obtain ⟨keyword, blanks, name, after, hrest, hheader, hname, hsplit⟩ :=
    exists_split_header hwins.takes
  obtain ⟨before, c, rest, hline, hpos, rfl⟩ := Cursor.at?_eq_some_iff.mp hcursor
  refine ⟨before, keyword, blanks, name, after, hrest ▸ hline, hpos, ?_, hheader.keyword_mem,
    hheader.blanks_run, ⟨hheader.name_run.1, hname⟩, hsplit,
    hsplit.at_blanks_iff hheader.name_run.2, ?_⟩
  · simp [Rule.report, hheader.behind, Nat.add_assoc]
  · intro vocabulary config start front cursor hpasses hoffset hfree
    obtain rfl := hpasses.eq_of_at? hoffset hcursor
    obtain ⟨back, hpieces⟩ := hpasses.scan_goes_on hfree hfound
    refine ⟨back.map (Piece.token vocabulary), ?_⟩
    rw [Scanner.line, hpieces, List.map_append, List.map_append, hheader.map_token_pieces,
      List.append_assoc]

/-- Behind an operator, with four blanks and no name: the last but one is taken
for it. -/
theorem definition_gives_three_tokens_without_name :
    let line := "-def \u1680 \u3000\t".toList
    let groups := [(Label.keyword, ⟨1, 4⟩), (.text, ⟨4, 9⟩), (.functionName, ⟨9, 12⟩)]
    let tokens := (Scanner.line ⟨builtTable, vocabulary, ⟨some 2⟩⟩ line ⟨0⟩).tokens
    builtTable.matchAt? ⟨0⟩ line 1 = some ⟨.groups groups, ⟨1, 12⟩, ⟨0⟩, 7⟩ ∧
    tokens.take 4 =
      ⟨.keywordOperator, "-", .ofSpan ⟨0, 1⟩⟩ ::
        headerTokens 1 "def".toList " \u1680 ".toList ['\u3000'] ∧
    ∃ after, Split " \u1680 ".toList ['\u3000'] after := by
  intro line groups tokens
  have hmatch : builtTable.matchAt? ⟨0⟩ line 1 =
      some ⟨.groups groups, ⟨1, 12⟩, ⟨0⟩, 7⟩ := by
    decide +kernel
  have htokens : tokens.take 4 =
      ⟨.keywordOperator, "-", .ofSpan ⟨0, 1⟩⟩ ::
        headerTokens 1 "def".toList " \u1680 ".toList ['\u3000'] := by
    decide +kernel
  obtain ⟨table, htable, hsplits⟩ := definition_gives_three_tokens
  obtain rfl : builtTable = table := Except.ok.inj (table_eq.symm.trans htable)
  obtain ⟨before, keyword, blanks, name, after, _, _, _, _, _, _, hsplit, _, hscan⟩ :=
    hsplits line 1 _ hmatch (by decide +kernel)
  have hoperator : builtTable.matchFrom? ⟨0⟩ (.start line) =
      some (⟨.whole .keywordOperator, ⟨0, 1⟩, ⟨0⟩, 3⟩,
        (Cursor.start line).past '-' line.tail) := by
    decide +kernel
  obtain ⟨back, hback⟩ := hscan vocabulary ⟨some 2⟩ ⟨0⟩ _ _
    (.head (.matched (List.cons_ne_nil _ _) hoperator) (.refl _ _)) rfl (by decide +kernel)
  have hsame : headerTokens 1 keyword blanks name =
      headerTokens 1 "def".toList " \u1680 ".toList ['\u3000'] :=
    (List.cons.inj ((congrArg (List.take 4) hback).symm.trans htokens)).2
  simp only [headerTokens, List.cons.injEq, Token.mk.injEq, String.ofList_inj] at hsame
  obtain ⟨_, ⟨_, hblanks, _⟩, ⟨_, hname, _⟩, _⟩ := hsame
  exact ⟨hmatch, htokens, after, hblanks ▸ hname ▸ hsplit⟩

/-- The name of the first definition holds a blank, and the blanks of the second
are not all that follow its keyword. -/
theorem definition_name_holds_blank :
    ∃ table, CellTail.table = .ok table ∧
      (table.rules table.start)[7]?.map (·.source) = some definitionPattern ∧
      (table.matchAt? table.start "def x\u3000y".toList 0).map (·.rule) = some 7 ∧
      (Scanner.line ⟨table, vocabulary, .default⟩ "def x\u3000y".toList table.start).tokens =
        headerTokens 0 "def".toList [' '] "x\u3000y".toList ∧
      (∃ c ∈ "x\u3000y".toList, Text.isBlank c = true) ∧
      (table.matchAt? table.start "def \u3000".toList 0).map (·.rule) = some 7 ∧
      (Scanner.line ⟨table, vocabulary, .default⟩ "def \u3000".toList table.start).tokens =
        headerTokens 0 "def".toList [' '] ['\u3000'] ∧
      " \u3000".toList.takeWhile Text.isBlank ≠ [' '] := by
  refine ⟨builtTable, table_eq, by decide +kernel, by decide +kernel, by decide +kernel,
    ⟨'\u3000', ?_, rfl⟩, by decide +kernel, by decide +kernel, by decide +kernel⟩
  decide +kernel

end Highlighter.CellTail
