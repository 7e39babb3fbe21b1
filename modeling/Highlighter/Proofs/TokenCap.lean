import Highlighter.Proofs.LineCover
import Highlighter.Proofs.TakenTexts
import Mathlib.Tactic

/-!
# The cap only truncates

A scan with a cap and one without go through the same steps until the cap
stops the first of them.  It stops at the first place between two steps where
enough pieces lie before it, unless the line is done there: up to that place
the pieces are those of the scan without a cap, and the rest of the line is one
piece of plain text.

A step adds one piece, or up to two for every group that its rule labels and
one more, so the pieces of a capped scan are not many more than the cap.
-/

namespace Highlighter

namespace RuleTable

/-- Steps of the loop one after another, with the pieces that they cut. -/
inductive Passes (table : RuleTable) :
    Cursor → StateId → List Piece → Cursor → StateId → Prop
  | refl (cursor : Cursor) (state : StateId) : Passes table cursor state [] cursor state
  | head {cursor middle behind : Cursor} {state next final : StateId}
      {pieces more : List Piece} :
      table.ScanStep cursor state pieces middle next →
      Passes table middle next more behind final →
      Passes table cursor state (pieces ++ more) behind final

variable {table : RuleTable} {cursor behind : Cursor} {state final : StateId}
  {pieces : List Piece}

theorem Passes.tiles (hpasses : table.Passes cursor state pieces behind final) :
    ∃ taken,
      cursor.rest = taken ++ behind.rest ∧
      behind.offset = cursor.offset + Text.byteLength taken ∧
      Tiles cursor.offset taken pieces := by
  induction hpasses with
  | refl cursor => exact ⟨[], rfl, by simp, .nil _⟩
  | head hstep _ ih =>
      obtain ⟨front, hrest, hoffset, hfront⟩ := hstep.tiles
      obtain ⟨taken, hrest', hoffset', htaken⟩ := ih
      rw [hoffset] at hoffset' htaken
      refine ⟨front ++ taken, ?_, ?_, hfront.append htaken⟩
      · rw [hrest, hrest', List.append_assoc]
      · rw [hoffset', Text.byteLength_append, Nat.add_assoc]

theorem Passes.offset_le (hpasses : table.Passes cursor state pieces behind final) :
    cursor.offset ≤ behind.offset := by
  obtain ⟨taken, _, hoffset, _⟩ := hpasses.tiles
  omega

theorem ScanStep.behind_eq_after {next : StateId}
    (hstep : table.ScanStep cursor state pieces behind next) :
    ∃ taken, taken <+: cursor.rest ∧ behind = cursor.after taken := by
  cases hstep with
  | matched _ hmatch =>
      obtain ⟨rule, thread, place, hwins, rfl, _⟩ := firstMatch?_wins hmatch
      exact rule.plan.ways_after _ _ (Plan.matchAt?_mem_ways hwins.takes.1)
  | @plain _ c cs hrest => exact ⟨[c], by simp [hrest], by simp [Cursor.after, hrest]⟩

theorem Passes.behind_eq_after (hpasses : table.Passes cursor state pieces behind final) :
    ∃ taken, taken <+: cursor.rest ∧ behind = cursor.after taken := by
  induction hpasses with
  | refl => exact ⟨[], List.nil_prefix, rfl⟩
  | head hstep _ ih =>
      obtain ⟨front, hfront, rfl⟩ := hstep.behind_eq_after
      obtain ⟨back, hback, rfl⟩ := ih
      rw [Cursor.rest_after] at hback
      exact ⟨front ++ back, (append_prefix_iff hfront).mpr hback, (Cursor.after_append _ _ _).symm⟩

/-- Before the end of a line, the cursors of its scan are those that its byte
offsets give. -/
theorem Passes.at?_offset {line : List Char} {start : StateId}
    (hpasses : table.Passes (.start line) start pieces cursor state)
    (hne : cursor.rest ≠ []) : Cursor.at? line cursor.offset = some cursor := by
  obtain ⟨taken, ⟨rest, rfl⟩, rfl⟩ := hpasses.behind_eq_after
  have hrest : ((Cursor.start (taken ++ rest)).after taken).rest = rest := by
    rw [Cursor.rest_after]
    exact List.drop_left
  have hbefore : ((Cursor.start (taken ++ rest)).after taken).before = taken.getLast? := by
    cases taken with
    | nil => rfl
    | cons c taken => exact Cursor.before_after _ (List.cons_ne_nil c taken)
  rw [hrest] at hne
  obtain ⟨c, cs, rfl⟩ := List.exists_cons_of_ne_nil hne
  refine Cursor.at?_eq_some_iff.mpr ⟨taken, c, cs, rfl, by simp [Cursor.start], ?_⟩
  exact congrArg₂ (Cursor.mk _) hbefore hrest

theorem Passes.eq_of_at? {line : List Char} {start : StateId} {pos : Nat} {standing : Cursor}
    (hpasses : table.Passes (.start line) start pieces cursor state)
    (hpos : cursor.offset = pos)
    (hat : Cursor.at? line pos = some standing) : standing = cursor := by
  subst hpos
  obtain ⟨before, c, after, hline, hbefore, _⟩ := Cursor.at?_eq_some_iff.mp hat
  obtain ⟨taken, hrest, hoffset, _⟩ := hpasses.tiles
  have hne : cursor.rest ≠ [] := by
    intro hnil
    have htaken : line = taken ++ [] := hnil ▸ hrest
    have hlength := congrArg Text.byteLength (hline.symm.trans htaken)
    have hstart : (Cursor.start line).offset = 0 := rfl
    have hsize := c.utf8Size_pos
    simp only [Text.byteLength_append, Text.byteLength_cons, Text.byteLength_nil] at hlength
    omega
  exact Option.some.inj (hat.symm.trans (hpasses.at?_offset hne))

/-- A cap that is not reached was not reached before. -/
theorem cap_free_of_le {cap : Option Nat} {m n : Nat}
    (hfree : cap.any (· ≤ n) = false)
    (hle : m ≤ n) : cap.any (· ≤ m) = false := by
  cases cap with
  | none => rfl
  | some max =>
      have hlt : n < max := by simpa using hfree
      simpa using hle.trans_lt hlt

/-- Below the cap, a run goes on from every place that its steps come by. -/
theorem Passes.run_goes_on_below (hpasses : table.Passes cursor state pieces behind final)
    {cap : Option Nat} {count : Nat} {result : List Piece × StateId}
    (hscan : table.Scans cap cursor state count result)
    (hfree : cap.any (· ≤ count + pieces.length) = false) :
    ∃ back,
      table.Scans cap behind final (count + pieces.length) (back, result.2) ∧
      result.1 = pieces ++ back := by
  induction hpasses generalizing count result with
  | refl => exact ⟨result.1, hscan, rfl⟩
  | @head _ _ _ _ _ _ pieces more hstep _ ih =>
      obtain ⟨after, hafter, rfl⟩ :=
        hscan.behind_free_step (cap_free_of_le hfree (Nat.le_add_right _ _)) hstep
      rw [List.length_append, ← Nat.add_assoc] at hfree
      obtain ⟨back, hback, hresult⟩ := ih hafter hfree
      rw [Nat.add_assoc, ← List.length_append] at hback
      refine ⟨back, hback, ?_⟩
      rw [hresult, List.append_assoc]

/-- Without a cap, a run goes on from every place that its steps come by. -/
theorem Passes.run_goes_on (hpasses : table.Passes cursor state pieces behind final)
    {count : Nat} {result : List Piece × StateId}
    (hscan : table.Scans none cursor state count result) :
    ∃ back,
      table.Scans none behind final (count + pieces.length) (back, result.2) ∧
      result.1 = pieces ++ back :=
  hpasses.run_goes_on_below hscan rfl

/-- Below the cap, a line's pieces go on with those of the match at a place that
its steps come by. -/
theorem Passes.scan_goes_on {line : List Char} {start : StateId} {m : RuleMatch} {after : Cursor}
    (hpasses : table.Passes (.start line) start pieces cursor state)
    {cap : Option Nat} (hfree : cap.any (· ≤ pieces.length) = false)
    (hmatch : table.matchFrom? state cursor = some (m, after)) :
    ∃ back,
      (table.scan cap line start).1 =
        pieces ++ (cutPieces cursor.offset cursor.rest m.cuts ++ back) := by
  have hbelow : cap.any (· ≤ 0 + pieces.length) = false := by rwa [Nat.zero_add]
  obtain ⟨rest, hrest, hpieces⟩ :=
    hpasses.run_goes_on_below (table.scan_scans cap line start) hbelow
  obtain ⟨back, _, hback⟩ :=
    hrest.behind_free_step hbelow (.matched (rest_ne_nil_of_matchFrom? hmatch) hmatch)
  have hcut : rest = cutPieces cursor.offset cursor.rest m.cuts ++ back.1 :=
    congrArg Prod.fst hback
  exact ⟨back.1, by rw [hpieces, hcut]⟩

/-! ## The place where the cap stops a run -/

/-- The first place between two steps before the end of the line where `max`
pieces have been cut, when `count` of them lie before the cursor. -/
structure FirstFull (table : RuleTable) (cursor : Cursor) (state : StateId) (count max : Nat)
    (pieces : List Piece) (behind : Cursor) : Prop where
  passes : ∃ final, table.Passes cursor state pieces behind final
  open_end : behind.rest ≠ []
  full : max ≤ count + pieces.length
  first : ∀ pieces' behind' final',
    table.Passes cursor state pieces' behind' final' →
    behind'.offset < behind.offset →
    count + pieces'.length < max

/-- No place between two steps before the end of the line has `max` pieces. -/
def NeverFull (table : RuleTable) (cursor : Cursor) (state : StateId) (count max : Nat) : Prop :=
  ∀ pieces behind final,
    table.Passes cursor state pieces behind final →
    behind.rest ≠ [] →
    count + pieces.length < max

variable {count max : Nat} {middle : Cursor} {next : StateId} {more : List Piece}

theorem firstFull_here (hne : cursor.rest ≠ []) (hmax : max ≤ count) :
    table.FirstFull cursor state count max [] cursor where
  passes := ⟨state, .refl _ _⟩
  open_end := hne
  full := by simpa using hmax
  first := by
    intro pieces' behind' final' hpasses hlt
    have hle := hpasses.offset_le
    omega

theorem FirstFull.of_step (hstep : table.ScanStep cursor state pieces middle next)
    (hcount : count < max)
    (hfull : table.FirstFull middle next (count + pieces.length) max more behind) :
    table.FirstFull cursor state count max (pieces ++ more) behind where
  passes := by
    obtain ⟨final, hpasses⟩ := hfull.passes
    exact ⟨final, .head hstep hpasses⟩
  open_end := hfull.open_end
  full := by
    have hmax := hfull.full
    rw [List.length_append]
    omega
  first := by
    intro pieces' behind' final' hpasses hlt
    cases hpasses with
    | refl => simpa using hcount
    | head hstep' hpasses' =>
        obtain ⟨rfl, rfl, rfl⟩ := hstep.unique hstep'
        have hbelow := hfull.first _ _ _ hpasses' hlt
        rw [List.length_append]
        omega

theorem neverFull_of_done (hrest : cursor.rest = []) :
    table.NeverFull cursor state count max := by
  intro pieces behind final hpasses hne
  cases hpasses with
  | refl => exact absurd hrest hne
  | head hstep => exact absurd hrest hstep.rest_ne_nil

theorem NeverFull.of_step (hstep : table.ScanStep cursor state pieces middle next)
    (hcount : count < max)
    (hnever : table.NeverFull middle next (count + pieces.length) max) :
    table.NeverFull cursor state count max := by
  intro pieces' behind final hpasses hne
  cases hpasses with
  | refl => simpa using hcount
  | head hstep' hpasses' =>
      obtain ⟨rfl, rfl, rfl⟩ := hstep.unique hstep'
      have hbelow := hnever _ _ _ hpasses' hne
      rw [List.length_append]
      omega

/-- A run with a cap and one without, from the same place. -/
theorem Scans.capped_eq_or_truncated {free capped : List Piece × StateId}
    (hfree : table.Scans none cursor state count free)
    (hcapped : table.Scans (some max) cursor state count capped) :
    (capped = free ∧ table.NeverFull cursor state count max) ∨
    ∃ pieces behind,
      table.FirstFull cursor state count max pieces behind ∧
      capped = (pieces ++ [behind.remainder], table.start) := by
  induction hfree using Scans.step_induction generalizing capped with
  | done hrest =>
      rcases hcapped.cases_step with ⟨_, rfl⟩ | ⟨hne, _⟩ | ⟨_, _, _, _, _, hstep, _⟩
      · exact Or.inl ⟨rfl, neverFull_of_done hrest⟩
      · exact absurd hrest hne
      · exact absurd hrest hstep.rest_ne_nil
  | capped _ hcap => simp at hcap
  | @step _ _ _ _ count _ _ _ _ hstep _ ih =>
      rcases hcapped.cases_step with
        ⟨hrest, _⟩ | ⟨hne, hcap, rfl⟩ | ⟨hcap, _, _, _, after', hstep', hafter', rfl⟩
      · exact absurd hrest hstep.rest_ne_nil
      · have hmax : max ≤ count := by simpa using hcap
        exact Or.inr ⟨[], _, firstFull_here hne hmax, rfl⟩
      · obtain ⟨rfl, rfl, rfl⟩ := hstep.unique hstep'
        have hcount : count < max := by simpa using hcap
        rcases ih hafter' with ⟨rfl, hnever⟩ | ⟨more, behind, hfull, rfl⟩
        · exact Or.inl ⟨rfl, hnever.of_step hstep hcount⟩
        · refine Or.inr ⟨_, behind, hfull.of_step hstep hcount, ?_⟩
          simp

/-- The run without a cap cuts more pieces than those before the first full
place, because it has not come to the end of the line there. -/
theorem FirstFull.lt_length {free : List Piece × StateId}
    (hfull : table.FirstFull cursor state count max pieces behind)
    (hfree : table.Scans none cursor state count free) :
    pieces <+: free.1 ∧ pieces.length < free.1.length := by
  obtain ⟨final, hpasses⟩ := hfull.passes
  obtain ⟨back, hback, hfront⟩ := hpasses.run_goes_on hfree
  have hne : back ≠ [] := by
    intro hnil
    have htext := hback.tiles.flatten
    rw [hnil] at htext
    exact hfull.open_end htext.symm
  have hpos := List.length_pos_of_ne_nil hne
  rw [hfront, List.length_append]
  exact ⟨List.prefix_append _ _, by omega⟩

/-! ## How many pieces there are -/

/-- No rule of the table labels more than `most` groups. -/
def GroupsAtMost (table : RuleTable) (most : Nat) : Prop :=
  ∀ lexical ∈ table.states, ∀ rule ∈ lexical.rules, ∀ labels,
    rule.labelling = .groups labels → labels.length ≤ most

end RuleTable

theorem length_groupSpans_le (thread : Thread) (index : Nat) (labels : List Label) :
    (groupSpans thread index labels).length ≤ labels.length := by
  induction labels generalizing index with
  | nil => simp [groupSpans]
  | cons label labels ih =>
      have hrest := ih (index + 1)
      rw [groupSpans]
      split <;> simp <;> omega

theorem length_groupCuts_le (stop pos : Nat) (groups : List (Label × Span)) :
    (groupCuts stop pos groups).length ≤ 2 * groups.length + 1 := by
  fun_induction groupCuts stop pos groups <;> simp <;> omega

theorem length_cutPieces (pos : Nat) (text : List Char) (cuts : List (Mark × Nat)) :
    (cutPieces pos text cuts).length = cuts.length := by
  fun_induction cutPieces pos text cuts <;> simp [*]

namespace RuleTable

variable {table : RuleTable} {most : Nat}

theorem ScanStep.length_le (hgroups : table.GroupsAtMost most)
    {cursor behind : Cursor} {state next : StateId} {pieces : List Piece}
    (hstep : table.ScanStep cursor state pieces behind next) :
    pieces.length ≤ 2 * most + 1 := by
  cases hstep with
  | plain => simp
  | matched _ hmatch =>
      obtain ⟨rule, thread, place, hwins, _, rfl⟩ := firstMatch?_wins hmatch
      obtain ⟨lexical, hlexical, hrule⟩ := exists_state_of_mem_rules hwins.mem
      rw [length_cutPieces]
      simp only [RuleMatch.cuts, Rule.report]
      cases hlabelling : rule.labelling with
      | whole label => simp [Labelling.ofMatch]
      | classify => simp [Labelling.ofMatch]
      | groups labels =>
          have hlabels := hgroups lexical hlexical rule hrule labels hlabelling
          have hspans := length_groupSpans_le thread 1 labels
          have hcuts := length_groupCuts_le thread.cursor.offset cursor.offset
            (groupSpans thread 1 labels)
          simp only [Labelling.ofMatch]
          omega

theorem Scans.length_le (hgroups : table.GroupsAtMost most) {max : Nat}
    {cursor : Cursor} {state : StateId} {count : Nat} {result : List Piece × StateId}
    (hscan : table.Scans (some max) cursor state count result)
    (hcount : count ≤ max + 2 * most) :
    count + result.1.length ≤ max + 2 * most + 1 := by
  induction hscan using Scans.step_induction with
  | done => simp; omega
  | capped => simp; omega
  | @step _ _ _ _ count _ _ _ hcap hstep _ ih =>
      have hpieces := hstep.length_le hgroups
      have hbelow : count < max := by simpa using hcap
      have hrest := ih (by omega)
      rw [List.length_append]
      omega

end RuleTable

/-! ## Tokens -/

namespace Scanner

/-- The tokens of a line with a cap are those without one, or break off at the
first place between two steps where there are enough of them. -/
theorem capped_line_truncates (table : RuleTable) (vocabulary : Vocabulary) (max : UInt64)
    (line : List Char) (state : StateId) :
    let free := Scanner.line ⟨table, vocabulary, ⟨none⟩⟩ line state
    let capped := Scanner.line ⟨table, vocabulary, ⟨some max⟩⟩ line state
    ((capped = free ∧ table.NeverFull (.start line) state 0 max.toNat) ∨
      ∃ pieces behind before,
        table.FirstFull (.start line) state 0 max.toNat pieces behind ∧
        line = before ++ behind.rest ∧
        behind.offset = Text.byteLength before ∧
        pieces.flatMap (·.text) = before ∧
        pieces.map (Piece.token vocabulary) <+: free.tokens ∧
        capped =
          ⟨pieces.map (Piece.token vocabulary) ++
              [⟨.text, String.ofList behind.rest,
                .ofSpan ⟨behind.offset, Text.byteLength line⟩⟩],
            table.start⟩) ∧
    (free.tokens.length ≤ max.toNat → capped = free) ∧
    (∀ most, table.GroupsAtMost most →
      capped.tokens.length ≤ max.toNat + 2 * most + 1) := by
  intro free capped
  have hfree := table.scan_scans none line state
  have hcapped := table.scan_scans (some max.toNat) line state
  have hsame : table.scan (some max.toNat) line state = table.scan none line state →
      capped = free := by
    intro heq
    simp only [capped, free, Scanner.line, ScanConfig.cap, Option.map_some, Option.map_none, heq]
  refine ⟨?_, ?_, ?_⟩
  · rcases hfree.capped_eq_or_truncated hcapped with ⟨heq, hnever⟩ | ⟨pieces, behind, hfull, heq⟩
    · exact Or.inl ⟨hsame heq, hnever⟩
    · obtain ⟨final, hpasses⟩ := hfull.passes
      obtain ⟨before, hline, hoffset, htiles⟩ := hpasses.tiles
      refine Or.inr ⟨pieces, behind, before, hfull, hline, ?_, htiles.flatten, ?_, ?_⟩
      · simpa [Cursor.start] using hoffset
      · exact (hfull.lt_length hfree).1.map _
      · have hsize : Text.byteLength line = behind.offset + Text.byteLength behind.rest := by
          have hwhole := congrArg Text.byteLength hline
          rw [Text.byteLength_append] at hwhole
          simp only [Cursor.start, Nat.zero_add] at hwhole hoffset
          rw [hwhole, hoffset]
        simp only [capped, Scanner.line, ScanConfig.cap, Option.map_some, heq, List.map_append,
          List.map_singleton, hsize]
        rfl
  · intro hlength
    rcases hfree.capped_eq_or_truncated hcapped with ⟨heq, _⟩ | ⟨pieces, behind, hfull, _⟩
    · exact hsame heq
    · have hmore := (hfull.lt_length hfree).2
      have hmax := hfull.full
      simp only [free, Scanner.line, List.length_map, ScanConfig.cap, Option.map_none] at hlength
      omega
  · intro most hgroups
    have hpieces := hcapped.length_le hgroups (by omega)
    simpa [capped, Scanner.line, ScanConfig.cap] using hpieces

/-- Two labelled groups with a character between them. -/
def spacedTable : RuleTable where
  states :=
    [{ name := startName
       rules :=
         [{ labelling := .groups [.keyword, .string]
            source := "(a)b(c)"
            plan :=
              .seq (.group 1 (.one (.single 'a')))
                (.seq (.one (.single 'b')) (.group 2 (.one (.single 'c'))))
            next := none }] }]
  start := ⟨0⟩

/-- One match gives three tokens, so the second step is stopped by a cap of
two, and none is by a cap of four: the fourth token is the last one. -/
theorem capped_line_truncates_overshot :
    spacedTable.GroupsAtMost 2 ∧
    (Scanner.line ⟨spacedTable, .empty, ⟨some 2⟩⟩ "abcabc".toList ⟨0⟩).tokens.length ≤ 7 ∧
    (Scanner.line ⟨spacedTable, .empty, ⟨none⟩⟩ "abcx".toList ⟨0⟩).tokens.length ≤ 4 ∧
    Scanner.line ⟨spacedTable, .empty, ⟨some 4⟩⟩ "abcx".toList ⟨0⟩ =
      Scanner.line ⟨spacedTable, .empty, ⟨none⟩⟩ "abcx".toList ⟨0⟩ := by
  have hgroups : spacedTable.GroupsAtMost 2 := by
    simp [RuleTable.GroupsAtMost, spacedTable]
  have hlength :
      (Scanner.line ⟨spacedTable, .empty, ⟨none⟩⟩ "abcx".toList ⟨0⟩).tokens.length ≤ 4 := by
    decide
  exact ⟨hgroups,
    (capped_line_truncates spacedTable .empty 2 "abcabc".toList ⟨0⟩).2.2 2 hgroups,
    hlength, (capped_line_truncates spacedTable .empty 4 "abcx".toList ⟨0⟩).2.1 hlength⟩

end Scanner

end Highlighter
