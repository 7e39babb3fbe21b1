import Highlighter.Proofs.GroupSpans
import Highlighter.Proofs.LabelledBytes
import Highlighter.Proofs.TokenCap
import Mathlib.Tactic

/-!
# Labels of captured bytes

A match of a rule with labelled groups is cut by going through its groups in
the order of their numbers, never back.  A group that begins before the end of
the last one taken is passed over.  Since it lies inside of that one or before
it, the label of a byte is settled by one group: the first one that is not
empty and ends behind the byte.  If this group holds the byte, the byte has its
label, and if not, the byte is plain text, although a group with a higher
number may hold it.  A repeated group can be overtaken in this way by what a
later round has recorded.
-/

namespace Highlighter

/-! ## Bytes of tokens and of pieces -/

/-- The label of the token that byte `i` is in, when the tokens are laid end to
end. -/
def Token.byteLabel? : List Token → Nat → Option Label
  | [], _ => none
  | token :: tokens, i =>
    if i < Text.byteLength token.text.toList then some token.label
    else byteLabel? tokens (i - Text.byteLength token.text.toList)

def Piece.labelled (vocabulary : Vocabulary) (piece : Piece) : Label × Span :=
  (piece.mark.resolve vocabulary (String.ofList piece.text), piece.span)

theorem labelAt?_append (xs ys : List (Label × Span)) (i : Nat) :
    labelAt? (xs ++ ys) i = (labelAt? xs i).or (labelAt? ys i) := by
  rw [labelAt?, List.find?_append, Option.map_or]
  rfl

section Tiles

variable {pos i : Nat} {text : List Char} {pieces : List Piece}

theorem Tiles.byteLabel?_eq
    (htiles : Tiles pos text pieces)
    (vocabulary : Vocabulary)
    (hi : pos ≤ i) :
    Token.byteLabel? (pieces.map (Piece.token vocabulary)) (i - pos) =
      labelAt? (pieces.map (Piece.labelled vocabulary)) i := by
  induction htiles with
  | nil => rfl
  | @cons pos piece rest pieces _ hspan _ ih =>
      have hholds : piece.span.holds i = decide (i < pos + Text.byteLength piece.text) := by
        simp [hspan, Span.holds, hi]
      have htext : (piece.token vocabulary).text.toList = piece.text := String.toList_ofList
      rw [List.map_cons, List.map_cons, Token.byteLabel?, htext, Piece.labelled, labelAt?_cons,
        hholds]
      by_cases hinside : i < pos + Text.byteLength piece.text
      · rw [if_pos (by omega), if_pos (by simpa using hinside)]
        rfl
      · rw [if_neg (by omega), if_neg (by simpa using hinside), Nat.sub_sub]
        exact ih (by omega)

theorem Tiles.labelAt?_eq_none
    (htiles : Tiles pos text pieces)
    (vocabulary : Vocabulary)
    (hi : pos + Text.byteLength text ≤ i) :
    labelAt? (pieces.map (Piece.labelled vocabulary)) i = none := by
  induction htiles with
  | nil => rfl
  | @cons pos piece rest pieces _ hspan _ ih =>
      rw [Text.byteLength_append] at hi
      have hpast : piece.span.holds i = false := by
        rw [← Bool.not_eq_true, Span.holds_iff, hspan]
        dsimp only
        omega
      rw [List.map_cons, Piece.labelled, labelAt?_cons, hpast]
      exact ih (by omega)

end Tiles

/-! ## The group that settles a label -/

/-- The first group that is not empty and ends behind byte `i`. -/
def leadingGroup? (groups : List (Label × Span)) (i : Nat) : Option (Label × Span) :=
  groups.find? fun group => !group.2.isEmpty && decide (i < group.2.stop)

/-- The label of byte `i` of a match with these groups. -/
def groupLabelAt (groups : List (Label × Span)) (i : Nat) : Label :=
  match leadingGroup? groups i with
  | some (label, span) => if span.start ≤ i then label else .text
  | none => .text

/-- Of the groups that are not empty and end behind byte `i`, the first one
begins behind it as well. -/
def overtaken (groups : List (Label × Span)) (i : Nat) : Bool :=
  (leadingGroup? groups i).any fun group => i < group.2.start

section GroupLabel

variable {label : Label} {span : Span} {groups : List (Label × Span)} {i : Nat}

theorem leadingGroup?_cons_of_leads
    (hlt : span.start < span.stop)
    (hi : i < span.stop) :
    leadingGroup? ((label, span) :: groups) i = some (label, span) := by
  refine List.find?_cons_of_pos ?_
  simp [Span.isEmpty, hlt, hi]

theorem leadingGroup?_cons_of_passed
    (hpassed : span.stop ≤ span.start ∨ span.stop ≤ i) :
    leadingGroup? ((label, span) :: groups) i = leadingGroup? groups i := by
  refine List.find?_cons_of_neg ?_
  simp only [Span.isEmpty, Bool.and_eq_true, Bool.not_eq_true', decide_eq_true_eq,
    decide_eq_false_iff_not]
  omega

theorem leadingGroup?_spec {group : Label × Span}
    (hgroup : leadingGroup? groups i = some group) :
    group ∈ groups ∧ i < group.2.stop := by
  have hfound := List.find?_some hgroup
  simp only [Bool.and_eq_true, decide_eq_true_eq] at hfound
  exact ⟨List.mem_of_find?_eq_some hgroup, hfound.2⟩

theorem exists_leadingGroup? {group : Label × Span}
    (hgroup : group ∈ groups)
    (hholds : group.2.holds i = true) : ∃ leading, leadingGroup? groups i = some leading := by
  rw [Span.holds_iff] at hholds
  refine Option.isSome_iff_exists.mp (List.find?_isSome.mpr ⟨group, hgroup, ?_⟩)
  simp only [Span.isEmpty, Bool.and_eq_true, Bool.not_eq_true', decide_eq_true_eq,
    decide_eq_false_iff_not]
  omega

theorem groupLabelAt_of_outside
    (houtside : ∀ group ∈ groups, group.2.holds i = false) : groupLabelAt groups i = .text := by
  unfold groupLabelAt
  split
  next label span hleading =>
    obtain ⟨hmem, hstop⟩ := leadingGroup?_spec hleading
    refine if_neg ?_
    intro hstart
    have hholds := Span.holds_iff.mpr ⟨hstart, hstop⟩
    rw [houtside _ hmem] at hholds
    exact absurd hholds Bool.false_ne_true
  next => rfl

theorem groupLabelAt_of_overtaken (hovertaken : overtaken groups i = true) :
    groupLabelAt groups i = .text := by
  cases hleading : leadingGroup? groups i with
  | none => rw [groupLabelAt, hleading]
  | some group =>
      have hstart : i < group.2.start := by simpa [overtaken, hleading] using hovertaken
      rw [groupLabelAt, hleading]
      exact if_neg (Nat.not_le_of_lt hstart)

theorem exists_groupLabelAt {group : Label × Span}
    (hgroup : group ∈ groups)
    (hholds : group.2.holds i = true)
    (hfree : overtaken groups i = false) :
    ∃ holder ∈ groups, holder.2.holds i = true ∧ groupLabelAt groups i = holder.1 := by
  obtain ⟨leading, hleading⟩ := exists_leadingGroup? hgroup hholds
  obtain ⟨hmem, hstop⟩ := leadingGroup?_spec hleading
  have hstart : leading.2.start ≤ i := by
    rw [overtaken, hleading] at hfree
    simpa using hfree
  refine ⟨leading, hmem, Span.holds_iff.mpr ⟨hstart, hstop⟩, ?_⟩
  rw [groupLabelAt, hleading]
  exact if_pos hstart

end GroupLabel

/-! ## Cutting a match -/

theorem labelAt?_cutPieces_cons (vocabulary : Vocabulary) (label : Label) (pos stop : Nat)
    (text : List Char) (cuts : List (Mark × Nat)) (i : Nat) :
    labelAt? ((cutPieces pos text ((.label label, stop) :: cuts)).map
        (Piece.labelled vocabulary)) i =
      if pos ≤ i ∧ i < stop then some label
      else labelAt? ((cutPieces stop (Text.dropBytes (stop - pos) text) cuts).map
        (Piece.labelled vocabulary)) i := by
  rw [cutPieces, List.map_cons, Piece.labelled, labelAt?_cons]
  simp only [Span.holds_iff, Mark.resolve]

/-- From `pos` on the cuts give every byte the label that its leading group
settles.  No group that is still to come lies across `pos`, and this stays so
because a group that is taken holds each later one or avoids it. -/
theorem labelAt?_groupCuts {groups : List (Label × Span)} {pos stop i : Nat}
    (vocabulary : Vocabulary)
    (hordered : groups.Pairwise fun a b => a.2.HoldsOrAvoids b.2)
    (hclear : ∀ group ∈ groups, group.2.stop ≤ pos ∨ pos ≤ group.2.start)
    (hi : pos ≤ i)
    (hstop : i < stop)
    (text : List Char) :
    labelAt? ((cutPieces pos text (groupCuts stop pos groups)).map (Piece.labelled vocabulary)) i =
      some (groupLabelAt groups i) := by
  induction groups generalizing pos text with
  | nil =>
      rw [groupCuts, if_pos (by omega), labelAt?_cutPieces_cons, if_pos ⟨hi, hstop⟩]
      rfl
  | cons group groups ih =>
      obtain ⟨label, span⟩ := group
      obtain ⟨hhead, hrest⟩ := List.pairwise_cons.mp hordered
      obtain ⟨hspan, hgroups⟩ := List.forall_mem_cons.mp hclear
      dsimp only at hspan hhead
      rw [groupCuts]
      split
      next hskip =>
        have hpassed : span.stop ≤ span.start ∨ span.stop ≤ i := by
          simp only [Span.isEmpty, Bool.or_eq_true, decide_eq_true_eq] at hskip
          omega
        rw [groupLabelAt, leadingGroup?_cons_of_passed hpassed]
        exact ih hrest hgroups hi text
      next htaken =>
        simp only [Span.isEmpty, Bool.or_eq_true, decide_eq_true_eq, not_or, not_lt,
          not_le] at htaken
        obtain ⟨hbegin, hlt⟩ := htaken
        have hlater : ∀ later ∈ groups, later.2.stop ≤ span.stop ∨ span.stop ≤ later.2.start := by
          intro later hmem
          have hlies := hhead later hmem
          unfold Span.HoldsOrAvoids at hlies
          omega
        have hgroup : span.start ≤ i → ∀ cs,
            labelAt? ((cutPieces span.start cs ((.label label, span.stop) ::
                groupCuts stop span.stop groups)).map (Piece.labelled vocabulary)) i =
              some (groupLabelAt ((label, span) :: groups) i) := by
          intro hstart cs
          rw [labelAt?_cutPieces_cons, groupLabelAt]
          by_cases hinside : i < span.stop
          · rw [leadingGroup?_cons_of_leads hlt hinside, if_pos ⟨hstart, hinside⟩]
            simp only [hstart, if_true]
          · rw [leadingGroup?_cons_of_passed (Or.inr (by omega)), if_neg (by omega)]
            exact ih hrest hlater (by omega) _
        split
        next hgap =>
          rw [labelAt?_cutPieces_cons]
          by_cases hbefore : i < span.start
          · rw [if_pos ⟨hi, hbefore⟩, groupLabelAt, leadingGroup?_cons_of_leads hlt (by omega)]
            simp only [Nat.not_le_of_lt hbefore, if_false]
          · rw [if_neg (by omega)]
            exact hgroup (by omega) _
        next hflush =>
          obtain rfl : pos = span.start := by omega
          exact hgroup hi text

/-! ## Lines -/

theorem RuleTable.labelAt?_scan {calls : List DraftCall} {table : RuleTable}
    (hbuild : RuleTable.ofCalls calls = .ok table)
    {cap : Option Nat} {line : List Char} {start state : StateId} {front : List Piece}
    {cursor behind : Cursor} {m : RuleMatch} {groups : List (Label × Span)} {i : Nat}
    (hpasses : table.Passes (.start line) start front cursor state)
    (hfree : cap.any (· ≤ front.length) = false)
    (hmatch : table.matchFrom? state cursor = some (m, behind))
    (hlabel : m.label = .groups groups)
    (hi : m.span.holds i = true)
    (vocabulary : Vocabulary) :
    labelAt? ((table.scan cap line start).1.map (Piece.labelled vocabulary)) i =
      some (groupLabelAt groups i) := by
  have hfits := matchFrom?_fits hmatch
  rw [hfits.span, Span.holds_iff] at hi
  dsimp only at hi
  obtain ⟨taken, _, hoffset, htiles⟩ := hpasses.tiles
  obtain ⟨back, hpieces⟩ := hpasses.scan_goes_on hfree hmatch
  have hcuts : m.cuts = groupCuts behind.offset cursor.offset groups := by
    rw [RuleMatch.cuts, hlabel, hfits.span]
  have hclear : ∀ group ∈ groups, group.2.stop ≤ cursor.offset ∨
      cursor.offset ≤ group.2.start := by
    intro group hgroup
    obtain ⟨first, _, hfirst, _, _, hspan⟩ := hfits.groups groups hlabel group hgroup
    rw [hspan]
    exact Or.inr hfirst.offset_le
  have hordered := matchFrom?_holdOrAvoid hbuild hmatch hlabel
  rw [hpieces, hcuts, List.map_append, List.map_append, labelAt?_append,
    labelAt?_append, htiles.labelAt?_eq_none vocabulary (by omega),
    labelAt?_groupCuts vocabulary hordered hclear hi.1 hi.2]
  rfl

/-- The label of every byte of a match with groups.  Outside of the groups it is
plain text.  It is the label of a group that holds the byte exactly if the byte
is not overtaken, or if such a group is labelled as plain text itself. -/
theorem Scanner.group_bytes_labelled {calls : List DraftCall} (scanner : Scanner)
    (hbuild : RuleTable.ofCalls calls = .ok scanner.table)
    {line : List Char} {start state : StateId} {front : List Piece} {cursor behind : Cursor}
    {m : RuleMatch} {groups : List (Label × Span)} {i : Nat}
    (hpasses : scanner.table.Passes (.start line) start front cursor state)
    (hfree : scanner.config.cap.any (· ≤ front.length) = false)
    (hmatch : scanner.table.matchFrom? state cursor = some (m, behind))
    (hlabel : m.label = .groups groups)
    (hi : m.span.holds i = true) :
    let label := Token.byteLabel? (scanner.line line start).tokens i
    label = some (groupLabelAt groups i) ∧
    ((∀ group ∈ groups, group.2.holds i = false) → label = some .text) ∧
    ((∃ group ∈ groups, group.2.holds i = true ∧ label = some group.1) ↔
      ∃ group ∈ groups, group.2.holds i = true ∧
        (overtaken groups i = false ∨ group.1 = .text)) := by
  intro label
  have hscan := RuleTable.labelAt?_scan hbuild hpasses hfree hmatch hlabel hi scanner.vocabulary
  have htiles := scanner.table.scan_tiles scanner.config.cap line start
  have hlabelled : label = some (groupLabelAt groups i) :=
    (htiles.byteLabel?_eq scanner.vocabulary (Nat.zero_le i)).trans hscan
  refine ⟨hlabelled, ?_, ?_⟩
  · intro houtside
    rw [hlabelled, groupLabelAt_of_outside houtside]
  · rw [hlabelled]
    cases hovertaken : overtaken groups i with
    | true =>
        rw [groupLabelAt_of_overtaken hovertaken]
        constructor
        · rintro ⟨group, hgroup, hholds, htext⟩
          exact ⟨group, hgroup, hholds, Or.inr (Option.some.inj htext).symm⟩
        · rintro ⟨group, hgroup, hholds, hcase⟩
          have htext : group.1 = .text := hcase.resolve_left Bool.true_eq_false.mp
          exact ⟨group, hgroup, hholds, congrArg some htext.symm⟩
    | false =>
        constructor
        · rintro ⟨group, hgroup, hholds, _⟩
          exact ⟨group, hgroup, hholds, Or.inl rfl⟩
        · rintro ⟨group, hgroup, hholds, _⟩
          obtain ⟨holder, hmem, hholder, hsame⟩ := exists_groupLabelAt hgroup hholds hovertaken
          exact ⟨holder, hmem, hholder, congrArg some hsame⟩

/-- Nested groups behind a plain character, below a cap of two. -/
theorem Scanner.group_bytes_labelled_nested :
    let table : RuleTable :=
      ⟨[⟨startName,
        [{ labelling := .groups [.keyword, .string, .numeric]
           source := "x((a)(b)?)"
           plan := .seq (.one (.single 'x'))
             (.group 1 (.seq (.group 2 (.one (.single 'a')))
               (.alt (.seq (.group 3 (.one (.single 'b'))) .empty) .empty)))
           next := none }]⟩], ⟨0⟩⟩
    let groups : List (Label × Span) :=
      [(.keyword, ⟨2, 4⟩), (.string, ⟨2, 3⟩), (.numeric, ⟨3, 4⟩)]
    let cursor := (Cursor.start "-xab".toList).past '-' "xab".toList
    let tokens := (Scanner.line ⟨table, .empty, ⟨some 2⟩⟩ "-xab".toList ⟨0⟩).tokens
    RuleTable.ofCalls
        [.state startName, .token (.groups [.keyword, .string, .numeric]) "x((a)(b)?)"] =
      .ok table ∧
    table.matchFrom? ⟨0⟩ cursor =
      some (⟨.groups groups, ⟨1, 4⟩, ⟨0⟩, 0⟩, ⟨4, some 'b', []⟩) ∧
    Token.byteLabel? tokens 1 = some .text ∧
    Token.byteLabel? tokens 3 = some .keyword := by
  intro table groups cursor tokens
  have hbuild : RuleTable.ofCalls
      [.state startName, .token (.groups [.keyword, .string, .numeric]) "x((a)(b)?)"] =
        .ok table := by
    decide +kernel
  have hmatch : table.matchFrom? ⟨0⟩ cursor =
      some (⟨.groups groups, ⟨1, 4⟩, ⟨0⟩, 0⟩, ⟨4, some 'b', []⟩) := by
    decide +kernel
  have hplain : table.matchFrom? ⟨0⟩ (.start "-xab".toList) = none := by decide +kernel
  have hpasses : table.Passes (.start "-xab".toList) ⟨0⟩
      [(Cursor.start "-xab".toList).plainPiece '-'] cursor ⟨0⟩ :=
    .head (.plain rfl hplain) (.refl _ _)
  have hlabelled := fun i => Scanner.group_bytes_labelled (i := i)
    ⟨table, .empty, ⟨some 2⟩⟩ hbuild hpasses (by decide) hmatch rfl
  exact ⟨hbuild, hmatch, (hlabelled 1 (by decide)).1, (hlabelled 3 (by decide)).1⟩

/-- What the second alternative took is overtaken when a later round takes the
first one. -/
theorem Scanner.group_byte_overtaken :
    let table : RuleTable :=
      ⟨[⟨startName,
        [{ labelling := .groups [.keyword, .string]
           source := "(?:(b)|(a))+"
           plan := .many true
             (.seq (.once 0 (.alt (.group 1 (.one (.single 'b'))) (.group 2 (.one (.single 'a')))))
               (.once 1 .empty))
           next := none }]⟩], ⟨0⟩⟩
    let groups : List (Label × Span) := [(.keyword, ⟨1, 2⟩), (.string, ⟨0, 1⟩)]
    let tokens := (Scanner.line ⟨table, .empty, .default⟩ "ab".toList ⟨0⟩).tokens
    RuleTable.ofCalls [.state startName, .token (.groups [.keyword, .string]) "(?:(b)|(a))+"] =
      .ok table ∧
    table.matchFrom? ⟨0⟩ (.start "ab".toList) =
      some (⟨.groups groups, ⟨0, 2⟩, ⟨0⟩, 0⟩, ⟨2, some 'b', []⟩) ∧
    Span.holds ⟨0, 1⟩ 0 = true ∧
    Token.byteLabel? tokens 0 = some .text ∧
    ¬ ∃ group ∈ groups,
      group.2.holds 0 = true ∧ Token.byteLabel? tokens 0 = some group.1 := by
  intro table groups tokens
  refine ⟨by decide +kernel, by decide +kernel, by decide, by decide +kernel, ?_⟩
  decide +kernel

end Highlighter
