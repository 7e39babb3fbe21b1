import Highlighter.Proofs.GreedyStrings
import Highlighter.Proofs.LineCover
import Mathlib.Tactic

/-!
# Labels of bytes

Tokens that cover a line give every byte of it a label.  Merging keeps this
labelling and leaves no two neighbours of one label, so a merged token ends
exactly where the label of the bytes changes.  That settles the merged tokens:
they are told by the line and by the labels of its bytes, wherever the tokens
had been cut before.
-/

namespace Highlighter

def Span.holds (span : Span) (i : Nat) : Bool :=
  span.start ≤ i && i < span.stop

theorem Span.holds_iff {span : Span} {i : Nat} :
    span.holds i = true ↔ span.start ≤ i ∧ i < span.stop := by
  simp [holds]

/-- The label of the first span that holds byte `i`. -/
def labelAt? (spans : List (Label × Span)) (i : Nat) : Option Label :=
  (spans.find? (·.2.holds i)).map Prod.fst

theorem labelAt?_cons (label : Label) (span : Span) (spans : List (Label × Span)) (i : Nat) :
    labelAt? ((label, span) :: spans) i =
      if span.holds i then some label else labelAt? spans i := by
  cases hholds : span.holds i <;> simp [labelAt?, hholds]

theorem TextSize.val_inj {a b : TextSize} : a.val = b.val ↔ a = b := by
  cases a
  cases b
  simp

theorem Text.slice?_append {start middle stop : Nat} {line xs ys : List Char}
    (hxs : slice? start middle line = some xs)
    (hys : slice? middle stop line = some ys) :
    slice? start stop line = some (xs ++ ys) := by
  obtain ⟨before, behind, hline, hstart, hmiddle⟩ := slice?_eq_some_iff.mp hxs
  obtain ⟨front, after, hline', hmiddle', hstop⟩ := slice?_eq_some_iff.mp hys
  have hcuts : (before ++ xs) ++ behind = front ++ (ys ++ after) := by
    rw [← hline, hline', List.append_assoc]
  obtain ⟨gap, hfront, hbehind⟩ := exists_between_cuts hcuts (by omega)
  have hgap : gap = [] := by
    rw [hfront, byteLength_append] at hmiddle'
    exact byteLength_eq_zero_iff.mp (by omega)
  rw [hgap, List.append_nil] at hfront
  rw [hfront] at hline' hstop
  refine slice?_eq_some_iff.mpr ⟨before, after, ?_, hstart, ?_⟩
  · rw [hline', ← List.append_assoc]
  · rw [hstop, ← List.append_assoc]

theorem Text.le_of_slice? {start stop : Nat} {line text : List Char}
    (hslice : slice? start stop line = some text) : stop ≤ byteLength line := by
  obtain ⟨before, after, hline, _, hstop⟩ := slice?_eq_some_iff.mp hslice
  rw [hline, hstop, byteLength_append (before ++ text)]
  omega

namespace Token

/-- What the token says of the bytes of its line. -/
def labelled (token : Token) : Label × Span :=
  (token.label, token.range.span)

/-- The tokens are the line from byte `pos` on, cut without gaps. -/
def Covers (line : List Char) : Nat → List Token → Prop
  | pos, [] => pos = Text.byteLength line
  | pos, token :: tokens =>
    token.range.start.val = pos ∧
    pos < token.range.stop.val ∧
    Text.slice? pos token.range.stop.val line = some token.text.toList ∧
    Covers line token.range.stop.val tokens

section Covers

variable {line : List Char} {pos : Nat} {token : Token} {tokens : List Token}

theorem Covers.abut (hcovers : Covers line pos tokens) :
    Abut pos (Text.byteLength line) tokens := by
  induction tokens generalizing pos with
  | nil => exact hcovers
  | cons token tokens ih => exact ⟨hcovers.1, ih hcovers.2.2.2⟩

theorem Covers.slice?_of_mem (hcovers : Covers line pos tokens) (htoken : token ∈ tokens) :
    token.range.start.val < token.range.stop.val ∧
      Text.slice? token.range.start.val token.range.stop.val line = some token.text.toList := by
  induction tokens generalizing pos with
  | nil => exact absurd htoken List.not_mem_nil
  | cons first tokens ih =>
      obtain ⟨hstart, hlt, hslice, hrest⟩ := hcovers
      rcases List.mem_cons.mp htoken with rfl | htoken
      · rw [hstart]
        exact ⟨hlt, hslice⟩
      · exact ih hrest htoken

theorem Covers.labelAt?_cons (hcovers : Covers line pos (token :: tokens)) {i : Nat}
    (hi : pos ≤ i) :
    labelAt? ((token :: tokens).map labelled) i =
      if i < token.range.stop.val then some token.label
      else labelAt? (tokens.map labelled) i := by
  have hholds : token.range.span.holds i = decide (i < token.range.stop.val) := by
    have hstart := hcovers.1
    simp [Span.holds, TextRange.span, hstart, hi]
  rw [List.map_cons, labelled, Highlighter.labelAt?_cons, hholds]
  simp

theorem Covers.exists_labelAt? (hcovers : Covers line pos tokens) {i : Nat}
    (hi : pos ≤ i) (hline : i < Text.byteLength line) :
    ∃ label, labelAt? (tokens.map labelled) i = some label := by
  induction tokens generalizing pos with
  | nil =>
      have hend : pos = Text.byteLength line := hcovers
      omega
  | cons token tokens ih =>
      rw [hcovers.labelAt?_cons hi]
      split
      next => exact ⟨token.label, rfl⟩
      next hbehind => exact ih hcovers.2.2.2 (by omega)

/-! ## Merging -/

theorem continues_iff {next : Token} :
    token.continues next = true ↔
      token.label = next.label ∧ token.range.stop = next.range.start := by
  simp [continues]

theorem Covers.mergeInto (hcovers : Covers line pos (token :: tokens)) :
    Covers line pos (token.mergeInto tokens) := by
  cases tokens with
  | nil => exact hcovers
  | cons next tokens =>
      obtain ⟨hstart, hlt, hslice, _, hnext, hslice', hrest⟩ := hcovers
      rw [Token.mergeInto]
      split
      next hcontinues =>
        refine ⟨hstart, hlt.trans hnext, ?_, hrest⟩
        rw [join, String.toList_append]
        exact Text.slice?_append hslice hslice'
      next => exact ⟨hstart, hlt, hslice, ‹_›, hnext, hslice', hrest⟩

theorem Covers.labelAt?_mergeInto (hcovers : Covers line pos (token :: tokens)) {i : Nat}
    (hi : pos ≤ i) :
    labelAt? ((token.mergeInto tokens).map labelled) i =
      labelAt? ((token :: tokens).map labelled) i := by
  cases tokens with
  | nil => rfl
  | cons next tokens =>
      have hmerged := hcovers.mergeInto
      rw [Token.mergeInto] at hmerged ⊢
      split at hmerged
      next hcontinues =>
        have hlabel := (continues_iff.mp hcontinues).1
        have hstop := hcovers.2.2.2.2.1
        rw [hcontinues, if_pos rfl, hmerged.labelAt?_cons hi, hcovers.labelAt?_cons hi]
        by_cases hfirst : i < token.range.stop.val
        · have hboth : i < (token.join next).range.stop.val := hfirst.trans hstop
          rw [if_pos hfirst, if_pos hboth, join]
        · rw [if_neg hfirst, hcovers.2.2.2.labelAt?_cons (by omega), join, hlabel]
      next hcontinues => rw [if_neg hcontinues]

/-- Neighbours have different labels. -/
abbrev Alternates (tokens : List Token) : Prop :=
  tokens.IsChain (·.label ≠ ·.label)

theorem Covers.alternates_mergeInto (hcovers : Covers line pos (token :: tokens))
    (halternates : Alternates tokens) : Alternates (token.mergeInto tokens) := by
  cases tokens with
  | nil => exact List.isChain_singleton token
  | cons next tokens =>
      rw [Token.mergeInto]
      split
      next hcontinues =>
        have hlabel := (continues_iff.mp hcontinues).1
        cases tokens with
        | nil => exact List.isChain_singleton _
        | cons third tokens =>
            rw [Alternates, List.isChain_cons_cons] at halternates ⊢
            exact ⟨by rw [join, hlabel]; exact halternates.1, halternates.2⟩
      next hcontinues =>
        refine List.isChain_cons_cons.mpr ⟨?_, halternates⟩
        intro hlabel
        have htouch : token.range.stop = next.range.start :=
          TextSize.val_inj.mp hcovers.2.2.2.1.symm
        exact hcontinues (continues_iff.mpr ⟨hlabel, htouch⟩)

theorem Covers.merge (hcovers : Covers line pos tokens) : Covers line pos (merge tokens) := by
  induction tokens generalizing pos with
  | nil => exact hcovers
  | cons token tokens ih =>
      obtain ⟨hstart, hlt, hslice, hrest⟩ := hcovers
      exact Covers.mergeInto ⟨hstart, hlt, hslice, ih hrest⟩

theorem Covers.labelAt?_merge (hcovers : Covers line pos tokens) {i : Nat} (hi : pos ≤ i) :
    labelAt? ((Token.merge tokens).map labelled) i = labelAt? (tokens.map labelled) i := by
  induction tokens generalizing pos with
  | nil => rfl
  | cons token tokens ih =>
      obtain ⟨hstart, hlt, hslice, hrest⟩ := id hcovers
      have hmerged : Covers line pos (token :: Token.merge tokens) :=
        ⟨hstart, hlt, hslice, hrest.merge⟩
      rw [Token.merge, hmerged.labelAt?_mergeInto hi, hmerged.labelAt?_cons hi,
        hcovers.labelAt?_cons hi]
      split
      next => rfl
      next hbehind => exact ih hrest (by omega)

theorem Covers.alternates_merge (hcovers : Covers line pos tokens) :
    Alternates (Token.merge tokens) := by
  induction tokens generalizing pos with
  | nil => exact List.isChain_nil
  | cons token tokens ih =>
      obtain ⟨hstart, hlt, hslice, hrest⟩ := hcovers
      have hmerged : Covers line pos (token :: Token.merge tokens) :=
        ⟨hstart, hlt, hslice, hrest.merge⟩
      exact hmerged.alternates_mergeInto (ih hrest)

theorem merge_of_alternates (halternates : Alternates tokens) : merge tokens = tokens := by
  induction tokens with
  | nil => rfl
  | cons token tokens ih =>
      rw [merge, ih halternates.tail]
      cases tokens with
      | nil => rfl
      | cons next tokens =>
          have hlabel := (List.isChain_cons_cons.mp halternates).1
          have hbreak : ¬ token.continues next = true :=
            fun hcontinues => hlabel (continues_iff.mp hcontinues).1
          rw [mergeInto, if_neg hbreak]

end Covers

/-! ## One list of merged tokens for each labelling -/

section Unique

variable {line : List Char} {pos : Nat} {x y : Token} {xs ys : List Token}

/-- The first of the tokens ends where the label changes, so it does not end
before another one that begins in the same place. -/
theorem Covers.stop_le
    (hxs : Covers line pos (x :: xs))
    (hys : Covers line pos (y :: ys))
    (halternates : Alternates (x :: xs))
    (hlabels : ∀ i, pos ≤ i → i < Text.byteLength line →
      labelAt? ((x :: xs).map labelled) i = labelAt? ((y :: ys).map labelled) i) :
    y.range.stop.val ≤ x.range.stop.val := by
  by_contra hlt
  rw [not_le] at hlt
  have hx := hxs.2.1
  have hend := Text.le_of_slice? hys.2.2.1
  have hfirst := hlabels pos le_rfl (by omega)
  rw [hxs.labelAt?_cons le_rfl, hys.labelAt?_cons le_rfl, if_pos hx, if_pos hys.2.1] at hfirst
  have hchange := hlabels x.range.stop.val (by omega) (by omega)
  rw [hxs.labelAt?_cons (by omega), hys.labelAt?_cons (by omega), if_neg (lt_irrefl _),
    if_pos hlt, ← hfirst] at hchange
  cases xs with
  | nil =>
      have hdone : x.range.stop.val = Text.byteLength line := hxs.2.2.2
      omega
  | cons next xs =>
      have hnext := hxs.2.2.2
      rw [hnext.labelAt?_cons le_rfl, if_pos hnext.2.1] at hchange
      exact (List.isChain_cons_cons.mp halternates).1 (Option.some.inj hchange).symm

theorem Covers.eq_of_labelAt?_eq
    (hxs : Covers line pos xs)
    (hys : Covers line pos ys)
    (hxalternates : Alternates xs)
    (hyalternates : Alternates ys)
    (hlabels : ∀ i, pos ≤ i → i < Text.byteLength line →
      labelAt? (xs.map labelled) i = labelAt? (ys.map labelled) i) :
    xs = ys := by
  induction xs generalizing pos ys with
  | nil =>
      cases ys with
      | nil => rfl
      | cons y ys =>
          have hdone : pos = Text.byteLength line := hxs
          have hlt := hys.2.1
          have hend := Text.le_of_slice? hys.2.2.1
          omega
  | cons x xs ih =>
      cases ys with
      | nil =>
          have hdone : pos = Text.byteLength line := hys
          have hlt := hxs.2.1
          have hend := Text.le_of_slice? hxs.2.2.1
          omega
      | cons y ys =>
          have hstop : x.range.stop.val = y.range.stop.val :=
            le_antisymm
              (hys.stop_le hxs hyalternates fun i hi hline => (hlabels i hi hline).symm)
              (hxs.stop_le hys hxalternates hlabels)
          have hbound := Text.le_of_slice? hxs.2.2.1
          have hlabel := hlabels pos le_rfl (lt_of_lt_of_le hxs.2.1 hbound)
          rw [hxs.labelAt?_cons le_rfl, hys.labelAt?_cons le_rfl, if_pos hxs.2.1,
            if_pos hys.2.1] at hlabel
          have htext : x.text = y.text := by
            have hslice := hxs.2.2.1
            rw [hstop, hys.2.2.1] at hslice
            exact (String.toList_inj.mp (Option.some.inj hslice)).symm
          have hrange : x.range = y.range := by
            have hstart : x.range.start.val = y.range.start.val := hxs.1.trans hys.1.symm
            rw [TextRange.mk.injEq]
            exact ⟨TextSize.val_inj.mp hstart, TextSize.val_inj.mp hstop⟩
          have htoken : x = y := by
            rw [Token.mk.injEq]
            exact ⟨Option.some.inj hlabel, htext, hrange⟩
          have hrest : xs = ys := by
            refine ih hxs.2.2.2 (hstop ▸ hys.2.2.2) hxalternates.tail hyalternates.tail ?_
            intro i hi hline
            have hsame := hlabels i (by have := hxs.2.1; omega) hline
            rwa [hxs.labelAt?_cons (by have := hxs.2.1; omega),
              hys.labelAt?_cons (by have := hxs.2.1; omega), if_neg (by omega),
              if_neg (by omega)] at hsame
          rw [htoken, hrest]

end Unique

end Token

/-! ## Lines -/

theorem Tiles.covers {line : List Char} {pos : Nat} {text : List Char} {pieces : List Piece}
    (htiles : Tiles pos text pieces) {front : List Char}
    (hline : line = front ++ text) (hfront : Text.byteLength front = pos)
    (vocabulary : Vocabulary) (hsize : Text.byteLength line ≤ TextSize.greatest) :
    Token.Covers line pos (pieces.map (Piece.token vocabulary)) := by
  induction htiles generalizing front with
  | nil pos =>
      rw [hline, List.append_nil, List.map_nil, Token.Covers, hfront]
  | @cons pos piece rest pieces hne hspan _ ih =>
      have haround : line = front ++ piece.text ++ rest := by rw [hline, List.append_assoc]
      have hlength := congrArg Text.byteLength haround
      rw [Text.byteLength_append, Text.byteLength_append] at hlength
      have hpos := Text.byteLength_pos hne
      have hstart : (piece.token vocabulary).range.start.val = pos := by
        simp only [Piece.token, hspan, TextRange.start_ofSpan]
        exact TextSize.val_of (by omega)
      have hstop : (piece.token vocabulary).range.stop.val =
          pos + Text.byteLength piece.text := by
        simp only [Piece.token, hspan, TextRange.stop_ofSpan]
        exact TextSize.val_of (by omega)
      have hslice := Piece.slice?_token vocabulary haround
        (by rw [hspan, Text.byteLength_append, hfront]) hsize
      rw [hstart] at hslice
      have hlonger : Text.byteLength (front ++ piece.text) = pos + Text.byteLength piece.text := by
        rw [Text.byteLength_append, hfront]
      have hrest := ih haround hlonger
      rw [← hstop] at hrest
      exact ⟨hstart, by omega, hslice, hrest⟩

theorem Scanner.line_tokens_cover (scanner : Scanner) {line : List Char} (state : StateId)
    (hsize : Text.byteLength line ≤ TextSize.greatest) :
    Token.Covers line 0 (scanner.line line state).tokens :=
  (scanner.table.scan_tiles scanner.config.cap line state).covers (List.nil_append line).symm
    Text.byteLength_nil scanner.vocabulary hsize

/-- The merged tokens of a line are one and the same for all scans that give
its bytes the same labels. -/
theorem Scanner.merged_is_canonical (scanner : Scanner) (line : List Char) (state : StateId)
    (hsize : Text.byteLength line ≤ TextSize.greatest) :
    let tokens := (scanner.line line state).tokens
    let merged := (scanner.line line state).merged
    Token.Abut 0 (Text.byteLength line) merged ∧
    (∀ token ∈ merged,
      token.range.start.val < token.range.stop.val ∧
      Text.slice? token.range.start.val token.range.stop.val line = some token.text.toList) ∧
    (∀ i < Text.byteLength line, ∃ label,
      labelAt? (tokens.map Token.labelled) i = some label ∧
      labelAt? (merged.map Token.labelled) i = some label) ∧
    merged.IsChain (·.label ≠ ·.label) ∧
    (∀ endState, LineTokens.merged ⟨merged, endState⟩ = merged) ∧
    ∀ (other : Scanner) (otherState : StateId),
      (∀ i < Text.byteLength line,
        labelAt? ((other.line line otherState).tokens.map Token.labelled) i =
          labelAt? (tokens.map Token.labelled) i) →
      (other.line line otherState).merged = merged := by
  intro tokens merged
  have hcovers : Token.Covers line 0 tokens := scanner.line_tokens_cover state hsize
  have hmerged : Token.Covers line 0 merged := hcovers.merge
  have halternates : Token.Alternates merged := hcovers.alternates_merge
  refine ⟨hmerged.abut, fun token htoken => hmerged.slice?_of_mem htoken, ?_, halternates,
    fun _ => Token.merge_of_alternates halternates, ?_⟩
  · intro i hi
    obtain ⟨label, hlabel⟩ := hcovers.exists_labelAt? (Nat.zero_le i) hi
    exact ⟨label, hlabel, (hcovers.labelAt?_merge (Nat.zero_le i)).trans hlabel⟩
  · intro other otherState hlabels
    have hother := other.line_tokens_cover otherState hsize
    refine hother.merge.eq_of_labelAt?_eq hmerged hother.alternates_merge halternates ?_
    intro i hi hline
    calc
      labelAt? ((other.line line otherState).merged.map Token.labelled) i =
          labelAt? ((other.line line otherState).tokens.map Token.labelled) i :=
        hother.labelAt?_merge hi
      _ = labelAt? (tokens.map Token.labelled) i := hlabels i hline
      _ = labelAt? (merged.map Token.labelled) i := (hcovers.labelAt?_merge hi).symm

/-- The end of a string, taken in a run by one table and by characters by the
other, whose scan a cap ends behind the string. -/
theorem Scanner.merged_is_canonical_capped :
    Text.byteLength "aé\" ".toList ≤ TextSize.greatest ∧
    (Scanner.line ⟨CellTail.tableWith CellTail.runRule, .empty, ⟨none⟩⟩ "aé\" ".toList ⟨1⟩).merged =
      (Scanner.line ⟨CellTail.builtTable, .empty, ⟨some 3⟩⟩ "aé\" ".toList ⟨1⟩).merged := by
  have hsize : Text.byteLength "aé\" ".toList ≤ TextSize.greatest := by decide
  refine ⟨hsize, ?_⟩
  refine (Scanner.merged_is_canonical ⟨CellTail.builtTable, .empty, ⟨some 3⟩⟩ _ ⟨1⟩
    hsize).2.2.2.2.2 _ ⟨1⟩ ?_
  decide +kernel

end Highlighter
