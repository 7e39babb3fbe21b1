import Highlighter.Proofs.LeftContext
import Mathlib.Tactic

/-!
# Scanning the rest of a line

A table whose plans do not look back scans what is left of a line as it scans a
line of its own: the same rules match, and every offset is further on by the
bytes that lie before.  This is carried from matches over their cuts and pieces
to whole runs of the loop, and to the tokens, whose sizes may saturate.
-/

namespace Highlighter

/-! ## Matches -/

def MatchLabel.shift (bytes : Nat) : MatchLabel → MatchLabel
  | whole label => .whole label
  | groups spans => .groups (spans.map fun group => (group.1, group.2.shift bytes))
  | classify => .classify

def RuleMatch.shift (bytes : Nat) (m : RuleMatch) : RuleMatch :=
  { m with label := m.label.shift bytes, span := m.span.shift bytes }

section Matches

variable {bytes : Nat}

theorem Thread.Moved.group?_eq {same : Bool} {thread moved : Thread}
    (hmoved : thread.Moved bytes same moved) (index : Nat) :
    moved.group? index = (thread.group? index).map (Span.shift bytes) := by
  unfold Thread.group?
  rw [hmoved.groups]
  induction thread.groups with
  | nil => rfl
  | cons group groups ih =>
      rw [List.map_cons, List.lookup_cons, List.lookup_cons, ih]
      cases index == group.1 <;> rfl

theorem Thread.Moved.groupSpans_eq {same : Bool} {thread moved : Thread}
    (hmoved : thread.Moved bytes same moved) (index : Nat) (labels : List Label) :
    groupSpans moved index labels =
      (groupSpans thread index labels).map fun group => (group.1, group.2.shift bytes) := by
  induction labels generalizing index with
  | nil => rfl
  | cons label labels ih =>
      simp only [groupSpans, hmoved.group?_eq, ih]
      cases thread.group? index <;> rfl

theorem Thread.Moved.ofMatch_eq {same : Bool} {thread moved : Thread}
    (hmoved : thread.Moved bytes same moved) (labelling : Labelling) :
    labelling.ofMatch moved = (labelling.ofMatch thread).shift bytes := by
  cases labelling with
  | whole label => rfl
  | classify => rfl
  | groups labels =>
      simp only [Labelling.ofMatch, MatchLabel.shift, hmoved.groupSpans_eq]

/-- The same rule matches, further on. -/
theorem firstMatch?_moved {cursor moved : Cursor} (hmoved : cursor.Moved bytes false moved)
    {rules : List Rule} (hblind : ∀ rule ∈ rules, rule.plan.blind = true)
    (state : StateId) (index : Nat) :
    Option.Rel
      (fun found found' => found'.1 = found.1.shift bytes ∧ found.2.Moved bytes false found'.2)
      (firstMatch? state cursor index rules) (firstMatch? state moved index rules) := by
  induction rules generalizing index with
  | nil => exact .none
  | cons rule rules ih =>
      have hrule := Plan.matchAt?_moved (hblind rule List.mem_cons_self) hmoved
      have hrest := ih (fun rule hmem => hblind rule (List.mem_cons_of_mem _ hmem)) (index + 1)
      simp only [firstMatch?]
      generalize rule.plan.matchAt? cursor = found at hrule
      generalize rule.plan.matchAt? moved = found' at hrule
      cases hrule with
      | none => exact hrest
      | @some thread thread' hthread =>
          simp only [hmoved.offset, hthread.cursor.offset, Nat.add_lt_add_iff_right]
          by_cases hlt : cursor.offset < thread.cursor.offset
          · rw [if_pos hlt, if_pos hlt]
            refine .some ⟨?_, hthread.cursor⟩
            simp only [RuleMatch.shift, Span.shift, hthread.ofMatch_eq]
          · rw [if_neg hlt, if_neg hlt]
            exact hrest

end Matches

/-! ## Pieces -/

def Piece.shift (bytes : Nat) (piece : Piece) : Piece :=
  { piece with span := piece.span.shift bytes }

theorem Span.isEmpty_shift (bytes : Nat) (span : Span) :
    (span.shift bytes).isEmpty = span.isEmpty := by
  simp [isEmpty, shift]

theorem groupCuts_shift (bytes stop pos : Nat) (groups : List (Label × Span)) :
    groupCuts (stop + bytes) (pos + bytes)
        (groups.map fun group => (group.1, group.2.shift bytes)) =
      (groupCuts stop pos groups).map fun cut => (cut.1, cut.2 + bytes) := by
  induction groups generalizing pos with
  | nil =>
      simp only [List.map_nil, groupCuts, Nat.add_lt_add_iff_right]
      split <;> rfl
  | cons group groups ih =>
      obtain ⟨label, span⟩ := group
      have hstart : (span.shift bytes).start = span.start + bytes := rfl
      have hstop : (span.shift bytes).stop = span.stop + bytes := rfl
      simp only [List.map_cons, groupCuts, hstart, hstop, span.isEmpty_shift,
        Nat.add_lt_add_iff_right, ih]
      split
      · rfl
      · split <;> rfl

theorem RuleMatch.cuts_shift (bytes : Nat) (m : RuleMatch) :
    (m.shift bytes).cuts = m.cuts.map fun cut => (cut.1, cut.2 + bytes) := by
  obtain ⟨label, span, next, rule⟩ := m
  cases label with
  | whole label => rfl
  | classify => rfl
  | groups groups => exact groupCuts_shift bytes span.stop span.start groups

theorem cutPieces_shift (bytes pos : Nat) (text : List Char) (cuts : List (Mark × Nat)) :
    cutPieces (pos + bytes) text (cuts.map fun cut => (cut.1, cut.2 + bytes)) =
      (cutPieces pos text cuts).map (Piece.shift bytes) := by
  induction cuts generalizing pos text with
  | nil => rfl
  | cons cut cuts ih =>
      simp only [List.map_cons, cutPieces, Nat.add_sub_add_right, ih]
      rfl

/-! ## Runs -/

namespace RuleTable

/-- No rule of the table sees what stands before its matches. -/
def Blind (table : RuleTable) : Prop :=
  ∀ state, ∀ rule ∈ table.rules state, rule.plan.blind = true

section Runs

variable {table : RuleTable} {bytes : Nat} {cursor cursor' behind : Cursor}
  {state next : StateId} {pieces : List Piece}

theorem ScanStep.moved (hblind : table.Blind) (hmoved : cursor.Moved bytes false cursor')
    (hstep : table.ScanStep cursor state pieces behind next) :
    ∃ behind',
      table.ScanStep cursor' state (pieces.map (Piece.shift bytes)) behind' next ∧
      behind.Moved bytes false behind' := by
  have hfirst : Option.Rel _ (table.matchFrom? state cursor) (table.matchFrom? state cursor') :=
    firstMatch?_moved hmoved (hblind state) state 0
  cases hstep with
  | @matched _ _ m hne hmatch =>
      rw [hmatch] at hfirst
      generalize hmatch' : table.matchFrom? state cursor' = found at hfirst
      cases hfirst with
      | @some _ found hfound =>
          obtain ⟨m', behind'⟩ := found
          obtain ⟨hm, hbehind⟩ := hfound
          obtain rfl : m' = m.shift bytes := hm
          rw [← hmoved.rest] at hne
          have hstep' := ScanStep.matched hne hmatch'
          rw [m.cuts_shift, hmoved.rest, hmoved.offset, cutPieces_shift] at hstep'
          exact ⟨behind', hstep', hbehind⟩
  | @plain _ c cs hrest hnone =>
      rw [hnone] at hfirst
      generalize hmatch' : table.matchFrom? state cursor' = found at hfirst
      cases hfirst with
      | none =>
          have hbehind := (hmoved.past c cs).weaken fun hsame => absurd hsame Bool.false_ne_true
          have hpiece : cursor'.plainPiece c = (cursor.plainPiece c).shift bytes := by
            simp only [Cursor.plainPiece, Piece.shift, Span.shift, hmoved.offset]
            rw [Nat.add_right_comm]
          rw [← hmoved.rest] at hrest
          have hstep' := ScanStep.plain hrest hmatch'
          rw [hpiece] at hstep'
          exact ⟨cursor'.past c cs, hstep', hbehind⟩

theorem Scans.moved (hblind : table.Blind) {count : Nat} {result : List Piece × StateId}
    (hscan : table.Scans none cursor state count result)
    (hmoved : cursor.Moved bytes false cursor') (count' : Nat) :
    table.Scans none cursor' state count' (result.1.map (Piece.shift bytes), result.2) := by
  induction hscan using Scans.step_induction generalizing cursor' count' with
  | done hrest => exact .done (hmoved.rest.trans hrest)
  | capped _ hcap => simp at hcap
  | step _ _ hstep _ ih =>
      obtain ⟨behind', hstep', hbehind⟩ := hstep.moved hblind hmoved
      rw [List.map_append]
      exact .of_step rfl hstep' (ih hbehind _)

end Runs

end RuleTable

/-! ## Tokens -/

/-- The size further on by a number of bytes, or the greatest one. -/
def TextSize.shift (bytes : Nat) (size : TextSize) : TextSize :=
  .of (size.val + bytes)

def TextRange.shift (bytes : Nat) (range : TextRange) : TextRange :=
  ⟨range.start.shift bytes, range.stop.shift bytes⟩

def Token.shift (bytes : Nat) (token : Token) : Token :=
  { token with range := token.range.shift bytes }

/-- It makes no difference whether a size saturates before it is shifted. -/
theorem TextSize.shift_of (bytes n : Nat) : (of n).shift bytes = of (n + bytes) := by
  simp only [shift, of, TextSize.mk.injEq]
  omega

theorem Piece.token_shift (bytes : Nat) (words : Vocabulary) (piece : Piece) :
    (piece.shift bytes).token words = (piece.token words).shift bytes := by
  simp only [token, shift, Token.shift, TextRange.shift, TextRange.ofSpan, Span.shift,
    TextSize.shift_of]

end Highlighter
