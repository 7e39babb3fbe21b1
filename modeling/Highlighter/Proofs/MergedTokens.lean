import Highlighter.Proofs.FollowedPieces
import Mathlib.Tactic

/-!
# Merging tokens

Merging puts the tokens of a line in front of one another from the last to the
first.  So what stands in front of merged tokens may be changed without a look
at them, and a token may be cut in two where it stands: the first half
continues the second.
-/

namespace Highlighter

namespace Token

theorem merge_append (xs ys : List Token) :
    merge (xs ++ ys) = xs.foldr mergeInto (merge ys) := by
  induction xs with
  | nil => rfl
  | cons x xs ih => rw [List.cons_append, merge, ih, List.foldr_cons]

/-- Two tokens of which one continues the other are merged as one. -/
theorem mergeInto_join {token next : Token} (hcontinues : token.continues next = true)
    (tokens : List Token) :
    (token.join next).mergeInto tokens = token.mergeInto (next.mergeInto tokens) := by
  have hlabel : token.label = next.label := by
    simp only [continues, Bool.and_eq_true, beq_iff_eq] at hcontinues
    exact hcontinues.1
  cases tokens with
  | nil => simp [mergeInto, hcontinues]
  | cons third tokens =>
      have hthird : (token.join next).continues third = next.continues third := by
        simp only [continues, join, hlabel]
      by_cases hnext : next.continues third = true
      · have hjoined : token.continues (next.join third) = true := hcontinues
        simp only [mergeInto, hthird, hnext, hjoined, if_true]
        simp only [join, String.append_assoc]
      · simp [mergeInto, hthird, hnext, hcontinues]

end Token

section Halves

variable (words : Vocabulary) (cursor : Cursor) (label : Label) (xs ys : List Char)

theorem continues_token_piece :
    ((cursor.piece (.label label) xs).token words).continues
      (((cursor.after xs).piece (.label label) ys).token words) = true := by
  simp [Token.continues, Cursor.piece, Piece.token, Mark.resolve]

theorem join_token_piece :
    ((cursor.piece (.label label) xs).token words).join
        (((cursor.after xs).piece (.label label) ys).token words) =
      (cursor.piece (.label label) (xs ++ ys)).token words := by
  simp [Token.join, Cursor.piece, Piece.token, Mark.resolve, TextRange.ofSpan,
    Cursor.after_append, String.ofList_append]

/-- A piece with a label of its own may be cut in two. -/
theorem mergeInto_token_piece (tokens : List Token) :
    ((cursor.piece (.label label) (xs ++ ys)).token words).mergeInto tokens =
      ((cursor.piece (.label label) xs).token words).mergeInto
        ((((cursor.after xs).piece (.label label) ys).token words).mergeInto tokens) := by
  rw [← join_token_piece]
  exact Token.mergeInto_join (continues_token_piece words cursor label xs ys) tokens

end Halves

end Highlighter
