import Highlighter.Proofs.ByteOffsets
import Highlighter.Text.LineIndex
import Mathlib.Tactic

/-!
# Splitting texts into lines

`Text.lines` splits a text without counting bytes.  A cut through a text cuts
at most one of its lines in two: the lines before it are those of the first
part and the lines behind it are those of the second part.  The one exception
is a cut between a carriage return and a line feed, where the first part ends
in an empty line and the second part begins with one, and the whole has
neither.
-/

namespace Highlighter

namespace Text

/-- The lines of a text without their terminators. -/
def lines : List Char → List (List Char)
  | [] => [[]]
  | '\r' :: '\n' :: cs => [] :: lines cs
  | c :: cs =>
    if c = '\n' ∨ c = '\r' then [] :: lines cs
    else (lines cs).modifyHead (c :: ·)

/-- `c` ends a line, and is not the first half of a longer terminator. -/
def EndsLine (c : Char) (cs : List Char) : Prop :=
  (c = '\n' ∨ c = '\r') ∧ ¬ (c = '\r' ∧ cs.head? = some '\n')

@[simp] theorem lines_nil : lines [] = [[]] := by
  simp [lines]

@[simp] theorem lines_crlf (cs : List Char) :
    lines ('\r' :: '\n' :: cs) = [] :: lines cs := by
  simp [lines]

theorem lines_terminator {c : Char} {cs : List Char} (hend : EndsLine c cs) :
    lines (c :: cs) = [] :: lines cs := by
  obtain ⟨hc, hjoin⟩ := hend
  rw [lines]
  · exact if_pos hc
  · rintro rest rfl rfl
    exact hjoin ⟨rfl, rfl⟩

theorem lines_plain {c : Char} (cs : List Char) (hc : ¬ (c = '\n' ∨ c = '\r')) :
    lines (c :: cs) = (lines cs).modifyHead (c :: ·) := by
  rw [lines]
  · exact if_neg hc
  · rintro rest rfl
    exact absurd (Or.inr rfl) hc

theorem line_cases (motive : List Char → Prop)
    (nil : motive [])
    (crlf : ∀ cs, motive cs → motive ('\r' :: '\n' :: cs))
    (terminator : ∀ c cs, EndsLine c cs → motive cs → motive (c :: cs))
    (plain : ∀ c cs, ¬ (c = '\n' ∨ c = '\r') → motive cs → motive (c :: cs))
    (cs : List Char) : motive cs := by
  induction cs using lines.induct with
  | case1 => exact nil
  | case2 cs ih => exact crlf cs ih
  | case3 c cs hjoin hc ih =>
      refine terminator c cs ⟨hc, ?_⟩ ih
      rintro ⟨hreturn, hfeed⟩
      obtain ⟨rest, rfl⟩ := List.head?_eq_some_iff.mp hfeed
      exact hjoin rest hreturn rfl
  | case4 c cs hjoin hc ih => exact plain c cs hc ih

@[simp] theorem modifyHead_nil_append (ls : List (List Char)) :
    ls.modifyHead ([] ++ ·) = ls := by
  cases ls <;> simp

theorem lines_ne_nil (cs : List Char) : lines cs ≠ [] := by
  induction cs using line_cases with
  | nil => simp
  | crlf cs ih => simp
  | terminator c cs hend ih => simp [lines_terminator hend]
  | plain c cs hc ih => simpa [lines_plain cs hc] using ih

theorem EndsLine.utf8Size {c : Char} {cs : List Char} (hend : EndsLine c cs) :
    c.utf8Size = 1 := by
  rcases hend.1 with rfl | rfl <;> rfl

theorem byteLength_crlf (cs : List Char) :
    byteLength ('\r' :: '\n' :: cs) = 2 + byteLength cs := by
  have hreturn : '\r'.utf8Size = 1 := rfl
  have hfeed : '\n'.utf8Size = 1 := rfl
  rw [byteLength_cons, byteLength_cons, hreturn, hfeed]
  omega

/-- What ends a line still does when text is added behind, unless a cut has
parted a carriage return from its line feed. -/
theorem EndsLine.append {x : Char} {xs : List Char} (hend : EndsLine x xs) (ys : List Char) :
    EndsLine x (xs ++ ys) ∨ x = '\r' ∧ xs = [] ∧ ∃ rest, ys = '\n' :: rest := by
  by_cases hfeed : x = '\r' ∧ (xs ++ ys).head? = some '\n'
  · right
    cases xs with
    | nil => exact ⟨hfeed.1, rfl, List.head?_eq_some_iff.mp hfeed.2⟩
    | cons y xs => exact absurd hfeed hend.2
  · exact Or.inl ⟨hend.1, hfeed⟩

theorem lines_length_pos (cs : List Char) : 0 < (lines cs).length :=
  List.length_pos_of_ne_nil (lines_ne_nil cs)

/-- A cut through a text leaves at most one line that belongs to both parts. -/
theorem lines_append (xs ys : List Char) :
    ∃ middle,
      lines (xs ++ ys) = (lines xs).dropLast ++ middle ++ (lines ys).tail ∧
      0 < ((lines xs).dropLast ++ middle).length ∧
      middle.length ≤ 1 := by
  induction xs using line_cases with
  | nil =>
      obtain ⟨first, rest, hlines⟩ := List.exists_cons_of_ne_nil (lines_ne_nil ys)
      exact ⟨[first], by simp [hlines], by simp, by simp⟩
  | crlf xs ih =>
      obtain ⟨middle, hlines, _, hmiddle⟩ := ih
      refine ⟨middle, ?_, ?_, hmiddle⟩
      · simp [hlines, List.dropLast_cons_of_ne_nil (lines_ne_nil xs)]
      · simp [List.dropLast_cons_of_ne_nil (lines_ne_nil xs)]
  | terminator x xs hend ih =>
      obtain ⟨middle, hlines, _, hmiddle⟩ := ih
      rw [lines_terminator hend, List.dropLast_cons_of_ne_nil (lines_ne_nil xs)]
      rcases hend.append ys with hwhole | ⟨rfl, rfl, rest, rfl⟩
      · refine ⟨middle, ?_, by simp, hmiddle⟩
        simp [lines_terminator hwhole, hlines]
      · have hrest : lines ('\n' :: rest) = [] :: lines rest :=
          lines_terminator (by simp [EndsLine])
        exact ⟨[], by simp [hrest], by simp, by simp⟩
  | plain x xs hx ih =>
      obtain ⟨middle, hlines, hpos, hmiddle⟩ := ih
      rw [lines_plain xs hx, List.cons_append, lines_plain (xs ++ ys) hx, hlines]
      obtain ⟨first, rest, hfirst⟩ := List.exists_cons_of_ne_nil (lines_ne_nil xs)
      rw [hfirst] at hpos ⊢
      cases rest with
      | nil =>
          obtain ⟨line, rfl⟩ : ∃ line, middle = [line] := by
            rw [← List.length_eq_one_iff]
            simp at hpos
            omega
          exact ⟨[x :: line], by simp, by simp, by simp⟩
      | cons second rest => exact ⟨middle, by simp, by simp, hmiddle⟩

end Text

namespace LineIndex

theorem split_terminator {c : Char} {cs : List Char} (start offset : Nat)
    (hend : Text.EndsLine c cs) :
    split start offset (c :: cs) =
      .ofSpan ⟨start, offset⟩ :: split (offset + 1) (offset + 1) cs := by
  obtain ⟨hc, hjoin⟩ := hend
  rw [split]
  · exact if_pos hc
  · rintro rest rfl rfl
    exact hjoin ⟨rfl, rfl⟩

theorem split_plain {c : Char} (start offset : Nat) (cs : List Char)
    (hc : ¬ (c = '\n' ∨ c = '\r')) :
    split start offset (c :: cs) = split start (offset + c.utf8Size) cs := by
  rw [split]
  · exact if_neg hc
  · rintro rest rfl
    exact absurd (Or.inr rfl) hc

/-! ## Looking up offsets -/

theorem head_split (start offset : Nat) (cs : List Char) :
    ∃ stop ranges, split start offset cs = .ofSpan ⟨start, stop⟩ :: ranges := by
  induction cs using Text.line_cases generalizing start offset with
  | nil => exact ⟨_, _, by rw [split]⟩
  | crlf cs ih => exact ⟨_, _, by rw [split]⟩
  | terminator c cs hend ih => exact ⟨_, _, split_terminator _ _ hend⟩
  | plain c cs hc ih =>
      rw [split_plain _ _ _ hc]
      exact ih start (offset + c.utf8Size)

private theorem start_lt_of_mem_split
    {offset next : Nat} {cs : List Char}
    (hnext : offset < next) (hsize : next ≤ TextSize.greatest)
    (htail : ∀ range ∈ (split next next cs).tail, next < range.start.val) :
    ∀ range ∈ split next next cs, offset < range.start.val := by
  intro range hrange
  obtain ⟨stop, ranges, hsplit⟩ := head_split next next cs
  rw [hsplit] at hrange htail
  rcases List.mem_cons.mp hrange with rfl | hrange
  · rw [TextRange.start_ofSpan, TextSize.val_of hsize]
    exact hnext
  · have hbehind := htail range hrange
    omega

/-- Every line but the current one begins behind what has been read. -/
theorem start_lt_of_mem_tail_split
    (start : Nat) {offset : Nat} {cs : List Char}
    (hsize : offset + Text.byteLength cs ≤ TextSize.greatest) :
    ∀ range ∈ (split start offset cs).tail, offset < range.start.val := by
  induction cs using Text.line_cases generalizing start offset with
  | nil => simp [split]
  | crlf cs ih =>
      rw [Text.byteLength_crlf] at hsize
      rw [split, List.tail_cons]
      exact start_lt_of_mem_split (by omega) (by omega) (ih _ (by omega))
  | terminator c cs hend ih =>
      rw [Text.byteLength_cons, hend.utf8Size] at hsize
      rw [split_terminator _ _ hend, List.tail_cons]
      exact start_lt_of_mem_split (by omega) (by omega) (ih _ (by omega))
  | plain c cs hc ih =>
      rw [Text.byteLength_cons] at hsize
      rw [split_plain _ _ _ hc]
      intro range hrange
      have hbehind := ih start (by omega) range hrange
      omega

private theorem takeWhile_start_eq_nil {ranges : List TextRange} {bound : Nat}
    (hranges : ∀ range ∈ ranges, bound < range.start.val) :
    ranges.takeWhile (fun range => range.start.val ≤ bound) = [] := by
  cases ranges with
  | nil => rfl
  | cons range ranges =>
      have hrange := hranges range List.mem_cons_self
      simp [hrange]

private theorem takeWhile_start_cons {start bound : Nat} (stop : Nat)
    (ranges : List TextRange) (hstart : min start TextSize.greatest ≤ bound) :
    ((.ofSpan ⟨start, stop⟩ :: ranges).takeWhile
        fun range : TextRange => range.start.val ≤ bound) =
      .ofSpan ⟨start, stop⟩ :: ranges.takeWhile fun range => range.start.val ≤ bound := by
  apply List.takeWhile_cons_of_pos
  exact decide_eq_true hstart

/-- At most one of the lines up to a cut begins behind the bound, if the cut does
not lie behind it.  A cut may part a terminator, and then the last line of the
first part is none of the whole. -/
theorem length_lines_le_takeWhile_split
    {start offset bound : Nat} (xs ys : List Char)
    (hstart : start ≤ offset)
    (hbound : min (offset + Text.byteLength xs) TextSize.greatest ≤ bound) :
    (Text.lines xs).length ≤
      ((split start offset (xs ++ ys)).takeWhile
        fun range => range.start.val ≤ bound).length + 1 := by
  induction xs using Text.line_cases generalizing start offset with
  | nil => simp
  | crlf xs ih =>
      rw [Text.byteLength_crlf] at hbound
      have hrest := ih (le_refl (offset + 2)) (by omega)
      rw [List.cons_append, List.cons_append, split, takeWhile_start_cons _ _ (by omega),
        Text.lines_crlf, List.length_cons, List.length_cons]
      omega
  | terminator x xs hend ih =>
      rw [Text.byteLength_cons, hend.utf8Size] at hbound
      rw [List.cons_append, Text.lines_terminator hend, List.length_cons]
      rcases hend.append ys with hwhole | ⟨rfl, rfl, rest, rfl⟩
      · have hrest := ih (le_refl (offset + 1)) (by omega)
        rw [split_terminator _ _ hwhole, takeWhile_start_cons _ _ (by omega), List.length_cons]
        omega
      · rw [List.nil_append, split, takeWhile_start_cons _ _ (by omega)]
        simp
  | plain x xs hx ih =>
      rw [Text.byteLength_cons] at hbound
      have hrest := ih (hstart.trans (Nat.le_add_right offset x.utf8Size)) (by omega)
      rw [List.cons_append, split_plain _ _ _ hx, Text.lines_plain _ hx, List.length_modifyHead]
      exact hrest

/-- However long the text, a cut lies in the last of the lines before it, or in
the one before that. -/
theorem length_lines_le_lineOf (xs ys : List Char) {offset : TextSize}
    (hoffset : (TextSize.of (Text.byteLength xs)).val ≤ offset.val) :
    (Text.lines xs).length ≤ (ofText (xs ++ ys)).lineOf offset + 2 := by
  have hbound : min (0 + Text.byteLength xs) TextSize.greatest ≤
      (offset.min (.of (Text.byteLength (xs ++ ys)))).val := by
    rw [Nat.zero_add]
    unfold TextSize.min
    split
    next => exact hoffset
    next =>
      rw [Text.byteLength_append]
      simp only [TextSize.of]
      omega
  have hcount := length_lines_le_takeWhile_split xs ys (le_refl 0) hbound
  refine hcount.trans (Nat.add_le_add_right ?_ 1)
  exact Nat.le_add_of_sub_le (le_refl _)

/-- The lines that begin up to a cut of the text are those that the text has
more than what lies behind the cut, and the one that is cut. -/
theorem length_takeWhile_split
    {start offset : Nat} (xs ys : List Char)
    (hstart : start ≤ offset)
    (hsize : offset + Text.byteLength (xs ++ ys) ≤ TextSize.greatest) :
    ((split start offset (xs ++ ys)).takeWhile
        fun range => range.start.val ≤ offset + Text.byteLength xs).length +
        (Text.lines ys).length =
      (Text.lines (xs ++ ys)).length + 1 := by
  induction xs using Text.line_cases generalizing start offset with
  | nil =>
      obtain ⟨stop, ranges, hsplit⟩ := head_split start offset ys
      have htail := start_lt_of_mem_tail_split start (by simpa using hsize)
      rw [hsplit, List.tail_cons] at htail
      rw [List.nil_append, Text.byteLength_nil, Nat.add_zero, hsplit,
        takeWhile_start_cons stop ranges (by omega), takeWhile_start_eq_nil htail]
      simp [Nat.add_comm]
  | crlf xs ih =>
      rw [List.cons_append, List.cons_append, Text.byteLength_crlf] at hsize
      have hrest := ih (le_refl (offset + 2)) (by omega)
      rw [Text.byteLength_crlf, ← Nat.add_assoc, List.cons_append, List.cons_append, split,
        takeWhile_start_cons _ _ (by omega), Text.lines_crlf, List.length_cons,
        List.length_cons]
      omega
  | terminator x xs hend ih =>
      rw [List.cons_append, Text.byteLength_cons, hend.utf8Size] at hsize
      rw [Text.byteLength_cons, hend.utf8Size, ← Nat.add_assoc, List.cons_append]
      rcases hend.append ys with hwhole | ⟨rfl, rfl, rest, rfl⟩
      · have hrest := ih (le_refl (offset + 1)) (by omega)
        rw [split_terminator _ _ hwhole, takeWhile_start_cons _ _ (by omega),
          Text.lines_terminator hwhole, List.length_cons, List.length_cons]
        omega
      · -- The line feed still belongs to the line before the cut.
        have hfeed : Text.EndsLine '\n' rest := by simp [Text.EndsLine]
        rw [List.nil_append, Text.byteLength_cons, hfeed.utf8Size] at hsize
        have hbehind : ∀ range ∈ split (offset + 2) (offset + 2) rest,
            offset + 1 < range.start.val :=
          start_lt_of_mem_split (by omega) (by omega)
            (start_lt_of_mem_tail_split _ (by omega))
        rw [List.nil_append, Text.byteLength_nil, Nat.add_zero, split,
          takeWhile_start_cons _ _ (by omega), takeWhile_start_eq_nil hbehind,
          Text.lines_terminator hfeed, Text.lines_crlf]
        simp [Nat.add_comm]
  | plain x xs hx ih =>
      rw [List.cons_append, Text.byteLength_cons] at hsize
      have hrest := ih (hstart.trans (Nat.le_add_right offset x.utf8Size)) (by omega)
      rw [List.cons_append, split_plain _ _ _ hx, Text.lines_plain _ hx,
        Text.byteLength_cons, ← Nat.add_assoc, List.length_modifyHead]
      exact hrest

theorem lineOf_append {xs ys : List Char}
    (hsize : Text.byteLength (xs ++ ys) ≤ TextSize.greatest) :
    (ofText (xs ++ ys)).lineOf (.of (Text.byteLength xs)) + (Text.lines ys).length =
      (Text.lines (xs ++ ys)).length := by
  have hcount := length_takeWhile_split xs ys (le_refl 0) (by simpa using hsize)
  obtain ⟨stop, ranges, hsplit⟩ := head_split 0 0 (xs ++ ys)
  rw [Nat.zero_add, hsplit, takeWhile_start_cons _ _ (by simp), List.length_cons] at hcount
  have hxs : Text.byteLength xs ≤ Text.byteLength (xs ++ ys) := by simp
  have hoffset :
      ((TextSize.of (Text.byteLength xs)).min (.of (Text.byteLength (xs ++ ys)))).val =
        Text.byteLength xs := by
    rw [TextSize.min, TextSize.val_of (by omega), TextSize.val_of hsize, if_pos hxs,
      TextSize.val_of (by omega)]
  simp only [lineOf, ofText, hoffset]
  rw [hsplit, takeWhile_start_cons _ _ (by simp), List.length_cons]
  omega

/-- The lines of a text around the one that holds a cut. -/
theorem lines_around_lineOf {text xs ys : List Char} (htext : text = xs ++ ys)
    (hsize : Text.byteLength text ≤ TextSize.greatest)
    {line : Nat} (hline : (ofText text).lineOf (.of (Text.byteLength xs)) = line) :
    line < (Text.lines text).length ∧
    line < (Text.lines xs).length ∧
    (Text.lines xs).length ≤ line + 2 ∧
    (∀ n ≤ line, (Text.lines text).take n = (Text.lines xs).take n) ∧
    (Text.lines text).drop (line + 1) = (Text.lines ys).tail := by
  subst htext
  have hcount := lineOf_append hsize
  rw [hline] at hcount
  obtain ⟨middle, hlines, hpos, hmiddle⟩ := Text.lines_append xs ys
  have hxs := Text.lines_length_pos xs
  have hys := Text.lines_length_pos ys
  have hfront : line + 1 = ((Text.lines xs).dropLast ++ middle).length := by
    have hlength := congrArg List.length hlines
    rw [List.length_append, List.length_tail] at hlength
    omega
  have hdropLast : ((Text.lines xs).dropLast ++ middle).length =
      (Text.lines xs).length - 1 + middle.length := by simp
  refine ⟨by omega, by omega, by omega, ?_, ?_⟩
  · intro n hn
    rw [hlines, List.append_assoc, List.take_append_of_le_length (by simp; omega),
      List.dropLast_eq_take, List.take_take, Nat.min_eq_left (by omega)]
  · rw [hlines, hfront, List.drop_left]

theorem lineOf_mono (index : LineIndex) {a b : TextSize} (hab : a.val ≤ b.val) :
    index.lineOf a ≤ index.lineOf b := by
  have hmin : (a.min index.textLength).val ≤ (b.min index.textLength).val := by
    unfold TextSize.min
    split <;> split <;> omega
  unfold lineOf
  apply Nat.sub_le_sub_right
  induction index.lines with
  | nil => simp
  | cons range ranges ih =>
      by_cases hrange : range.start.val ≤ (a.min index.textLength).val
      · have hrange' := hrange.trans hmin
        simpa [hrange, hrange'] using ih
      · simp [hrange]

/-! ## Beyond the greatest offset -/

section Beyond

variable {xs ys : List Char}
  (hxs : ∀ c ∈ xs, ¬ (c = '\n' ∨ c = '\r')) (hys : ∀ c ∈ ys, ¬ (c = '\n' ∨ c = '\r'))

include hxs

theorem split_plain_append (start offset : Nat) (ys : List Char) :
    split start offset (xs ++ ys) = split start (offset + Text.byteLength xs) ys := by
  induction xs generalizing offset with
  | nil => simp
  | cons x xs ih =>
      rw [List.forall_mem_cons] at hxs
      rw [List.cons_append, split_plain _ _ _ hxs.1, ih hxs.2, Text.byteLength_cons,
        Nat.add_assoc]

include hys

theorem lines_ofText_two :
    (ofText (xs ++ '\n' :: ys)).lines =
      [.ofSpan ⟨0, Text.byteLength xs⟩,
        .ofSpan ⟨Text.byteLength xs + 1, Text.byteLength xs + 1 + Text.byteLength ys⟩] := by
  have hfeed : Text.EndsLine '\n' ys := by simp [Text.EndsLine]
  have hlast := split_plain_append hys (Text.byteLength xs + 1) (Text.byteLength xs + 1) []
  rw [List.append_nil] at hlast
  rw [ofText, split_plain_append hxs, split_terminator _ _ hfeed, Nat.zero_add, hlast, split]

/-- A second line that begins beyond the greatest offset is found at this offset
only. -/
theorem lineOf_beyond (hlong : TextSize.greatest ≤ Text.byteLength xs) (offset : TextSize) :
    (ofText (xs ++ '\n' :: ys)).lineOf offset =
      if offset.val = TextSize.greatest then 1 else 0 := by
  have hval : offset.val ≤ TextSize.greatest := Nat.le_of_lt_succ offset.val_lt
  have hoffset :
      (offset.min (ofText (xs ++ '\n' :: ys)).textLength).val = offset.val := by
    rw [TextSize.min, if_pos]
    simp only [ofText, TextSize.of, Text.byteLength_append]
    omega
  have hsecond : (TextSize.of (Text.byteLength xs + 1)).val = TextSize.greatest :=
    Nat.min_eq_right (by omega)
  rw [lineOf, hoffset, lines_ofText_two hxs hys, takeWhile_start_cons _ _ (by simp)]
  by_cases hgreatest : offset.val = TextSize.greatest
  · rw [if_pos hgreatest, takeWhile_start_cons _ _ (by omega)]
    rfl
  · have hbehind : ∀ range ∈ [TextRange.ofSpan
        ⟨Text.byteLength xs + 1, Text.byteLength xs + 1 + Text.byteLength ys⟩],
        offset.val < range.start.val := by
      intro range hrange
      rw [List.mem_singleton.mp hrange, TextRange.start_ofSpan, hsecond]
      omega
    rw [if_neg hgreatest, takeWhile_start_eq_nil hbehind]
    rfl

end Beyond

end LineIndex

end Highlighter
