import Highlighter.Proofs.LineTerminators

/-!
# Looking up offsets

Every terminator has a byte, so the lines of a text begin at strictly
increasing offsets, empty lines included.  The lines that begin up to an
offset are therefore the first ones, and the last of them is the only line
that can hold the offset.  Offsets inside a character or a terminator are
offsets like any other.
-/

namespace Highlighter

namespace Text

theorem assemble_take_succ {texts ends : List (List Char)} {n : Nat}
    {text ending : List Char}
    (htext : texts[n]? = some text) (hending : ends[n]? = some ending) :
    assemble (texts.take (n + 1)) (ends.take (n + 1)) =
      assemble (texts.take n) (ends.take n) ++ text ++ ending := by
  unfold assemble
  rw [← List.take_zipWith, ← List.take_zipWith, List.take_add_one, List.flatten_append,
    List.getElem?_zipWith, htext, hending]
  simp

theorem lt_of_slice? {start stop : Nat} {text middle : List Char}
    (hslice : slice? start stop text = some middle) (hne : middle ≠ []) : start < stop := by
  obtain ⟨before, after, _, rfl, rfl⟩ := slice?_eq_some_iff.mp hslice
  have hpos := byteLength_pos hne
  rw [byteLength_append]
  omega

end Text

namespace LineIndex

/-- The line begins up to the offset, and the line behind it, if there is one,
begins further on. -/
def Holds (index : LineIndex) (line offset : Nat) : Prop :=
  (∃ range, index.range? line = some range ∧ range.start.val ≤ offset) ∧
  ∀ next, index.range? (line + 1) = some next → offset < next.start.val

/-! ## Lines in order -/

def InOrder (ranges : List TextRange) : Prop :=
  ranges.Pairwise fun first second => first.start.val < second.start.val

theorem inOrder_cons {start offset : Nat} {ranges : List TextRange}
    (hstart : start ≤ offset)
    (hbehind : ∀ range ∈ ranges, offset < range.start.val)
    (hranges : InOrder ranges) :
    InOrder (.ofSpan ⟨start, offset⟩ :: ranges) := by
  refine List.pairwise_cons.mpr ⟨?_, hranges⟩
  intro range hrange
  have hval : (TextSize.of start).val ≤ start := Nat.min_le_left _ _
  exact (hval.trans hstart).trans_lt (hbehind range hrange)

theorem split_inOrder {start offset : Nat} {cs : List Char}
    (hstart : start ≤ offset)
    (hsize : offset + Text.byteLength cs ≤ TextSize.greatest) :
    InOrder (split start offset cs) := by
  have hbehind := start_lt_of_mem_tail_split start hsize
  induction cs using Text.line_cases generalizing start offset with
  | nil =>
      rw [split]
      exact List.pairwise_singleton _ _
  | crlf cs ih =>
      rw [split] at hbehind ⊢
      rw [Text.byteLength_crlf] at hsize
      have hrest : offset + 2 + Text.byteLength cs ≤ TextSize.greatest := by omega
      apply inOrder_cons hstart hbehind
      exact ih (le_refl _) hrest (start_lt_of_mem_tail_split _ hrest)
  | terminator c cs hend ih =>
      rw [split_terminator _ _ hend] at hbehind ⊢
      rw [Text.byteLength_cons, hend.utf8Size] at hsize
      have hrest : offset + 1 + Text.byteLength cs ≤ TextSize.greatest := by omega
      apply inOrder_cons hstart hbehind
      exact ih (le_refl _) hrest (start_lt_of_mem_tail_split _ hrest)
  | plain c cs hc ih =>
      rw [Text.byteLength_cons] at hsize
      have hrest : offset + c.utf8Size + Text.byteLength cs ≤ TextSize.greatest := by omega
      rw [split_plain _ _ _ hc]
      exact ih (by omega) hrest (start_lt_of_mem_tail_split start hrest)

/-- Of lines in order, those that begin up to a bound are the first ones. -/
theorem InOrder.lt_length_takeWhile_iff {ranges : List TextRange} (horder : InOrder ranges)
    (bound line : Nat) :
    line < (ranges.takeWhile fun range => range.start.val ≤ bound).length ↔
      ∃ range, ranges[line]? = some range ∧ range.start.val ≤ bound := by
  induction ranges generalizing line with
  | nil => simp
  | cons first ranges ih =>
      obtain ⟨hfirst, hrest⟩ := List.pairwise_cons.mp horder
      by_cases hle : first.start.val ≤ bound
      · rw [List.takeWhile_cons_of_pos (by simpa using hle), List.length_cons]
        cases line with
        | zero => simpa using hle
        | succ line =>
            rw [Nat.add_lt_add_iff_right, ih hrest line, List.getElem?_cons_succ]
      · rw [List.takeWhile_cons_of_neg (by simpa using hle)]
        constructor
        · intro hlt
          exact absurd hlt (Nat.not_lt_zero line)
        · rintro ⟨range, hrange, hbound⟩
          rcases List.mem_cons.mp (List.mem_of_getElem? hrange) with rfl | hmem
          · exact absurd hbound hle
          · exact absurd ((hfirst range hmem).le.trans hbound) hle

section Text

variable {text : List Char} (hsize : Text.byteLength text ≤ TextSize.greatest)

include hsize

theorem val_min_textLength (offset : Nat) :
    ((TextSize.of offset).min (ofText text).textLength).val =
      min offset (Text.byteLength text) := by
  have hlength : (ofText text).textLength.val = Text.byteLength text := TextSize.val_of hsize
  have hoffset : (TextSize.of offset).val = min offset TextSize.greatest := rfl
  unfold TextSize.min
  split <;> omega

theorem lineOf_eq_iff (offset line : Nat) :
    (ofText text).lineOf (.of offset) = line ↔
      (ofText text).Holds line (min offset (Text.byteLength text)) := by
  have horder : InOrder (ofText text).lines :=
    split_inOrder (le_refl 0) (by rwa [Nat.zero_add])
  have hbegun := horder.lt_length_takeWhile_iff (min offset (Text.byteLength text))
  have hfirst : ∃ range, (ofText text).lines[0]? = some range ∧
      range.start.val ≤ min offset (Text.byteLength text) := by
    obtain ⟨stop, ranges, hsplit⟩ := head_split 0 0 text
    refine ⟨.ofSpan ⟨0, stop⟩, ?_, Nat.zero_le _⟩
    rw [ofText, hsplit, List.getElem?_cons_zero]
  have hpos := (hbegun 0).mpr hfirst
  have hline := hbegun line
  have hnext := hbegun (line + 1)
  simp only [lineOf, val_min_textLength hsize]
  unfold Holds range?
  rw [← hline]
  constructor
  · intro hlast
    refine ⟨by omega, ?_⟩
    intro next hget
    by_contra hlt
    have hmore := hnext.mpr ⟨next, hget, by omega⟩
    omega
  · rintro ⟨hlt, hbehind⟩
    have hstop : ¬ line + 1 <
        ((ofText text).lines.takeWhile fun range =>
          range.start.val ≤ min offset (Text.byteLength text)).length := by
      intro hmore
      obtain ⟨next, hget, hle⟩ := hnext.mp hmore
      have hgt := hbehind next hget
      omega
    omega

theorem lineOf_lt_lineCount (offset : Nat) :
    (ofText text).lineOf (.of offset) < (ofText text).lineCount := by
  obtain ⟨⟨range, hrange, _⟩, _⟩ := (lineOf_eq_iff hsize offset _).mp rfl
  exact (List.getElem?_eq_some_iff.mp hrange).1

/-! ## Where a line stands -/

omit hsize in
theorem exists_line_of_range? {line : Nat} {range : TextRange}
    (hrange : (ofText text).range? line = some range) :
    ∃ content, (Text.lines text)[line]? = some content := by
  have hline : line < (ofText text).lineCount := (List.getElem?_eq_some_iff.mp hrange).1
  rw [lineCount_ofText] at hline
  exact ⟨_, List.getElem?_eq_getElem hline⟩

theorem range?_bounds {line : Nat} {range : TextRange}
    (hrange : (ofText text).range? line = some range) :
    range.start.val ≤ range.stop.val ∧ range.stop.val ≤ Text.byteLength text := by
  obtain ⟨content, hcontent⟩ := exists_line_of_range? hrange
  obtain ⟨behind, htext⟩ := Text.exists_behind_line hcontent
  have hlength := congrArg Text.byteLength htext
  rw [range?_ofText hcontent, Option.some.injEq] at hrange
  rw [← hrange, TextRange.start_ofSpan, TextRange.stop_ofSpan]
  simp only [Text.byteLength_append] at hlength ⊢
  rw [TextSize.val_of (by omega), TextSize.val_of (by omega)]
  omega

/-- Between a line and the next one stands what ends it. -/
theorem exists_terminator_between {line : Nat} {range next : TextRange}
    (hrange : (ofText text).range? line = some range)
    (hnext : (ofText text).range? (line + 1) = some next) :
    ∃ terminator,
      Text.slice? range.stop.val next.start.val text = some terminator ∧
      (terminator = ['\n'] ∨ terminator = ['\r', '\n'] ∨ terminator = ['\r']) := by
  obtain ⟨content, hcontent⟩ := exists_line_of_range? hrange
  obtain ⟨content', hcontent'⟩ := exists_line_of_range? hnext
  obtain ⟨terminator, hterminator⟩ :
      ∃ terminator, (Text.terminators text)[line]? = some terminator := by
    have hlast := (List.getElem?_eq_some_iff.mp hcontent').1
    rw [Text.length_lines] at hlast
    exact ⟨_, List.getElem?_eq_getElem (by omega)⟩
  obtain ⟨behind, htext⟩ := Text.exists_behind_line hcontent'
  have hfront := Text.assemble_take_succ hcontent hterminator
  rw [range?_ofText hcontent, Option.some.injEq] at hrange
  rw [range?_ofText hcontent', Option.some.injEq] at hnext
  rw [hfront] at htext hnext
  have hlength := congrArg Text.byteLength htext
  refine ⟨terminator, ?_, Text.eq_of_mem_terminators (List.mem_of_getElem? hterminator)⟩
  rw [← hrange, ← hnext, TextRange.stop_ofSpan, TextRange.start_ofSpan]
  simp only [Text.byteLength_append] at hlength
  rw [TextSize.val_of (by simp only [Text.byteLength_append]; omega),
    TextSize.val_of (by simp only [Text.byteLength_append]; omega)]
  exact Text.slice?_eq_some_iff.mpr
    ⟨_, content' ++ behind, by rw [← List.append_assoc]; exact htext, rfl, rfl⟩

theorem stop_lt_start_next {line : Nat} {range next : TextRange}
    (hrange : (ofText text).range? line = some range)
    (hnext : (ofText text).range? (line + 1) = some next) :
    range.stop.val < next.start.val := by
  obtain ⟨terminator, hslice, hends⟩ := exists_terminator_between hsize hrange hnext
  apply Text.lt_of_slice? hslice
  rcases hends with rfl | rfl | rfl <;> exact List.cons_ne_nil _ _

theorem lineOf_eq_of_between {line offset : Nat} {range : TextRange}
    (hrange : (ofText text).range? line = some range)
    (hstart : range.start.val ≤ offset)
    (hbehind : ∀ next, (ofText text).range? (line + 1) = some next → offset < next.start.val) :
    (ofText text).lineOf (.of offset) = line := by
  obtain ⟨hstop, hlength⟩ := range?_bounds hsize hrange
  apply (lineOf_eq_iff hsize offset line).mpr
  constructor
  · exact ⟨range, hrange, le_min hstart (hstop.trans hlength)⟩
  · intro next hnext
    exact (Nat.min_le_left _ _).trans_lt (hbehind next hnext)

end Text

/-! ## What the lookup promises -/

/-- Offsets are looked up as the lines of the text lie. -/
structure Locates (index : LineIndex) (text : List Char) : Prop where
  lineOf_iff : ∀ offset line,
    index.lineOf (.of offset) = line ↔
      index.Holds line (min offset (Text.byteLength text))
  content : ∀ line range offset,
    index.range? line = some range →
    range.start.val ≤ offset →
    offset ≤ range.stop.val →
    index.lineOf (.of offset) = line
  terminator : ∀ line range next,
    index.range? line = some range →
    index.range? (line + 1) = some next →
    ∃ terminator,
      Text.slice? range.stop.val next.start.val text = some terminator ∧
      (terminator = ['\n'] ∨ terminator = ['\r', '\n'] ∨ terminator = ['\r']) ∧
      ∀ offset,
        range.stop.val ≤ offset →
        offset < next.start.val →
        index.lineOf (.of offset) = line
  mono : ∀ first second,
    first ≤ second → index.lineOf (.of first) ≤ index.lineOf (.of second)
  lt_lineCount : ∀ offset, index.lineOf (.of offset) < index.lineCount

/-- An offset is looked up as the one line that holds it. -/
theorem ofText_locates {text : List Char} (hsize : Text.byteLength text ≤ TextSize.greatest) :
    (ofText text).Locates text := by
  constructor
  · exact lineOf_eq_iff hsize
  · intro line range offset hrange hstart hstop
    apply lineOf_eq_of_between hsize hrange hstart
    intro next hnext
    exact hstop.trans_lt (stop_lt_start_next hsize hrange hnext)
  · intro line range next hrange hnext
    obtain ⟨terminator, hslice, hends⟩ := exists_terminator_between hsize hrange hnext
    refine ⟨terminator, hslice, hends, ?_⟩
    intro offset hstop hlt
    have hbounds := range?_bounds hsize hrange
    apply lineOf_eq_of_between hsize hrange (hbounds.1.trans hstop)
    intro next' hnext'
    obtain rfl := Option.some.inj (hnext.symm.trans hnext')
    exact hlt
  · intro first second hle
    apply lineOf_mono
    exact min_le_min_right _ hle
  · exact lineOf_lt_lineCount hsize

/-- An empty line, the place between a carriage return and its line feed, the
inside of a character, and an offset far behind the text. -/
theorem ofText_locates_inside_terminator :
    Text.byteLength ['\n', 'a', '\r', '\n', 'é'] ≤ TextSize.greatest ∧
    (ofText ['\n', 'a', '\r', '\n', 'é']).Locates ['\n', 'a', '\r', '\n', 'é'] ∧
    [0, 1, 2, 3, 4, 5, 0xFFFFFFFFFFFFFFFF].map
        (fun offset => (ofText ['\n', 'a', '\r', '\n', 'é']).lineOf (.of offset)) =
      [0, 1, 1, 1, 2, 2, 2] := by
  have hsize : Text.byteLength ['\n', 'a', '\r', '\n', 'é'] ≤ TextSize.greatest := by decide
  exact ⟨hsize, ofText_locates hsize, by decide⟩

end LineIndex

end Highlighter
