import Highlighter.Proofs.IncrementalHighlighting

/-!
# Texts beyond the greatest offset

The second line of a text of two lines may begin beyond the greatest offset.  It
is then kept as an empty line, whatever stands in it.  A deletion that brings the
text back into reach of the offsets does not scan it again: either the line is
kept empty as it is, or it is taken away together with the first one, since the
end of the deletion seems to lie in it.
-/

namespace Highlighter

namespace LineIndex

theorem slice?_point (text : List Char) (size : TextSize) :
    (slice? text ⟨size, size⟩).getD [] = [] := by
  cases hslice : slice? text ⟨size, size⟩ with
  | none => rfl
  | some middle =>
      obtain ⟨before, after, _, hstart, hstop⟩ := Text.slice?_eq_some_iff.mp hslice
      rw [hstart, Text.byteLength_append] at hstop
      have hzero : Text.byteLength middle = 0 := by omega
      exact Text.byteLength_eq_zero_iff.mp hzero

theorem mem_of_mem_slice? {text : List Char} {range : TextRange} {c : Char}
    (hmem : c ∈ (slice? text range).getD []) : c ∈ text := by
  cases hslice : slice? text range with
  | none => simp [hslice] at hmem
  | some middle =>
      obtain ⟨before, after, rfl, _⟩ := Text.slice?_eq_some_iff.mp hslice
      rw [hslice, Option.getD_some] at hmem
      simp [hmem]

/-- The line beyond the greatest offset is empty. -/
theorem contents_beyond {xs ys : List Char}
    (hxs : ∀ c ∈ xs, ¬ (c = '\n' ∨ c = '\r')) (hys : ∀ c ∈ ys, ¬ (c = '\n' ∨ c = '\r'))
    (hlong : TextSize.greatest ≤ Text.byteLength xs) :
    ∃ front,
      (∀ c ∈ front, c ∈ xs ++ '\n' :: ys) ∧
      (ofText (xs ++ '\n' :: ys)).contents (xs ++ '\n' :: ys) = [front, []] := by
  have hlast : TextRange.ofSpan
      ⟨Text.byteLength xs + 1, Text.byteLength xs + 1 + Text.byteLength ys⟩ =
        ⟨.of (Text.byteLength xs + 1), .of (Text.byteLength xs + 1)⟩ := by
    simp only [TextRange.ofSpan, TextSize.of, TextRange.mk.injEq, TextSize.mk.injEq, true_and]
    omega
  refine ⟨(slice? (xs ++ '\n' :: ys) (.ofSpan ⟨0, Text.byteLength xs⟩)).getD [],
    fun c => mem_of_mem_slice?, ?_⟩
  rw [contents, lines_ofText_two hxs hys, hlast, List.map_cons, List.map_singleton, slice?_point]

theorem lineOf_zero {text : List Char} (hsize : Text.byteLength text ≤ TextSize.greatest) :
    (ofText text).lineOf (.of 0) = 0 := by
  have hlines := @lineOf_append [] text hsize
  simpa using hlines

end LineIndex

namespace Document

section Beyond

variable (scanner : Scanner) {xs ys cut rest : List Char}
  (hxs : ∀ c ∈ xs, ¬ (c = '\n' ∨ c = '\r')) (hys : ∀ c ∈ ys, ¬ (c = '\n' ∨ c = '\r'))
  (hlong : TextSize.greatest ≤ Text.byteLength xs)
  (htext : cut ++ rest = xs ++ '\n' :: ys)
  (hrest : Text.byteLength rest ≤ TextSize.greatest)

theorem delete_replaces (cut rest : List Char) :
    (Edit.delete 0 (Text.byteLength cut)).Replaces (cut ++ rest) rest :=
  ⟨[], cut, rest, rfl, rfl, rfl, rfl⟩

include hxs hys hlong htext

theorem lines_ofText_beyond :
    ∃ front,
      (∀ c ∈ front, c ∈ cut ++ rest) ∧
      (ofText scanner (cut ++ rest)).lines =
        [scanner.entry scanner.table.start front,
          scanner.entry (scanner.line front scanner.table.start).endState []] := by
  obtain ⟨front, hfront, hcontents⟩ := LineIndex.contents_beyond hxs hys hlong
  rw [htext]
  refine ⟨front, hfront, ?_⟩
  rw [ofText, hcontents]
  rfl

include hrest

theorem window_delete_beyond :
    (ofText scanner (cut ++ rest)).window (.delete 0 (Text.byteLength cut))
        (LineIndex.ofText rest) =
      ⟨0, if TextSize.greatest ≤ Text.byteLength cut then 1 else 0, 0⟩ := by
  have hgreatest : (TextSize.of (Text.byteLength cut)).val = TextSize.greatest ↔
      TextSize.greatest ≤ Text.byteLength cut := min_eq_right_iff
  have hfirst : ((ofText scanner (cut ++ rest)).index).lineOf (.of 0) = 0 := by
    rw [ofText, htext, LineIndex.lineOf_beyond hxs hys hlong, if_neg (by decide)]
  have hlast : ((ofText scanner (cut ++ rest)).index).lineOf (.of (Text.byteLength cut)) =
      if TextSize.greatest ≤ Text.byteLength cut then 1 else 0 := by
    rw [ofText, htext, LineIndex.lineOf_beyond hxs hys hlong]
    simp only [hgreatest]
  have hnew : (LineIndex.ofText rest).lineOf (.of (0 + Text.byteLength [])) = 0 :=
    LineIndex.lineOf_zero hrest
  simp only [window, Edit.delete, hfirst, hlast, hnew]

/-- The deletion is made, though the lines it leaves are not those of the text. -/
theorem edited_delete_beyond :
    (ofText scanner (cut ++ rest)).edited (.delete 0 (Text.byteLength cut)) =
      ((ofText scanner (cut ++ rest)).rehighlight rest (.ofText rest)
        ⟨0, if TextSize.greatest ≤ Text.byteLength cut then 1 else 0, 0⟩).1 := by
  obtain ⟨front, _, hlines⟩ := lines_ofText_beyond scanner hxs hys hlong htext
  have hcount : (ofText scanner (cut ++ rest)).lineCount = 2 := by rw [lineCount, hlines]; rfl
  have hfits : EditWindow.Fits
      ⟨0, if TextSize.greatest ≤ Text.byteLength cut then 1 else 0, 0⟩ 2 := by
    split <;> decide
  have hupdate :=
    @update_of_replaces (ofText scanner (cut ++ rest)) _ _ (delete_replaces cut rest)
  rw [window_delete_beyond scanner hxs hys hlong htext hrest, hcount, if_pos hfits] at hupdate
  exact edited_of_update hupdate

/-- A deletion up to the greatest offset or beyond it takes both lines away and
puts one in their place. -/
theorem edited_delete_all (hcut : TextSize.greatest ≤ Text.byteLength cut) :
    (ofText scanner (cut ++ rest)).edited (.delete 0 (Text.byteLength cut)) =
      { scanner
        text := rest
        index := .ofText rest
        lines :=
          scanner.entries scanner.table.start (((LineIndex.ofText rest).contents rest).take 1)
        version := 1 } := by
  obtain ⟨front, _, hlines⟩ := lines_ofText_beyond scanner hxs hys hlong htext
  rw [edited_delete_beyond scanner hxs hys hlong htext hrest, if_pos hcut]
  simp only [rehighlight, withText, hlines, EditWindow.removed, EditWindow.inserted]
  simp [Scanner.rescan, Scanner.stateBehind, ofText]

/-- A deletion that ends below the greatest offset scans the first line again, and
the second one only if it now begins in another state. -/
theorem edited_delete_most (hcut : Text.byteLength cut < TextSize.greatest) :
    ∃ front,
      (∀ c ∈ front, c ∈ cut ++ rest) ∧
      (ofText scanner (cut ++ rest)).edited (.delete 0 (Text.byteLength cut)) =
        { scanner
          text := rest
          index := .ofText rest
          lines :=
            let block :=
              scanner.entries scanner.table.start (((LineIndex.ofText rest).contents rest).take 1)
            block ++
              (scanner.rescan (scanner.stateBehind block)
                [scanner.entry (scanner.line front scanner.table.start).endState []]
                (((LineIndex.ofText rest).contents rest).drop 1)).1
          version := 1 } := by
  obtain ⟨front, hfront, hlines⟩ := lines_ofText_beyond scanner hxs hys hlong htext
  refine ⟨front, hfront, ?_⟩
  rw [edited_delete_beyond scanner hxs hys hlong htext hrest, if_neg (Nat.not_le.mpr hcut)]
  simp only [rehighlight, withText, hlines, EditWindow.removed, EditWindow.inserted]
  simp [Scanner.stateBehind, ofText]

end Beyond

end Document

end Highlighter
