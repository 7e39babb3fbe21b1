import Highlighter.Proofs.LineSplitting
import Mathlib.Tactic

/-!
# Lines and what ends them

A line index loses no byte of its text and counts none twice: the lines, each
with its terminator behind it, are the text again, and every line stands where
the lines and terminators before it end.  A carriage return ends a line by
itself only if no line feed follows it, so the terminators of a text are
settled by the text.
-/

namespace Highlighter

namespace Text

/-- What ends the lines of a text, all but the last of them. -/
def terminators : List Char → List (List Char)
  | [] => []
  | '\r' :: '\n' :: cs => ['\r', '\n'] :: terminators cs
  | c :: cs =>
    if c = '\n' ∨ c = '\r' then [c] :: terminators cs
    else terminators cs

/-- Texts one after another, each with its end behind it. -/
def assemble (texts ends : List (List Char)) : List Char :=
  (List.zipWith (· ++ ·) texts ends).flatten

@[simp] theorem terminators_nil : terminators [] = [] := by
  simp [terminators]

@[simp] theorem terminators_crlf (cs : List Char) :
    terminators ('\r' :: '\n' :: cs) = ['\r', '\n'] :: terminators cs := by
  simp [terminators]

theorem terminators_terminator {c : Char} {cs : List Char} (hend : EndsLine c cs) :
    terminators (c :: cs) = [c] :: terminators cs := by
  obtain ⟨hc, hjoin⟩ := hend
  rw [terminators]
  · exact if_pos hc
  · rintro rest rfl rfl
    exact hjoin ⟨rfl, rfl⟩

theorem terminators_plain {c : Char} (cs : List Char) (hc : ¬ (c = '\n' ∨ c = '\r')) :
    terminators (c :: cs) = terminators cs := by
  rw [terminators]
  · exact if_neg hc
  · rintro rest rfl
    exact absurd (Or.inr rfl) hc

theorem eq_of_mem_terminators {text terminator : List Char}
    (hmem : terminator ∈ terminators text) :
    terminator = ['\n'] ∨ terminator = ['\r', '\n'] ∨ terminator = ['\r'] := by
  induction text using line_cases with
  | nil => simp at hmem
  | crlf cs ih =>
      rw [terminators_crlf] at hmem
      rcases List.mem_cons.mp hmem with rfl | hmem
      · exact Or.inr (Or.inl rfl)
      · exact ih hmem
  | terminator c cs hend ih =>
      rw [terminators_terminator hend] at hmem
      rcases List.mem_cons.mp hmem with rfl | hmem
      · rcases hend.1 with rfl | rfl
        · exact Or.inl rfl
        · exact Or.inr (Or.inr rfl)
      · exact ih hmem
  | plain c cs hc ih =>
      rw [terminators_plain cs hc] at hmem
      exact ih hmem

theorem length_lines (text : List Char) :
    (lines text).length = (terminators text).length + 1 := by
  induction text using line_cases with
  | nil => simp
  | crlf cs ih => simp [ih]
  | terminator c cs hend ih => simp [lines_terminator hend, terminators_terminator hend, ih]
  | plain c cs hc ih => simp [lines_plain cs hc, terminators_plain cs hc, ih]

theorem not_endsLine_of_mem_lines {text line : List Char} (hline : line ∈ lines text) :
    ∀ c ∈ line, ¬ (c = '\n' ∨ c = '\r') := by
  induction text using line_cases generalizing line with
  | nil => simp_all
  | crlf cs ih =>
      rw [lines_crlf] at hline
      rcases List.mem_cons.mp hline with rfl | hline
      · simp
      · exact ih hline
  | terminator c cs hend ih =>
      rw [lines_terminator hend] at hline
      rcases List.mem_cons.mp hline with rfl | hline
      · simp
      · exact ih hline
  | plain c cs hc ih =>
      obtain ⟨first, rest, hfirst⟩ := List.exists_cons_of_ne_nil (lines_ne_nil cs)
      rw [lines_plain cs hc, hfirst, List.modifyHead_cons] at hline
      rw [hfirst] at ih
      rcases List.mem_cons.mp hline with rfl | hline
      · exact List.forall_mem_cons.mpr ⟨hc, ih List.mem_cons_self⟩
      · exact ih (List.mem_cons_of_mem _ hline)

/-! ## Putting the lines together -/

@[simp] theorem assemble_cons (text : List Char) (texts : List (List Char))
    (ending : List Char) (ends : List (List Char)) :
    assemble (text :: texts) (ending :: ends) = text ++ ending ++ assemble texts ends := rfl

@[simp] theorem assemble_nil (ends : List (List Char)) : assemble [] ends = [] := rfl

theorem assemble_modifyHead (front : List Char) {texts ends : List (List Char)}
    (htexts : texts ≠ []) (hends : ends ≠ []) :
    assemble (texts.modifyHead (front ++ ·)) ends = front ++ assemble texts ends := by
  obtain ⟨text, texts, rfl⟩ := List.exists_cons_of_ne_nil htexts
  obtain ⟨ending, ends, rfl⟩ := List.exists_cons_of_ne_nil hends
  simp

theorem assemble_lines (text : List Char) :
    assemble (lines text) (terminators text ++ [[]]) = text := by
  induction text using line_cases with
  | nil => simp
  | crlf cs ih => simp [ih]
  | terminator c cs hend ih => simp [lines_terminator hend, terminators_terminator hend, ih]
  | plain c cs hc ih =>
      have hfront := assemble_modifyHead [c] (lines_ne_nil cs)
        (List.append_ne_nil_of_right_ne_nil (terminators cs) (List.cons_ne_nil [] []))
      rw [lines_plain cs hc, terminators_plain cs hc]
      exact hfront.trans (congrArg (c :: ·) ih)

theorem assemble_take_append_drop (texts ends : List (List Char)) (n : Nat) :
    assemble (texts.take n) (ends.take n) ++ assemble (texts.drop n) (ends.drop n) =
      assemble texts ends := by
  unfold assemble
  rw [← List.flatten_append, ← List.take_zipWith, ← List.drop_zipWith, List.take_append_drop]

/-- Where a line stands in its text. -/
theorem exists_behind_line {text line : List Char} {n : Nat}
    (hline : (lines text)[n]? = some line) :
    ∃ behind,
      text = assemble ((lines text).take n) ((terminators text).take n) ++ line ++ behind := by
  obtain ⟨hn, hget⟩ := List.getElem?_eq_some_iff.mp hline
  have hcount := length_lines text
  have htake : (terminators text ++ [[]]).take n = (terminators text).take n :=
    List.take_append_of_le_length (by omega)
  have hends : (terminators text ++ [[]]).drop n ≠ [] := by
    rw [← List.length_pos_iff, List.length_drop, List.length_append, List.length_singleton]
    omega
  obtain ⟨ending, ends, hdrop⟩ := List.exists_cons_of_ne_nil hends
  have hparts := assemble_take_append_drop (lines text) (terminators text ++ [[]]) n
  rw [assemble_lines, htake, hdrop, List.drop_eq_getElem_cons hn, hget, assemble_cons] at hparts
  exact ⟨ending ++ assemble ((lines text).drop (n + 1)) ends, by simpa using hparts.symm⟩

/-- No line feed follows a carriage return that ends a line by itself. -/
theorem head?_behind_return {text : List Char} {n : Nat}
    (hreturn : (terminators text)[n]? = some ['\r']) :
    (assemble ((lines text).drop (n + 1)) ((terminators text ++ [[]]).drop (n + 1))).head? ≠
      some '\n' := by
  induction text using line_cases generalizing n with
  | nil => simp at hreturn
  | crlf cs ih =>
      cases n with
      | zero => simp at hreturn
      | succ n => simpa using ih (by simpa using hreturn)
  | terminator c cs hend ih =>
      rw [terminators_terminator hend] at hreturn ⊢
      rw [lines_terminator hend]
      cases n with
      | zero =>
          obtain rfl : c = '\r' := by simpa using hreturn
          intro hfeed
          refine hend.2 ⟨rfl, ?_⟩
          simpa [assemble_lines] using hfeed
      | succ n => simpa using ih (by simpa using hreturn)
  | plain c cs hc ih =>
      rw [terminators_plain cs hc] at hreturn ⊢
      have hbehind : (lines (c :: cs)).drop (n + 1) = (lines cs).drop (n + 1) := by
        rw [lines_plain cs hc]
        cases lines cs <;> simp
      rw [hbehind]
      exact ih hreturn

end Text

namespace LineIndex

/-- The ranges of texts that stand one after another from byte `start` on,
each with its end behind it. -/
def rangesFrom : Nat → List (List Char) → List (List Char) → List TextRange
  | start, text :: texts, ending :: ends =>
    .ofSpan ⟨start, start + Text.byteLength text⟩ ::
      rangesFrom (start + Text.byteLength (text ++ ending)) texts ends
  | _, _, _ => []

/-- The ranges are those of the lines, when `line` is what has been read of the
first of them. -/
theorem split_eq_rangesFrom (start : Nat) (line cs : List Char) :
    split start (start + Text.byteLength line) cs =
      rangesFrom start ((Text.lines cs).modifyHead (line ++ ·)) (Text.terminators cs ++ [[]]) := by
  induction cs using Text.line_cases generalizing start line with
  | nil => simp [split, rangesFrom]
  | crlf cs ih =>
      have hoffset : start + Text.byteLength (line ++ ['\r', '\n']) =
          start + Text.byteLength line + 2 := by
        rw [Text.byteLength_append, Text.byteLength_crlf, Text.byteLength_nil]
        omega
      have hrest := ih (start + Text.byteLength line + 2) []
      rw [Text.modifyHead_nil_append, Text.byteLength_nil, Nat.add_zero] at hrest
      rw [split, hrest, Text.lines_crlf, List.modifyHead_cons, Text.terminators_crlf,
        List.cons_append, rangesFrom, List.append_nil, hoffset]
  | terminator c cs hend ih =>
      have hoffset : start + Text.byteLength (line ++ [c]) =
          start + Text.byteLength line + 1 := by
        simp [hend.utf8Size, Nat.add_assoc]
      have hrest := ih (start + Text.byteLength line + 1) []
      rw [Text.modifyHead_nil_append, Text.byteLength_nil, Nat.add_zero] at hrest
      rw [split_terminator _ _ hend, hrest, Text.lines_terminator hend, List.modifyHead_cons,
        Text.terminators_terminator hend, List.cons_append, rangesFrom, List.append_nil, hoffset]
  | plain c cs hc ih =>
      have hoffset : start + Text.byteLength line + c.utf8Size =
          start + Text.byteLength (line ++ [c]) := by
        simp [Nat.add_assoc]
      rw [split_plain _ _ _ hc, hoffset, ih, Text.lines_plain cs hc, Text.terminators_plain cs hc,
        List.modifyHead_modifyHead]
      simp [Function.comp_def]

theorem getElem?_rangesFrom (start : Nat) {texts ends : List (List Char)} {n : Nat}
    {text : List Char} (htext : texts[n]? = some text) (hends : n < ends.length) :
    (rangesFrom start texts ends)[n]? =
      some (.ofSpan
        ⟨start + Text.byteLength (Text.assemble (texts.take n) (ends.take n)),
          start + Text.byteLength (Text.assemble (texts.take n) (ends.take n) ++ text)⟩) := by
  induction n generalizing start texts ends with
  | zero =>
      obtain ⟨rest, rfl⟩ : ∃ rest, texts = text :: rest := by
        cases texts with
        | nil => simp at htext
        | cons first rest => exact ⟨rest, by simpa using htext⟩
      obtain ⟨ending, ends, rfl⟩ := List.exists_cons_of_length_pos hends
      simp [rangesFrom]
  | succ n ih =>
      cases texts with
      | nil => simp at htext
      | cons first texts =>
          obtain ⟨ending, ends, rfl⟩ := List.exists_cons_of_length_pos (Nat.zero_lt_of_lt hends)
          have hrest := ih (start + Text.byteLength (first ++ ending)) (by simpa using htext)
            (by simpa using hends)
          rw [rangesFrom, List.getElem?_cons_succ, hrest]
          simp [Nat.add_assoc]

theorem length_rangesFrom (start : Nat) (texts ends : List (List Char)) :
    (rangesFrom start texts ends).length = min texts.length ends.length := by
  induction texts generalizing start ends with
  | nil => simp [rangesFrom]
  | cons text texts ih =>
      cases ends with
      | nil => simp [rangesFrom]
      | cons ending ends => simp [rangesFrom, ih]

theorem lines_ofText (text : List Char) :
    (ofText text).lines =
      rangesFrom 0 (Text.lines text) (Text.terminators text ++ [[]]) := by
  have hsplit := split_eq_rangesFrom 0 [] text
  rwa [Text.modifyHead_nil_append] at hsplit

theorem lineCount_ofText (text : List Char) :
    (ofText text).lineCount = (Text.lines text).length := by
  rw [lineCount, lines_ofText, length_rangesFrom, Text.length_lines]
  simp

/-- A line stands behind the lines before it and what ends them. -/
theorem range?_ofText {text line : List Char} {n : Nat}
    (hline : (Text.lines text)[n]? = some line) :
    let before := Text.assemble ((Text.lines text).take n) ((Text.terminators text).take n)
    (ofText text).range? n =
      some (.ofSpan ⟨Text.byteLength before, Text.byteLength (before ++ line)⟩) := by
  obtain ⟨hn, _⟩ := List.getElem?_eq_some_iff.mp hline
  have hcount := Text.length_lines text
  have hrange := getElem?_rangesFrom 0 hline
    (show n < (Text.terminators text ++ [[]]).length by simp; omega)
  rw [List.take_append_of_le_length (by omega), Nat.zero_add, Nat.zero_add] at hrange
  rw [range?, lines_ofText, hrange]

theorem slice?_ofSpan {before line after : List Char}
    (hsize : Text.byteLength (before ++ line ++ after) ≤ TextSize.greatest) :
    slice? (before ++ line ++ after)
        (.ofSpan ⟨Text.byteLength before, Text.byteLength (before ++ line)⟩) =
      some line := by
  simp only [Text.byteLength_append] at hsize
  simp only [slice?, TextRange.ofSpan, Text.byteLength_append]
  rw [TextSize.val_of (by omega), TextSize.val_of (by omega), ← Text.byteLength_append]
  exact Text.slice?_eq_some_iff.mpr ⟨before, after, rfl, rfl, rfl⟩

theorem line?_ofText {text : List Char}
    (hsize : Text.byteLength text ≤ TextSize.greatest) (n : Nat) :
    (ofText text).line? text n = (Text.lines text)[n]? := by
  cases hline : (Text.lines text)[n]? with
  | none =>
      have hrange : (ofText text).range? n = none := by
        apply List.getElem?_eq_none
        rw [← lineCount, lineCount_ofText]
        exact List.getElem?_eq_none_iff.mp hline
      rw [line?, hrange, Option.bind_none]
  | some line =>
      obtain ⟨behind, htext⟩ := Text.exists_behind_line hline
      rw [line?, range?_ofText hline, Option.bind_some]
      generalize Text.assemble ((Text.lines text).take n) ((Text.terminators text).take n) =
        before at htext
      rw [htext] at hsize ⊢
      exact slice?_ofSpan hsize

theorem contents_ofText {text : List Char}
    (hsize : Text.byteLength text ≤ TextSize.greatest) :
    (ofText text).contents text = Text.lines text := by
  apply List.ext_getElem
  · rw [contents, List.length_map, ← lineCount, lineCount_ofText]
  · intro n hn hlines
    have hline := line?_ofText hsize n
    rw [contents, List.length_map] at hn
    rw [line?, range?, List.getElem?_eq_getElem hn, Option.bind_some,
      List.getElem?_eq_getElem hlines] at hline
    simp [contents, hline]

/-! ## What the index promises -/

/-- The lines of the index, with what stands between them, make up the text. -/
structure Splits (index : LineIndex) (text : List Char) (terminators : List (List Char)) :
    Prop where
  lineCount : index.lineCount = terminators.length + 1
  terminator : ∀ terminator ∈ terminators,
    terminator = ['\n'] ∨ terminator = ['\r', '\n'] ∨ terminator = ['\r']
  whole : text = Text.assemble (index.contents text) (terminators ++ [[]])
  lone_return : ∀ n, terminators[n]? = some ['\r'] →
    (Text.assemble ((index.contents text).drop (n + 1))
      ((terminators ++ [[]]).drop (n + 1))).head? ≠ some '\n'
  line : ∀ n < index.lineCount, ∃ range content,
    index.range? n = some range ∧
    index.line? text n = some content ∧
    (index.contents text)[n]? = some content ∧
    '\n' ∉ content ∧
    '\r' ∉ content ∧
    range.start.val =
      Text.byteLength (Text.assemble ((index.contents text).take n) (terminators.take n)) ∧
    range.stop.val = range.start.val + Text.byteLength content ∧
    range.stop.val ≤ Text.byteLength text ∧
    Text.isBoundary range.start.val text = true ∧
    Text.isBoundary range.stop.val text = true

/-- An index has the lines of its text, with nothing left out and nothing
taken twice. -/
theorem ofText_splits {text : List Char} (hsize : Text.byteLength text ≤ TextSize.greatest) :
    (ofText text).Splits text (Text.terminators text) := by
  have hcontents := contents_ofText hsize
  have hcount := lineCount_ofText text
  constructor
  · rw [hcount, Text.length_lines]
  · exact fun _ => Text.eq_of_mem_terminators
  · rw [hcontents, Text.assemble_lines]
  · intro n hreturn
    rw [hcontents]
    exact Text.head?_behind_return hreturn
  · intro n hn
    obtain ⟨line, hline⟩ : ∃ line, (Text.lines text)[n]? = some line :=
      ⟨_, List.getElem?_eq_getElem (hcount ▸ hn)⟩
    have hplain := Text.not_endsLine_of_mem_lines (List.mem_of_getElem? hline)
    have hrange := range?_ofText hline
    obtain ⟨behind, htext⟩ := Text.exists_behind_line hline
    rw [hcontents]
    generalize Text.assemble ((Text.lines text).take n) ((Text.terminators text).take n) =
      before at htext hrange
    have hstart : Text.isBoundary (Text.byteLength before) text = true :=
      Text.isBoundary_iff.mpr ⟨before, line ++ behind, by rw [htext, List.append_assoc], rfl⟩
    have hstop : Text.isBoundary (Text.byteLength (before ++ line)) text = true :=
      Text.isBoundary_iff.mpr ⟨before ++ line, behind, htext, rfl⟩
    have hlength := congrArg Text.byteLength htext
    simp only [Text.byteLength_append] at hlength
    refine ⟨_, line, hrange, ?_, hline, ?_, ?_, ?_⟩
    · rw [line?_ofText hsize, hline]
    · exact fun hmem => hplain _ hmem (Or.inl rfl)
    · exact fun hmem => hplain _ hmem (Or.inr rfl)
    · simp only [TextRange.start_ofSpan, TextRange.stop_ofSpan]
      rw [TextSize.val_of (by omega), TextSize.val_of (by rw [Text.byteLength_append]; omega)]
      exact ⟨rfl, Text.byteLength_append _ _, by rw [Text.byteLength_append]; omega, hstart, hstop⟩

/-- A carriage return before a terminator of two characters, a line feed
behind it, and a terminator at the end behind a character of two bytes. -/
theorem ofText_splits_mixed :
    Text.byteLength ['\r', '\r', '\n', '\n', 'é', '\r'] ≤ TextSize.greatest ∧
    (ofText ['\r', '\r', '\n', '\n', 'é', '\r']).Splits ['\r', '\r', '\n', '\n', 'é', '\r']
      [['\r'], ['\r', '\n'], ['\n'], ['\r']] := by
  have hsize : Text.byteLength ['\r', '\r', '\n', '\n', 'é', '\r'] ≤ TextSize.greatest := by decide
  exact ⟨hsize, ofText_splits hsize⟩

end LineIndex

end Highlighter
