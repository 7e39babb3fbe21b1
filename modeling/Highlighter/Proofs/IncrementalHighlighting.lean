import Highlighter.Proofs.CellTailTable
import Highlighter.Proofs.EditedText
import Highlighter.Proofs.LineTerminators
import Mathlib.Tactic

/-!
# Incremental highlighting

A document is settled when each of its lines is kept as a scan of the whole
text would leave it.  Three facts carry the argument that edits keep it so.
Scanning a list of lines splits at any line, with the state reached there.
An edit leaves the lines before its window and those behind it as they were.
And once a line begins in the state in which it was scanned before, so do all
lines behind it.
-/

namespace Highlighter

namespace Scanner

def stateAfter (scanner : Scanner) (state : StateId) (lines : List (List Char)) : StateId :=
  lines.foldl (fun state line => (scanner.line line state).endState) state

@[simp] theorem stateAfter_nil (scanner : Scanner) (state : StateId) :
    scanner.stateAfter state [] = state := rfl

@[simp] theorem stateAfter_cons
    (scanner : Scanner) (state : StateId) (line : List Char) (lines : List (List Char)) :
    scanner.stateAfter state (line :: lines) =
      scanner.stateAfter (scanner.line line state).endState lines := rfl

@[simp] theorem entries_nil (scanner : Scanner) (state : StateId) :
    scanner.entries state [] = [] := rfl

@[simp] theorem entries_cons
    (scanner : Scanner) (state : StateId) (line : List Char) (lines : List (List Char)) :
    scanner.entries state (line :: lines) =
      ⟨state, scanner.line line state⟩ ::
        scanner.entries (scanner.line line state).endState lines := rfl

theorem entries_append
    (scanner : Scanner) (state : StateId) (xs ys : List (List Char)) :
    scanner.entries state (xs ++ ys) =
      scanner.entries state xs ++ scanner.entries (scanner.stateAfter state xs) ys := by
  induction xs generalizing state with
  | nil => simp
  | cons x xs ih => simp [ih]

theorem take_entries
    (scanner : Scanner) (state : StateId) (lines : List (List Char)) (n : Nat) :
    (scanner.entries state lines).take n = scanner.entries state (lines.take n) := by
  induction lines generalizing state n with
  | nil => simp
  | cons line lines ih =>
      cases n with
      | zero => simp
      | succ n => simp [ih]

theorem drop_entries
    (scanner : Scanner) (state : StateId) (lines : List (List Char)) (n : Nat) :
    (scanner.entries state lines).drop n =
      scanner.entries (scanner.stateAfter state (lines.take n)) (lines.drop n) := by
  induction lines generalizing state n with
  | nil => simp
  | cons line lines ih =>
      cases n with
      | zero => simp
      | succ n => simp [ih]

private theorem endState_getLast?_entries
    (scanner : Scanner) (state : StateId) (lines : List (List Char)) :
    ((scanner.entries state lines).getLast?.map (·.tokens.endState)).getD state =
      scanner.stateAfter state lines := by
  induction lines generalizing state with
  | nil => rfl
  | cons line lines ih =>
      rw [stateAfter_cons, ← ih, entries_cons, List.getLast?_cons]
      cases (scanner.entries (scanner.line line state).endState lines).getLast? <;> rfl

theorem stateBehind_entries (scanner : Scanner) (lines : List (List Char)) :
    scanner.stateBehind (scanner.entries scanner.table.start lines) =
      scanner.stateAfter scanner.table.start lines :=
  endState_getLast?_entries scanner scanner.table.start lines

theorem map_tokens_entries
    (scanner : Scanner) (state : StateId) (lines : List (List Char)) :
    (scanner.entries state lines).map (·.tokens) = scanner.linesFrom state lines := by
  induction lines generalizing state with
  | nil => rfl
  | cons line lines ih => simp [linesFrom, ih]

/-- Lines scanned from one state are brought to another by scanning them
again up to the first one that begins as it did. -/
theorem rescan_entries
    (scanner : Scanner) (state cached : StateId) (lines : List (List Char)) :
    (scanner.rescan state (scanner.entries cached lines) lines).1 =
      scanner.entries state lines := by
  induction lines generalizing state cached with
  | nil => rfl
  | cons line lines ih =>
      rw [entries_cons, rescan]
      by_cases hsame : cached = state
      · subst hsame
        rw [if_pos rfl, entries_cons]
      · rw [if_neg hsame]
        simp [entry, ih]

end Scanner

/-- The lines that two texts share around a window: those before it and those
behind it. -/
structure EditWindow.Frames (window : EditWindow) (old new : List (List Char)) : Prop where
  first_le_oldLast : window.first ≤ window.oldLast
  first_le_newLast : window.first ≤ window.newLast
  oldLast_lt : window.oldLast < old.length
  newLast_lt : window.newLast < new.length
  before : old.take window.first = new.take window.first
  behind : old.drop (window.oldLast + 1) = new.drop (window.newLast + 1)

theorem EditWindow.Frames.first_add_removed {window : EditWindow} {old new : List (List Char)}
    (hframes : window.Frames old new) :
    window.first + window.removed = window.oldLast + 1 := by
  have hle := hframes.first_le_oldLast
  unfold removed
  omega

theorem EditWindow.Frames.first_add_inserted {window : EditWindow} {old new : List (List Char)}
    (hframes : window.Frames old new) :
    window.first + window.inserted = window.newLast + 1 := by
  have hle := hframes.first_le_newLast
  unfold inserted
  omega

/-- The window of an edit that puts `put` in the place of `cut`. -/
def EditWindow.ofCuts (before cut put after : List Char) : EditWindow where
  first := (LineIndex.ofText (before ++ cut ++ after)).lineOf (.of (Text.byteLength before)) - 1
  oldLast :=
    (LineIndex.ofText (before ++ cut ++ after)).lineOf (.of (Text.byteLength (before ++ cut)))
  newLast :=
    (LineIndex.ofText (before ++ put ++ after)).lineOf (.of (Text.byteLength (before ++ put)))

/-- The lines that an edit takes away are those of the old text, however long the
new one is. -/
theorem EditWindow.ofCuts_fits (before cut put after : List Char)
    (hold : Text.byteLength (before ++ cut ++ after) ≤ TextSize.greatest) :
    (ofCuts before cut put after).Fits (Text.lines (before ++ cut ++ after)).length := by
  have hbefore : ∀ middle : List Char,
      (TextSize.of (Text.byteLength before)).val ≤
        (TextSize.of (Text.byteLength (before ++ middle))).val := by
    intro middle
    rw [Text.byteLength_append]
    simp only [TextSize.of]
    omega
  have hmono := (LineIndex.ofText (before ++ cut ++ after)).lineOf_mono (hbefore cut)
  obtain ⟨_, hfirst, _⟩ :=
    LineIndex.lines_around_lineOf (List.append_assoc before cut after) hold rfl
  obtain ⟨hlast, _⟩ := LineIndex.lines_around_lineOf rfl hold rfl
  have hnew := LineIndex.length_lines_le_lineOf before (put ++ after) (hbefore put)
  rw [← List.append_assoc] at hnew
  simp only [Fits, removed, ofCuts]
  omega

/-- The window starts one line early, so it also holds the line whose carriage
return the new text may join to a line feed. -/
theorem EditWindow.ofCuts_frames (before cut put after : List Char)
    (hold : Text.byteLength (before ++ cut ++ after) ≤ TextSize.greatest)
    (hnew : Text.byteLength (before ++ put ++ after) ≤ TextSize.greatest) :
    (ofCuts before cut put after).Frames
      (Text.lines (before ++ cut ++ after)) (Text.lines (before ++ put ++ after)) := by
  obtain ⟨hfirstOld, hfirstNew, _⟩ := ofCuts_fits before cut put after hold
  obtain ⟨_, holdFirst, _, holdTake, _⟩ :=
    LineIndex.lines_around_lineOf (List.append_assoc before cut after) hold rfl
  obtain ⟨_, _, hnewFirst, hnewTake, _⟩ :=
    LineIndex.lines_around_lineOf (List.append_assoc before put after) hnew rfl
  obtain ⟨holdLast, _, _, _, holdBehind⟩ := LineIndex.lines_around_lineOf rfl hold rfl
  obtain ⟨hnewLast, _, _, _, hnewBehind⟩ := LineIndex.lines_around_lineOf rfl hnew rfl
  refine ⟨hfirstOld, hfirstNew, holdLast, hnewLast, ?_, ?_⟩
  · rw [ofCuts]
    dsimp only
    rw [holdTake _ (Nat.sub_le _ _), hnewTake _ (by omega)]
  · rw [ofCuts]
    dsimp only
    rw [holdBehind, hnewBehind]

theorem Scanner.length_entries (scanner : Scanner) (state : StateId)
    (lines : List (List Char)) : (scanner.entries state lines).length = lines.length := by
  induction lines generalizing state with
  | nil => rfl
  | cons line lines ih => simp [ih]

namespace Document

structure Settled (document : Document) : Prop where
  index : document.index = LineIndex.ofText document.text
  lines :
    document.lines =
      document.scanner.entries document.scanner.table.start
        (document.index.contents document.text)

theorem ofText_settled (scanner : Scanner) (text : List Char) :
    (ofText scanner text).Settled :=
  ⟨rfl, rfl⟩

theorem Settled.lineCount_eq {document : Document} (hsettled : document.Settled) :
    document.lineCount = (Text.lines document.text).length := by
  rw [lineCount, hsettled.lines, Scanner.length_entries, hsettled.index, LineIndex.contents,
    List.length_map, ← LineIndex.lineCount, LineIndex.lineCount_ofText]

theorem window_eq_ofCuts
    {document : Document} {edit : Edit} {before cut after : List Char}
    (hindex : document.index = LineIndex.ofText document.text)
    (htext : document.text = before ++ cut ++ after)
    (hstart : edit.start = Text.byteLength before)
    (hstop : edit.stop = Text.byteLength (before ++ cut)) :
    document.window edit (LineIndex.ofText (before ++ edit.text ++ after)) =
      .ofCuts before cut edit.text after := by
  have hend : edit.start + Text.byteLength edit.text =
      Text.byteLength (before ++ edit.text) := by
    rw [hstart, Text.byteLength_append]
  rw [window, hindex, hend, hstart, hstop, htext, EditWindow.ofCuts]

/-- An edit of a settled document stops at nothing, whatever it puts in. -/
theorem Settled.window_fits
    {document : Document} {edit : Edit} {new : List Char}
    (hsettled : document.Settled)
    (hreplaces : edit.Replaces document.text new)
    (hold : Text.byteLength document.text ≤ TextSize.greatest) :
    (document.window edit (LineIndex.ofText new)).Fits document.lineCount := by
  obtain ⟨before, cut, after, htext, rfl, hstart, hstop⟩ := hreplaces
  rw [window_eq_ofCuts hsettled.index htext hstart hstop, hsettled.lineCount_eq]
  rw [htext] at hold ⊢
  exact EditWindow.ofCuts_fits before cut edit.text after hold

theorem window_frames
    {document : Document} {edit : Edit} {new : List Char}
    (hindex : document.index = LineIndex.ofText document.text)
    (hreplaces : edit.Replaces document.text new)
    (hold : Text.byteLength document.text ≤ TextSize.greatest)
    (hnew : Text.byteLength new ≤ TextSize.greatest) :
    (document.window edit (LineIndex.ofText new)).Frames
      (Text.lines document.text) (Text.lines new) := by
  obtain ⟨before, cut, after, htext, rfl, hstart, hstop⟩ := hreplaces
  rw [window_eq_ofCuts hindex htext hstart hstop]
  rw [htext] at hold ⊢
  exact EditWindow.ofCuts_frames before cut edit.text after hold hnew

/-- What is kept before the window, scanned inside it and scanned again behind
it is what a scan of all lines gives. -/
theorem rehighlight_settled
    {document : Document} {new : List Char} {window : EditWindow}
    (hsettled : document.Settled)
    (hold : Text.byteLength document.text ≤ TextSize.greatest)
    (hnew : Text.byteLength new ≤ TextSize.greatest)
    (hframes : window.Frames (Text.lines document.text) (Text.lines new)) :
    (document.rehighlight new (LineIndex.ofText new) window).1.Settled := by
  have hlines := hsettled.lines
  rw [hsettled.index, LineIndex.contents_ofText hold] at hlines
  have hremoved := hframes.first_add_removed
  have hinserted := hframes.first_add_inserted
  let scanner := document.scanner
  let start := scanner.table.start
  have hkept : document.lines.take window.first =
      scanner.entries start ((Text.lines new).take window.first) := by
    rw [hlines, scanner.take_entries, hframes.before]
  have hblock :
      document.lines.take window.first ++
          scanner.entries (scanner.stateBehind (document.lines.take window.first))
            (((Text.lines new).drop window.first).take window.inserted) =
        scanner.entries start
          ((Text.lines new).take (window.first + window.inserted)) := by
    rw [hkept, scanner.stateBehind_entries, ← scanner.entries_append, List.take_add]
  have hcached : document.lines.drop (window.first + window.removed) =
      scanner.entries
        (scanner.stateAfter start ((Text.lines document.text).take (window.oldLast + 1)))
        ((Text.lines new).drop (window.first + window.inserted)) := by
    rw [hlines, scanner.drop_entries, hremoved, hframes.behind, hinserted]
  refine ⟨rfl, ?_⟩
  simp only [rehighlight, withText, LineIndex.contents_ofText hnew]
  rw [hblock, hcached, scanner.rescan_entries, scanner.stateBehind_entries,
    ← scanner.entries_append, List.take_append_drop]

/-- An edit that fits the text of a settled document is made. -/
theorem Settled.update_eq
    {document : Document} {edit : Edit} {new : List Char}
    (hsettled : document.Settled)
    (hreplaces : edit.Replaces document.text new)
    (hold : Text.byteLength document.text ≤ TextSize.greatest) :
    document.update edit =
      .ok (document.rehighlight new (LineIndex.ofText new)
        (document.window edit (LineIndex.ofText new))) := by
  rw [update_of_replaces hreplaces, if_pos (hsettled.window_fits hreplaces hold)]

theorem edited_settled
    {document : Document} (hsettled : document.Settled) (edit : Edit)
    (hold : Text.byteLength document.text ≤ TextSize.greatest)
    (hnew : Text.byteLength (document.edited edit).text ≤ TextSize.greatest) :
    (document.edited edit).Settled := by
  rcases document.edited_cases edit with
    ⟨text, hreplaces, _, hedited⟩ | ⟨text, hreplaces, hstops, _⟩ | ⟨_, hedited⟩
  · rw [hedited] at hnew ⊢
    exact rehighlight_settled hsettled hold hnew
      (window_frames hsettled.index hreplaces hold hnew)
  · exact absurd (hsettled.window_fits hreplaces hold) hstops
  · rw [hedited]
    exact hsettled

theorem run_settled
    {document : Document} (hsettled : document.Settled) (edits : List Edit)
    (hsize : ∀ n,
      Text.byteLength (document.run (edits.take n)).text ≤ TextSize.greatest) :
    (document.run edits).Settled := by
  induction edits generalizing document with
  | nil => exact hsettled
  | cons edit edits ih =>
      have hold := hsize 0
      have hnew := hsize 1
      rw [run_cons]
      apply ih
      · exact edited_settled hsettled edit hold (by simpa using hnew)
      · intro n
        exact hsize (n + 1)

/-- As long as all texts are in reach of the offsets, no update stops. -/
theorem run_update_ne_stopped
    {document : Document} (hsettled : document.Settled) {edits : List Edit}
    (hsize : ∀ n,
      Text.byteLength (document.run (edits.take n)).text ≤ TextSize.greatest)
    (n : Nat) (edit : Edit) (left : Document) :
    (document.run (edits.take n)).update edit ≠ .error (.stopped left) := by
  have hfront : (document.run (edits.take n)).Settled := by
    apply run_settled hsettled
    intro m
    rw [List.take_take]
    exact hsize _
  cases happly : edit.applyTo (document.run (edits.take n)).text with
  | error error => simp [update_of_applyTo_eq_error happly]
  | ok text => simp [hfront.update_eq (Edit.applyTo_eq_ok_iff.mp happly) (hsize n)]

@[simp] theorem edited_scanner (document : Document) (edit : Edit) :
    (document.edited edit).scanner = document.scanner := by
  rcases document.edited_cases edit with
    ⟨text, _, _, hedited⟩ | ⟨text, _, _, hedited⟩ | ⟨_, hedited⟩
  · rw [hedited]
    rfl
  · rw [hedited]
    rfl
  · rw [hedited]

@[simp] theorem run_scanner (document : Document) (edits : List Edit) :
    (document.run edits).scanner = document.scanner := by
  induction edits generalizing document with
  | nil => rfl
  | cons edit edits ih => rw [run_cons, ih, edited_scanner]

theorem Settled.lines_eq_ofText {document : Document} (hsettled : document.Settled) :
    document.lines = (ofText document.scanner document.text).lines := by
  rw [hsettled.lines, hsettled.index]
  rfl

end Document

theorem Mode.map_tokens_lines_document (mode : Mode) (text : List Char) :
    (mode.document text).lines.map (·.tokens) = mode.tokenize text :=
  mode.scanner.map_tokens_entries _ _

/-- After any edits a document is highlighted as its text is from scratch, and
none of the updates stops. -/
theorem Mode.run_document_eq_fresh
    (mode : Mode) (text : List Char) (edits : List Edit)
    (hsize : ∀ n,
      Text.byteLength ((mode.document text).run (edits.take n)).text ≤ TextSize.greatest) :
    (∀ n edit left,
      ((mode.document text).run (edits.take n)).update edit ≠ .error (.stopped left)) ∧
    ∃ final,
      (∀ text', Edited text edits text' ↔ final = text') ∧
      ((mode.document text).run edits).text = final ∧
      ((mode.document text).run edits).lineCount = (mode.document final).lineCount ∧
      ((mode.document text).run edits).lineCount = (mode.tokenize final).length ∧
      ∀ line,
        ((mode.document text).run edits).line? line = (mode.document final).line? line ∧
        ((mode.document text).run edits).line? line = (mode.tokenize final)[line]? ∧
        ((mode.document text).run edits).lineState? line =
          (mode.document final).lineState? line ∧
        ((mode.document text).run edits).lineState? line =
          (mode.tokenize final)[line]?.map (·.endState) := by
  have hsettled := Document.run_settled (Document.ofText_settled mode.scanner text) edits hsize
  have hfresh : ((mode.document text).run edits).lines =
      (mode.document ((mode.document text).run edits).text).lines := by
    have hlines := hsettled.lines_eq_ofText
    rwa [Document.run_scanner] at hlines
  have htokens := mode.map_tokens_lines_document ((mode.document text).run edits).text
  refine ⟨Document.run_update_ne_stopped (Document.ofText_settled mode.scanner text) hsize,
    ((mode.document text).run edits).text, ?_, rfl, ?_, ?_, ?_⟩
  · exact Document.edited_iff_run_text (mode.document text) edits
  · rw [Document.lineCount, hfresh, Document.lineCount]
  · rw [Document.lineCount, hfresh, ← htokens, List.length_map]
  · intro line
    have hline : ((mode.document text).run edits).line? line =
        (mode.document ((mode.document text).run edits).text).line? line := by
      rw [Document.line?, hfresh, Document.line?]
    have htoken : ((mode.document text).run edits).line? line =
        (mode.tokenize ((mode.document text).run edits).text)[line]? := by
      rw [hline, ← htokens, List.getElem?_map, Document.line?]
    refine ⟨hline, htoken, ?_, ?_⟩
    · rw [Document.lineState?, hline, Document.lineState?]
    · rw [Document.lineState?, htoken]

/-- A line feed put behind a carriage return inside a string, and an edit that
does not fit. -/
theorem Mode.run_document_eq_fresh_joined_terminator :
    let document := CellTail.builtMode.document "\"a\rb".toList
    let edits : List Edit := [.insert 3 ['\n'], .delete 9 4]
    let fresh := CellTail.builtMode.tokenize "\"a\r\nb".toList
    (∀ n, Text.byteLength (document.run (edits.take n)).text ≤ TextSize.greatest) ∧
    (document.run edits).lineCount = fresh.length ∧
    (document.run edits).lineState? 0 = fresh[0]?.map (·.endState) ∧
    (document.run edits).lineState? 0 = some ⟨1⟩ := by
  intro document edits fresh
  have hsize : ∀ n, Text.byteLength (document.run (edits.take n)).text ≤ TextSize.greatest := by
    intro n
    match n with
    | 0 => decide
    | 1 => decide +kernel
    | n + 2 =>
        rw [List.take_of_length_le (by simp [edits])]
        decide +kernel
  have htext : (document.run edits).text = "\"a\r\nb".toList := by decide +kernel
  have hstate : (document.run edits).lineState? 0 = some ⟨1⟩ := by decide +kernel
  obtain ⟨_, final, _, hfinal, _, hcount, hlines⟩ :=
    Mode.run_document_eq_fresh CellTail.builtMode "\"a\rb".toList edits hsize
  obtain rfl := hfinal.symm.trans htext
  exact ⟨hsize, hcount, (hlines 0).2.2.2, hstate⟩

end Highlighter
