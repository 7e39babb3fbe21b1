import Highlighter.Proofs.CellTailTable
import Highlighter.Proofs.CommutingEdits
import Highlighter.Proofs.OffsetLookup
import Mathlib.Order.Bounds.Basic

/-!
# How far an edit reaches

Behind the window of an edit, lines are scanned again up to the first one that
begins in the state in which it was scanned before.  What was kept of it came
from a scan of the old text, and the state in which it now begins is that of a
scan of the new text.  So the place where scanning stops is told by two scans
from scratch, whatever edits came before.
-/

namespace Highlighter

namespace Scanner

/-- The state in which a scan of all lines of the text comes to a line. -/
def entryState (scanner : Scanner) (text : List Char) : Nat → StateId
  | 0 => scanner.table.start
  | line + 1 =>
    ((scanner.lines ((LineIndex.ofText text).contents text))[line]?.map (·.endState)).getD
      scanner.table.start

section States

variable (scanner : Scanner)

theorem stateAfter_append (state : StateId) (xs ys : List (List Char)) :
    scanner.stateAfter state (xs ++ ys) =
      scanner.stateAfter (scanner.stateAfter state xs) ys := by
  unfold stateAfter
  rw [List.foldl_append]

theorem stateAfter_take_add (state : StateId) (lines : List (List Char)) (m n : Nat) :
    scanner.stateAfter state (lines.take (m + n)) =
      scanner.stateAfter (scanner.stateAfter state (lines.take m)) ((lines.drop m).take n) := by
  rw [List.take_add, stateAfter_append]

theorem endState_linesFrom (state : StateId) {lines : List (List Char)} {line : Nat}
    (hline : line < lines.length) :
    (scanner.linesFrom state lines)[line]?.map (·.endState) =
      some (scanner.stateAfter state (lines.take (line + 1))) := by
  induction lines generalizing state line with
  | nil => exact absurd hline (Nat.not_lt_zero line)
  | cons first lines ih =>
      rw [linesFrom, List.take_succ_cons, stateAfter_cons]
      cases line with
      | zero => simp
      | succ line =>
          rw [List.getElem?_cons_succ]
          exact ih _ (Nat.lt_of_succ_lt_succ hline)

theorem entryState_eq {text : List Char}
    (hsize : Text.byteLength text ≤ TextSize.greatest) {line : Nat}
    (hline : line ≤ (Text.lines text).length) :
    scanner.entryState text line =
      scanner.stateAfter scanner.table.start ((Text.lines text).take line) := by
  cases line with
  | zero => rfl
  | succ line =>
      have hends := scanner.endState_linesFrom scanner.table.start (Nat.lt_of_succ_le hline)
      rw [entryState, lines, LineIndex.contents_ofText hsize, hends, Option.getD_some]

/-- Scanning again stops at the first line that two scans, from the old state
and from the new one, enter alike. -/
theorem rescan_count_isLeast (state cached : StateId) (lines : List (List Char)) :
    IsLeast
      {n | n = lines.length ∨
        scanner.stateAfter state (lines.take n) = scanner.stateAfter cached (lines.take n)}
      (scanner.rescan state (scanner.entries cached lines) lines).2 := by
  induction lines generalizing state cached with
  | nil => exact ⟨Or.inl rfl, fun _ _ => Nat.zero_le _⟩
  | cons line lines ih =>
      rw [entries_cons, rescan]
      by_cases hsame : cached = state
      · rw [if_pos hsame]
        exact ⟨Or.inr (by simp [hsame]), fun _ _ => Nat.zero_le _⟩
      · rw [if_neg hsame]
        obtain ⟨hstops, hleast⟩ :=
          ih (scanner.line line state).endState (scanner.line line cached).endState
        constructor
        · rcases hstops with hend | hagree
          · exact Or.inl (congrArg (· + 1) hend)
          · exact Or.inr hagree
        · rintro n (rfl | hagree)
          · exact Nat.succ_le_succ (hleast (Or.inl rfl))
          · cases n with
            | zero => exact absurd hagree.symm hsame
            | succ n => exact Nat.succ_le_succ (hleast (Or.inr hagree))

end States

end Scanner

theorem Edit.Replaces.start_le {edit : Edit} {old new : List Char}
    (hreplaces : edit.Replaces old new) : edit.start ≤ Text.byteLength old := by
  obtain ⟨before, cut, after, rfl, _, hstart, _⟩ := hreplaces
  rw [hstart, List.append_assoc, Text.byteLength_append]
  exact Nat.le_add_right _ _

namespace Document

section Frames

variable {document : Document} {new : List Char} {window : EditWindow}
  (hsettled : document.Settled)
  (hframes : window.Frames (Text.lines document.text) (Text.lines new))
  (hold : Text.byteLength document.text ≤ TextSize.greatest)
  (hnew : Text.byteLength new ≤ TextSize.greatest)

include hsettled hframes hold

theorem drop_lines_eq_entries :
    document.lines.drop (window.first + window.removed) =
      document.scanner.entries
        (document.scanner.stateAfter document.scanner.table.start
          ((Text.lines document.text).take (window.first + window.removed)))
        ((Text.lines new).drop (window.first + window.inserted)) := by
  have hlines := hsettled.lines
  rw [hsettled.index, LineIndex.contents_ofText hold] at hlines
  rw [hlines, Scanner.drop_entries, hframes.first_add_removed, hframes.behind,
    hframes.first_add_inserted]

include hnew

theorem stateBehind_block :
    document.scanner.stateBehind (document.block new window) =
      document.scanner.stateAfter document.scanner.table.start
        ((Text.lines new).take (window.first + window.inserted)) := by
  have hlines : (document.rehighlight new (LineIndex.ofText new) window).1.lines =
      document.scanner.entries document.scanner.table.start (Text.lines new) := by
    rw [← LineIndex.contents_ofText hnew]
    exact (rehighlight_settled hsettled hold hnew hframes).lines
  have hblock : document.block new window =
      (document.rehighlight new (LineIndex.ofText new) window).1.lines.take
        (window.first + window.inserted) := by
    rw [lines_rehighlight, ← length_block hsettled hframes hnew, List.take_left]
  rw [hblock, hlines, Scanner.take_entries, Scanner.stateBehind_entries]

/-- The lines scanned again behind the window, told by the states in which
scans of both texts come to them. -/
theorem tail_count_isLeast :
    IsLeast
      {n | n = ((Text.lines new).drop (window.first + window.inserted)).length ∨
        document.scanner.stateAfter document.scanner.table.start
            ((Text.lines new).take (window.first + window.inserted + n)) =
          document.scanner.stateAfter document.scanner.table.start
            ((Text.lines document.text).take (window.first + window.removed + n))}
      (document.tail new window).2 := by
  have hbehind : (Text.lines document.text).drop (window.first + window.removed) =
      (Text.lines new).drop (window.first + window.inserted) := by
    rw [hframes.first_add_removed, hframes.behind, hframes.first_add_inserted]
  unfold tail
  rw [stateBehind_block hsettled hframes hold hnew, drop_lines_eq_entries hsettled hframes hold,
    LineIndex.contents_ofText hnew]
  simp only [Scanner.stateAfter_take_add, hbehind]
  exact Scanner.rescan_count_isLeast _ _ _ _

theorem changed_stop_isLeast :
    IsLeast
      {line | window.first + window.inserted ≤ line ∧
        (line = (Text.lines new).length ∨
          document.scanner.entryState new line =
            document.scanner.entryState document.text
              (line - window.inserted + window.removed))}
      (window.first + window.inserted + (document.tail new window).2) := by
  obtain ⟨hstops, hleast⟩ := tail_count_isLeast hsettled hframes hold hnew
  have hcount := tail_count_le hsettled hframes
  have hremoved := hframes.first_add_removed
  have hinserted := hframes.first_add_inserted
  have hbehind := hframes.length_behind
  have holdLast := hframes.oldLast_lt
  -- Up to the end, line `first + inserted + n` is line `first + removed + n` of the old text.
  have hagree : ∀ n, window.first + window.inserted + n ≤ (Text.lines new).length →
      (document.scanner.entryState new (window.first + window.inserted + n) =
          document.scanner.entryState document.text
            (window.first + window.inserted + n - window.inserted + window.removed) ↔
        document.scanner.stateAfter document.scanner.table.start
            ((Text.lines new).take (window.first + window.inserted + n)) =
          document.scanner.stateAfter document.scanner.table.start
            ((Text.lines document.text).take (window.first + window.removed + n))) := by
    intro n hn
    have hplace : window.first + window.inserted + n - window.inserted + window.removed =
        window.first + window.removed + n := by omega
    rw [hplace, Scanner.entryState_eq _ hnew hn, Scanner.entryState_eq _ hold (by omega)]
  constructor
  · refine ⟨Nat.le_add_right _ _, ?_⟩
    rcases hstops with hend | hsame
    · rw [List.length_drop] at hend
      exact Or.inl (by omega)
    · exact Or.inr ((hagree _ (by omega)).mpr hsame)
  · rintro line ⟨hle, hline⟩
    by_cases hinside : line ≤ (Text.lines new).length
    · obtain ⟨n, rfl⟩ := Nat.exists_eq_add_of_le hle
      apply Nat.add_le_add_left
      apply hleast
      rcases hline with hend | hsame
      · exact Or.inl (by rw [List.length_drop]; omega)
      · exact Or.inr ((hagree n hinside).mp hsame)
    · omega

end Frames

/-- An edit that fits is made, and scanning again stops at the first line behind
the window that scans of the old and of the new text enter in the same state. -/
theorem update_stops_where_scans_agree
    (scanner : Scanner) (text : List Char) (edits : List Edit) {edit : Edit} {new : List Char}
    (hsize : ∀ n,
      Text.byteLength ((ofText scanner text).run (edits.take n)).text ≤ TextSize.greatest)
    (hreplaces : edit.Replaces ((ofText scanner text).run edits).text new)
    (hnew : Text.byteLength new ≤ TextSize.greatest) :
    let before := (ofText scanner text).run edits
    ∃ after delta,
      before.update edit = .ok (after, delta) ∧
      after.text = new ∧
      (∃ line,
        (LineIndex.ofText before.text).Holds line edit.start ∧
        delta.changed.start = line - 1) ∧
      IsLeast
        {line | delta.changed.start + delta.inserted ≤ line ∧
          (line = after.lineCount ∨
            scanner.entryState after.text line =
              scanner.entryState before.text (line - delta.inserted + delta.removed))}
        delta.changed.stop := by
  intro before
  have hsettled : before.Settled := run_settled (ofText_settled scanner text) edits hsize
  have hold : Text.byteLength before.text ≤ TextSize.greatest := by
    have hwhole := hsize edits.length
    rwa [List.take_length] at hwhole
  have hscanner : before.scanner = scanner := run_scanner _ edits
  have hframes := window_frames hsettled.index hreplaces hold hnew
  have hafter := rehighlight_settled hsettled hold hnew hframes
  generalize hwindow : before.window edit (LineIndex.ofText new) = window at hframes hafter
  have hupdate := hsettled.update_eq hreplaces hold
  rw [hwindow] at hupdate
  refine ⟨(before.rehighlight new _ window).1, (before.rehighlight new _ window).2, hupdate, rfl,
    ?_, ?_⟩
  · have hstart : edit.start ≤ Text.byteLength before.text := hreplaces.start_le
    refine ⟨before.index.lineOf (.of edit.start), ?_, (congrArg (·.first) hwindow).symm⟩
    rw [hsettled.index]
    have hholds := (LineIndex.lineOf_eq_iff hold edit.start _).mp rfl
    rwa [Nat.min_eq_left hstart] at hholds
  · have hstop := changed_stop_isLeast hsettled hframes hold hnew
    rw [hafter.lineCount_eq]
    rw [hscanner] at hstop
    exact hstop

/-- A quote opens a string that runs into a comment.  The quote in the comment
closes it, so the line behind the comment begins as it did. -/
theorem update_stops_where_scans_agree_behind_comment :
    let before := (ofText CellTail.uncapped "a\n#\nb".toList).run [.insert 3 ['"']]
    ∃ after delta,
      before.update (.insert 0 ['"']) = .ok (after, delta) ∧
      delta = { changed := ⟨0, 2⟩, removed := 1, inserted := 1, version := 2 } ∧
      after.lineCount = 3 ∧
      IsLeast
        {line | 1 ≤ line ∧
          (line = 3 ∨
            CellTail.uncapped.entryState after.text line =
              CellTail.uncapped.entryState "a\n#\"\nb".toList (line - 1 + 1))}
        2 := by
  intro before
  have hsize : ∀ n,
      Text.byteLength
          ((ofText CellTail.uncapped "a\n#\nb".toList).run ([.insert 3 ['"']].take n)).text ≤
        TextSize.greatest := by
    intro n
    cases n with
    | zero => decide
    | succ n =>
        rw [List.take_of_length_le (by simp)]
        decide +kernel
  have hbefore : before.text = "a\n#\"\nb".toList := by decide +kernel
  have hresult :
      (before.update (.insert 0 ['"'])).toOption.map
          (fun result => (result.2, result.1.lineCount)) =
        some ({ changed := ⟨0, 2⟩, removed := 1, inserted := 1, version := 2 }, 3) := by
    decide +kernel
  have hreplaces : (Edit.insert 0 ['"']).Replaces before.text ('"' :: before.text) :=
    ⟨[], [], before.text, rfl, rfl, rfl, rfl⟩
  obtain ⟨after, delta, hupdate, _, _, hleast⟩ :=
    update_stops_where_scans_agree CellTail.uncapped _ _ hsize hreplaces
      (by rw [hbefore]; decide)
  rw [hupdate] at hresult
  obtain ⟨hdelta, hcount⟩ := Prod.mk.inj (Option.some.inj hresult)
  dsimp only at hdelta hcount
  rw [hcount, hdelta] at hleast
  rw [← hbefore]
  exact ⟨after, delta, hupdate, hdelta, hcount, hleast⟩

end Document

end Highlighter
