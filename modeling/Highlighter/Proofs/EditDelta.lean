import Highlighter.Proofs.IncrementalHighlighting

/-!
# What an edit reports

An edit reports the lines that were scanned again, and how many lines it
removed and inserted.  Nothing else has to be painted again: the lines before
the reported span are as they were, and the lines behind it are the old ones
under a new number.  Both the texts and the kept scans split at the window of
the edit, so the statement is about two lists that share a front and a back.
-/

namespace Highlighter

theorem getElem?_eq_of_take_eq {α : Type} {xs ys : List α} {n index : Nat}
    (htake : xs.take n = ys.take n) (hindex : index < n) : xs[index]? = ys[index]? := by
  have hget := congrArg (fun zs => zs[index]?) htake
  simpa [List.getElem?_take, hindex] using hget

theorem getElem?_eq_of_drop_eq {α : Type} {xs ys : List α} {m n index : Nat}
    (hdrop : xs.drop m = ys.drop n) (hindex : m ≤ index) :
    xs[index]? = ys[index - m + n]? := by
  have hget := congrArg (fun zs => zs[index - m]?) hdrop
  have hfront : m + (index - m) = index := by omega
  have hback : n + (index - m) = index - m + n := by omega
  simpa [List.getElem?_drop, hfront, hback] using hget

namespace Scanner

section Rescan

variable (scanner : Scanner) (state : StateId) (olds : List LineEntry)
  (lines : List (List Char))

theorem rescan_count_le : (scanner.rescan state olds lines).2 ≤ olds.length := by
  induction olds generalizing state lines with
  | nil => exact Nat.le_refl 0
  | cons old olds ih =>
      unfold rescan
      by_cases hsame : old.startState = state
      · rw [if_pos hsame]
        exact Nat.zero_le _
      · rw [if_neg hsame]
        have hrest := ih (scanner.entry state (lines.headD [])).tokens.endState lines.tail
        simpa using hrest

theorem drop_rescan :
    (scanner.rescan state olds lines).1.drop (scanner.rescan state olds lines).2 =
      olds.drop (scanner.rescan state olds lines).2 := by
  induction olds generalizing state lines with
  | nil => rfl
  | cons old olds ih =>
      unfold rescan
      by_cases hsame : old.startState = state
      · rw [if_pos hsame]
      · rw [if_neg hsame]
        simpa using ih (scanner.entry state (lines.headD [])).tokens.endState lines.tail

end Rescan

end Scanner

theorem EditWindow.Frames.length_behind {window : EditWindow} {old new : List (List Char)}
    (hframes : window.Frames old new) :
    old.length - (window.oldLast + 1) = new.length - (window.newLast + 1) := by
  have hlength := congrArg List.length hframes.behind
  simpa using hlength

namespace Document

/-- The text of a line, without its terminator. -/
def content? (document : Document) (line : Nat) : Option (List Char) :=
  document.index.line? document.text line

/-- Line `line` of one document is painted as line `line'` of the other. -/
structure SameLine (document : Document) (line : Nat) (document' : Document) (line' : Nat) :
    Prop where
  content : document.content? line = document'.content? line'
  tokens : document.line? line = document'.line? line'
  state : document.lineState? line = document'.lineState? line'

theorem Settled.content?_eq {document : Document} (hsettled : document.Settled)
    (hsize : Text.byteLength document.text ≤ TextSize.greatest) (line : Nat) :
    document.content? line = (Text.lines document.text)[line]? := by
  unfold content?
  rw [hsettled.index]
  exact LineIndex.line?_ofText hsize line

theorem sameLine_of_getElem? {document document' : Document} {line line' : Nat}
    (hcontent : document.content? line = document'.content? line')
    (hentry : document.lines[line]? = document'.lines[line']?) :
    document.SameLine line document' line' := by
  have htokens : document.line? line = document'.line? line' := by
    unfold line?
    rw [hentry]
  refine ⟨hcontent, htokens, ?_⟩
  unfold lineState?
  rw [htokens]

end Document

/-- All that a host has to know to paint `after` where it has painted
`before`. -/
structure DocumentDelta.Describes (delta : DocumentDelta) (before after : Document) : Prop where
  removed_le : delta.changed.start + delta.removed ≤ before.lineCount
  inserted_le : delta.changed.start + delta.inserted ≤ delta.changed.stop
  stop_le : delta.changed.stop ≤ after.lineCount
  lineCount : after.lineCount = before.lineCount - delta.removed + delta.inserted
  front : ∀ line < delta.changed.start, after.SameLine line before line
  back : ∀ line, delta.changed.stop ≤ line →
    after.SameLine line before (line - delta.inserted + delta.removed)

namespace Document

section Rehighlight

variable (document : Document) (new : List Char) (window : EditWindow)

/-- The lines up to the end of the window, as they are kept after the edit. -/
def block : List LineEntry :=
  document.lines.take window.first ++
    document.scanner.entries
      (document.scanner.stateBehind (document.lines.take window.first))
      ((((LineIndex.ofText new).contents new).drop window.first).take window.inserted)

/-- The lines behind the window after the edit, and how many of them were
scanned again. -/
def tail : List LineEntry × Nat :=
  document.scanner.rescan (document.scanner.stateBehind (document.block new window))
    (document.lines.drop (window.first + window.removed))
    (((LineIndex.ofText new).contents new).drop (window.first + window.inserted))

theorem lines_rehighlight :
    (document.rehighlight new (LineIndex.ofText new) window).1.lines =
      document.block new window ++ (document.tail new window).1 := rfl

theorem changed_rehighlight :
    (document.rehighlight new (LineIndex.ofText new) window).2.changed =
      ⟨window.first, window.first + window.inserted + (document.tail new window).2⟩ := rfl

end Rehighlight

section Frames

variable {document : Document} {new : List Char} {window : EditWindow}
  (hsettled : document.Settled)
  (hframes : window.Frames (Text.lines document.text) (Text.lines new))
  (hold : Text.byteLength document.text ≤ TextSize.greatest)
  (hnew : Text.byteLength new ≤ TextSize.greatest)

include hsettled hframes

theorem length_take_first : (document.lines.take window.first).length = window.first := by
  have hlength : document.lines.length = (Text.lines document.text).length :=
    hsettled.lineCount_eq
  have hfirst := hframes.first_le_oldLast
  have hlast := hframes.oldLast_lt
  rw [List.length_take]
  omega

theorem tail_count_le :
    window.newLast + 1 + (document.tail new window).2 ≤ (Text.lines new).length := by
  have hlength : document.lines.length = (Text.lines document.text).length :=
    hsettled.lineCount_eq
  have hcount : (document.tail new window).2 ≤
      (document.lines.drop (window.first + window.removed)).length :=
    Scanner.rescan_count_le _ _ _ _
  have hbehind := hframes.length_behind
  have hlast := hframes.newLast_lt
  rw [List.length_drop, hframes.first_add_removed, hlength] at hcount
  omega

theorem take_lines_rehighlight :
    (document.rehighlight new (LineIndex.ofText new) window).1.lines.take window.first =
      document.lines.take window.first := by
  have hkept := length_take_first hsettled hframes
  rw [lines_rehighlight, block, List.append_assoc, List.take_left' hkept]

include hnew

theorem length_block :
    (document.block new window).length = window.first + window.inserted := by
  have hkept := length_take_first hsettled hframes
  have hinserted := hframes.first_add_inserted
  have hlast := hframes.newLast_lt
  rw [block, List.length_append, hkept, Scanner.length_entries, List.length_take,
    List.length_drop, LineIndex.contents_ofText hnew]
  omega

theorem drop_lines_rehighlight :
    (document.rehighlight new (LineIndex.ofText new) window).1.lines.drop
        (window.first + window.inserted + (document.tail new window).2) =
      document.lines.drop
        (window.first + window.removed + (document.tail new window).2) := by
  have hblock := length_block hsettled hframes hnew
  have htail : (document.tail new window).1.drop (document.tail new window).2 =
      (document.lines.drop (window.first + window.removed)).drop
        (document.tail new window).2 :=
    Scanner.drop_rescan _ _ _ _
  rw [lines_rehighlight, ← hblock, List.drop_length_add_append, htail, List.drop_drop]

include hold

theorem rehighlight_describes :
    (document.rehighlight new (LineIndex.ofText new) window).2.Describes document
      (document.rehighlight new (LineIndex.ofText new) window).1 := by
  have hremoved := hframes.first_add_removed
  have hinserted := hframes.first_add_inserted
  have hbehind := hframes.length_behind
  have holdLast := hframes.oldLast_lt
  have hnewLast := hframes.newLast_lt
  have hcount := tail_count_le hsettled hframes
  have hafter := rehighlight_settled hsettled hold hnew hframes
  have holdCount := hsettled.lineCount_eq
  have hnewCount :
      (document.rehighlight new (LineIndex.ofText new) window).1.lineCount =
        (Text.lines new).length :=
    hafter.lineCount_eq
  have holdContent := hsettled.content?_eq hold
  have hnewContent := hafter.content?_eq hnew
  have hchanged := changed_rehighlight document new window
  have hdeltaRemoved :
      (document.rehighlight new (LineIndex.ofText new) window).2.removed =
        window.removed := rfl
  have hdeltaInserted :
      (document.rehighlight new (LineIndex.ofText new) window).2.inserted =
        window.inserted := rfl
  constructor
  · rw [hchanged, hdeltaRemoved]
    dsimp only
    omega
  · rw [hchanged, hdeltaInserted]
    exact Nat.le_add_right _ _
  · rw [hchanged, hnewCount]
    dsimp only
    omega
  · rw [hdeltaRemoved, hdeltaInserted, hnewCount, holdCount]
    omega
  · intro line hline
    rw [hchanged] at hline
    apply sameLine_of_getElem?
    · rw [hnewContent, holdContent]
      exact getElem?_eq_of_take_eq hframes.before.symm hline
    · exact getElem?_eq_of_take_eq (take_lines_rehighlight hsettled hframes) hline
  · intro line hline
    rw [hchanged] at hline
    rw [hdeltaRemoved, hdeltaInserted]
    dsimp only at hline
    apply sameLine_of_getElem?
    · have hcontent := getElem?_eq_of_drop_eq hframes.behind.symm
        (show window.newLast + 1 ≤ line by omega)
      have hplace : line - (window.newLast + 1) + (window.oldLast + 1) =
          line - window.inserted + window.removed := by omega
      rw [hplace] at hcontent
      rw [hnewContent, holdContent]
      exact hcontent
    · have hentry :=
        getElem?_eq_of_drop_eq (drop_lines_rehighlight hsettled hframes hnew) hline
      have hplace : line - (window.first + window.inserted + (document.tail new window).2) +
          (window.first + window.removed + (document.tail new window).2) =
            line - window.inserted + window.removed := by omega
      rw [hplace] at hentry
      exact hentry

end Frames

/-- The report of an edit covers all that changed, and its counts are those of
the lines: the edit is made, and none of the differences behind the counts is
below zero. -/
theorem delta_describes_update
    (scanner : Scanner) (text : List Char) (edits : List Edit) {edit : Edit} {new : List Char}
    (hsize : ∀ n,
      Text.byteLength ((ofText scanner text).run (edits.take n)).text ≤ TextSize.greatest)
    (hreplaces : edit.Replaces ((ofText scanner text).run edits).text new)
    (hnew : Text.byteLength new ≤ TextSize.greatest) :
    let before := (ofText scanner text).run edits
    let window := before.window edit (LineIndex.ofText new)
    window.first ≤ window.oldLast ∧
    window.first ≤ window.newLast ∧
    ∃ after delta,
      before.update edit = .ok (after, delta) ∧
      after.text = new ∧
      delta.changed.start ≤ delta.changed.stop ∧
      delta.Describes before after := by
  intro before window
  have hsettled : before.Settled := run_settled (ofText_settled scanner text) edits hsize
  have hold : Text.byteLength before.text ≤ TextSize.greatest := by
    have hwhole := hsize edits.length
    rwa [List.take_length] at hwhole
  have hframes : window.Frames (Text.lines before.text) (Text.lines new) :=
    window_frames hsettled.index hreplaces hold hnew
  have hdescribes := rehighlight_describes hsettled hframes hold hnew
  exact ⟨hframes.first_le_oldLast, hframes.first_le_newLast, _, _,
    hsettled.update_eq hreplaces hold, rfl,
    (Nat.le_add_right _ _).trans hdescribes.inserted_le, hdescribes⟩

/-- A line feed and a quote put behind a carriage return, after an edit that does
not fit.  The quote opens a string, so the last line is scanned again. -/
theorem delta_describes_update_joined_terminator :
    let before := (ofText CellTail.builtMode.scanner "a\rb\nc".toList).run [.delete 9 4]
    ∃ after delta,
      before.update (.insert 2 ['\n', '"']) = .ok (after, delta) ∧
      delta.changed = ⟨0, 3⟩ ∧
      delta.removed = 2 ∧
      delta.inserted = 2 ∧
      delta.Describes before after := by
  intro before
  have hsize : ∀ n,
      Text.byteLength
          ((ofText CellTail.builtMode.scanner "a\rb\nc".toList).run
            ([Edit.delete 9 4].take n)).text ≤
        TextSize.greatest := by
    intro n
    cases n with
    | zero => decide
    | succ n =>
        rw [List.take_of_length_le (by simp)]
        decide
  have hreplaces : (Edit.insert 2 ['\n', '"']).Replaces before.text "a\r\n\"b\nc".toList :=
    ⟨['a', '\r'], [], "b\nc".toList, rfl, rfl, rfl, rfl⟩
  have hreport :
      (before.update (.insert 2 ['\n', '"'])).toOption.map (·.2) =
        some { changed := ⟨0, 3⟩, removed := 2, inserted := 2, version := 1 } := by
    decide +kernel
  obtain ⟨_, _, after, delta, hupdate, _, _, hdescribes⟩ :=
    delta_describes_update _ _ _ hsize hreplaces (by decide)
  rw [hupdate] at hreport
  obtain rfl := Option.some.inj hreport
  exact ⟨after, _, hupdate, rfl, rfl, rfl, hdescribes⟩

end Document

end Highlighter
