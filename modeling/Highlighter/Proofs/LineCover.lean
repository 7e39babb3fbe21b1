import Highlighter.Proofs.ScanRuns
import Mathlib.Tactic

/-!
# Pieces cover their line

The pieces of a scan lie side by side and leave nothing out.  A match is cut
at places that go up from its start to its end, whatever groups its labels
name: a group that is empty or begins before the last cut is passed over, and
the others add cuts behind it.  Each step of a scan covers what the cursor
moves over, so the whole scan covers the line.
-/

namespace Highlighter

/-- The pieces are a text that begins at byte `pos`, cut without gaps. -/
inductive Tiles : Nat → List Char → List Piece → Prop
  | nil (pos : Nat) : Tiles pos [] []
  | cons {pos : Nat} {piece : Piece} {rest : List Char} {pieces : List Piece} :
      piece.text ≠ [] →
      piece.span = ⟨pos, pos + Text.byteLength piece.text⟩ →
      Tiles (pos + Text.byteLength piece.text) rest pieces →
      Tiles pos (piece.text ++ rest) (piece :: pieces)

theorem Tiles.append {pos : Nat} {xs ys : List Char} {pieces pieces' : List Piece}
    (hfirst : Tiles pos xs pieces)
    (hsecond : Tiles (pos + Text.byteLength xs) ys pieces') :
    Tiles pos (xs ++ ys) (pieces ++ pieces') := by
  induction hfirst with
  | nil pos => simpa using hsecond
  | cons hne hspan _ ih =>
      rw [Text.byteLength_append, ← Nat.add_assoc] at hsecond
      rw [List.append_assoc]
      exact .cons hne hspan (ih hsecond)

theorem Tiles.singleton (piece : Piece) {pos : Nat}
    (hne : piece.text ≠ [])
    (hspan : piece.span = ⟨pos, pos + Text.byteLength piece.text⟩) :
    Tiles pos piece.text [piece] := by
  have htiles := Tiles.cons hne hspan (.nil _)
  rwa [List.append_nil] at htiles

/-! ## Cuts of a match -/

theorem Cursor.Reaches.of_offset_le {cursor middle later : Cursor}
    (hmiddle : cursor.Reaches middle) (hlater : cursor.Reaches later)
    (hle : middle.offset ≤ later.offset) : middle.Reaches later := by
  obtain ⟨front, hfront, hmiddleOffset⟩ := hmiddle
  obtain ⟨whole, hwhole, hlaterOffset⟩ := hlater
  obtain ⟨taken, htaken, hrest⟩ :=
    Text.exists_between_cuts (hfront.symm.trans hwhole) (by omega)
  refine ⟨taken, hrest, ?_⟩
  rw [htaken, Text.byteLength_append] at hlaterOffset
  omega

/-- The ends of the cuts go up from one cursor to the other, each of them
between characters. -/
inductive CutsUpTo (behind : Cursor) : Cursor → List (Mark × Nat) → Prop
  | done {cursor : Cursor} :
      cursor.Reaches behind →
      cursor.offset = behind.offset →
      CutsUpTo behind cursor []
  | cut {cursor next : Cursor} {mark : Mark} {cuts : List (Mark × Nat)} :
      cursor.Reaches next →
      cursor.offset < next.offset →
      CutsUpTo behind next cuts →
      CutsUpTo behind cursor ((mark, next.offset) :: cuts)

theorem groupCuts_upTo {start behind : Cursor} {groups : List (Label × Span)}
    (hgroups : ∀ group ∈ groups, group.2.Between start behind)
    {cursor : Cursor} (hstart : start.Reaches cursor) (hbehind : cursor.Reaches behind) :
    CutsUpTo behind cursor (groupCuts behind.offset cursor.offset groups) := by
  induction groups generalizing cursor with
  | nil =>
      rw [groupCuts]
      split
      next hlt => exact .cut hbehind hlt (.done (.refl _) rfl)
      next hge => exact .done hbehind (by have := hbehind.offset_le; omega)
  | cons group groups ih =>
      have hrest : ∀ group ∈ groups, group.2.Between start behind :=
        fun group hgroup => hgroups group (List.mem_cons_of_mem _ hgroup)
      obtain ⟨label, span⟩ := group
      obtain ⟨first, last, hfirst, hspan, hlast, heq⟩ := hgroups (label, span) List.mem_cons_self
      dsimp only at heq
      subst heq
      rw [groupCuts]
      split
      next => exact ih hrest hstart hbehind
      next htaken =>
        simp only [Bool.or_eq_true, decide_eq_true_eq, Span.isEmpty, not_or, not_lt, not_le]
          at htaken
        have htail := ih hrest (hfirst.trans hspan) hlast
        split
        next hgap =>
          exact .cut (hstart.of_offset_le hfirst htaken.1) hgap (.cut hspan htaken.2 htail)
        next hgap =>
          exact .cut (hstart.of_offset_le (hfirst.trans hspan) (by omega)) (by omega) htail

theorem RuleMatch.Fits.cuts_upTo {m : RuleMatch} {cursor behind : Cursor}
    (hfits : m.Fits cursor behind) : CutsUpTo behind cursor m.cuts := by
  unfold RuleMatch.cuts
  rw [hfits.span]
  split
  next => exact .cut hfits.reaches hfits.nonempty (.done (.refl _) rfl)
  next => exact .cut hfits.reaches hfits.nonempty (.done (.refl _) rfl)
  next groups hlabel =>
    exact groupCuts_upTo (hfits.groups groups hlabel) (.refl _) hfits.reaches

theorem CutsUpTo.tiles {behind cursor : Cursor} {cuts : List (Mark × Nat)}
    (hcuts : CutsUpTo behind cursor cuts) :
    ∃ taken,
      cursor.rest = taken ++ behind.rest ∧
      behind.offset = cursor.offset + Text.byteLength taken ∧
      Tiles cursor.offset taken (cutPieces cursor.offset cursor.rest cuts) := by
  induction hcuts with
  | @done cursor hreaches hoffset =>
      obtain ⟨taken, hrest, htaken⟩ := hreaches
      have hnil : taken = [] := Text.byteLength_eq_zero_iff.mp (by omega)
      subst hnil
      exact ⟨[], hrest, htaken, .nil _⟩
  | @cut cursor next mark cuts hreaches hlt _ ih =>
      obtain ⟨front, hfront, hnext⟩ := hreaches
      obtain ⟨taken, hrest, hbehind, htiles⟩ := ih
      have hlength : next.offset - cursor.offset = Text.byteLength front := by omega
      have hne : front ≠ [] := by
        rintro rfl
        simp at hnext
        omega
      refine ⟨front ++ taken, ?_, ?_, ?_⟩
      · rw [hfront, hrest, List.append_assoc]
      · rw [hbehind, hnext, Text.byteLength_append, Nat.add_assoc]
      · rw [cutPieces, hlength, hfront, Text.takeBytes_append, Text.dropBytes_append]
        have hpiece := Tiles.singleton ⟨mark, ⟨cursor.offset, next.offset⟩, front⟩ hne
          (by rw [hnext])
        rw [hnext] at htiles hpiece ⊢
        exact hpiece.append htiles

/-! ## Whole scans -/

theorem RuleTable.ScanStep.tiles
    {table : RuleTable} {cursor behind : Cursor} {state next : StateId} {pieces : List Piece}
    (hstep : table.ScanStep cursor state pieces behind next) :
    ∃ taken,
      cursor.rest = taken ++ behind.rest ∧
      behind.offset = cursor.offset + Text.byteLength taken ∧
      Tiles cursor.offset taken pieces := by
  cases hstep with
  | matched _ hmatch => exact (matchFrom?_fits hmatch).cuts_upTo.tiles
  | @plain _ c cs hrest _ =>
      refine ⟨[c], hrest, by simp [Cursor.past], ?_⟩
      exact Tiles.singleton (cursor.plainPiece c) (by simp [Cursor.plainPiece])
        (by simp [Cursor.plainPiece])

theorem RuleTable.Scans.tiles
    {table : RuleTable} {cap : Option Nat} {cursor : Cursor} {state : StateId} {count : Nat}
    {result : List Piece × StateId}
    (hscan : table.Scans cap cursor state count result) :
    Tiles cursor.offset cursor.rest result.1 := by
  induction hscan using RuleTable.Scans.step_induction with
  | done hrest =>
      rw [hrest]
      exact .nil _
  | @capped cursor _ _ hne _ => exact Tiles.singleton cursor.remainder hne rfl
  | step _ _ hstep _ ih =>
      obtain ⟨taken, hrest, hoffset, htiles⟩ := hstep.tiles
      rw [hoffset] at ih
      have hwhole := htiles.append ih
      rwa [← hrest] at hwhole

theorem RuleTable.scan_tiles
    (table : RuleTable) (cap : Option Nat) (line : List Char) (state : StateId) :
    Tiles 0 line (table.scan cap line state).1 :=
  (table.scan_scans cap line state).tiles

/-! ## Tokens -/

theorem Tiles.flatten {pos : Nat} {text : List Char} {pieces : List Piece}
    (htiles : Tiles pos text pieces) : pieces.flatMap (·.text) = text := by
  induction htiles with
  | nil => rfl
  | cons _ _ _ ih => rw [List.flatMap_cons, ih]

/-- Where a piece lies in the line that it was cut from. -/
theorem Tiles.exists_around {pos : Nat} {text : List Char} {pieces : List Piece}
    (htiles : Tiles pos text pieces) {front : List Char} (hfront : Text.byteLength front = pos)
    {piece : Piece} (hpiece : piece ∈ pieces) :
    piece.text ≠ [] ∧
    ∃ before after,
      front ++ text = before ++ piece.text ++ after ∧
      piece.span = ⟨Text.byteLength before, Text.byteLength (before ++ piece.text)⟩ := by
  induction htiles generalizing front with
  | nil => simp at hpiece
  | @cons pos first rest pieces hne hspan _ ih =>
      rcases List.mem_cons.mp hpiece with rfl | hpiece
      · refine ⟨hne, front, rest, by simp, ?_⟩
        rw [hspan, ← hfront, Text.byteLength_append]
      · have hnext : Text.byteLength (front ++ first.text) =
            pos + Text.byteLength first.text := by
          rw [Text.byteLength_append, hfront]
        have haround := ih hnext hpiece
        rwa [List.append_assoc] at haround

/-- The ranges lie side by side from the one offset to the other. -/
def Token.Abut : Nat → Nat → List Token → Prop
  | start, stop, [] => start = stop
  | start, stop, token :: tokens =>
    token.range.start.val = start ∧ Token.Abut token.range.stop.val stop tokens

theorem Tiles.abut {pos : Nat} {text : List Char} {pieces : List Piece}
    (htiles : Tiles pos text pieces) (vocabulary : Vocabulary)
    (hsize : pos + Text.byteLength text ≤ TextSize.greatest) :
    Token.Abut pos (pos + Text.byteLength text) (pieces.map (Piece.token vocabulary)) := by
  induction htiles with
  | nil pos => simp [Token.Abut]
  | @cons pos piece rest pieces _ hspan _ ih =>
      rw [Text.byteLength_append, ← Nat.add_assoc] at hsize ⊢
      rw [List.map_cons, Token.Abut]
      simp only [Piece.token, hspan, TextRange.start_ofSpan, TextRange.stop_ofSpan]
      rw [TextSize.val_of (by omega), TextSize.val_of (by omega)]
      exact ⟨rfl, ih hsize⟩

theorem Piece.slice?_token {line : List Char} {piece : Piece} {before after : List Char}
    (vocabulary : Vocabulary)
    (hline : line = before ++ piece.text ++ after)
    (hspan : piece.span = ⟨Text.byteLength before, Text.byteLength (before ++ piece.text)⟩)
    (hsize : Text.byteLength line ≤ TextSize.greatest) :
    Text.slice? (piece.token vocabulary).range.start.val
        (piece.token vocabulary).range.stop.val line =
      some (piece.token vocabulary).text.toList := by
  have hlength := congrArg Text.byteLength hline
  rw [Text.byteLength_append, Text.byteLength_append] at hlength
  simp only [Piece.token, hspan, TextRange.start_ofSpan, TextRange.stop_ofSpan,
    Text.byteLength_append, String.toList_ofList]
  rw [TextSize.val_of (by omega), TextSize.val_of (by omega)]
  exact Text.slice?_eq_some_iff.mpr
    ⟨before, after, hline, rfl, (Text.byteLength_append _ _).symm⟩

theorem Text.isBoundary_of_slice? {start stop : Nat} {line middle : List Char}
    (hslice : Text.slice? start stop line = some middle) :
    Text.isBoundary start line = true ∧ Text.isBoundary stop line = true := by
  obtain ⟨before, after, hline, hstart, hstop⟩ := Text.slice?_eq_some_iff.mp hslice
  constructor
  · exact Text.isBoundary_iff.mpr
      ⟨before, middle ++ after, by rw [hline, List.append_assoc], hstart⟩
  · exact Text.isBoundary_iff.mpr ⟨before ++ middle, after, hline, hstop⟩

theorem Scanner.line_text (scanner : Scanner) (line : List Char) (state : StateId) :
    (scanner.line line state).text = String.ofList line := by
  have hflatten := (scanner.table.scan_tiles scanner.config.cap line state).flatten
  rw [← String.toList_inj, String.toList_ofList]
  refine Eq.trans ?_ hflatten
  simp [LineTokens.text, Scanner.line, Piece.token, List.flatMap_map]

theorem Scanner.text_ne_empty_of_mem_line
    {scanner : Scanner} {line : List Char} {state : StateId} {token : Token}
    (htoken : token ∈ (scanner.line line state).tokens) : token.text ≠ "" := by
  obtain ⟨piece, hpiece, rfl⟩ := List.mem_map.mp htoken
  have htiles := scanner.table.scan_tiles scanner.config.cap line state
  obtain ⟨hne, _⟩ := htiles.exists_around Text.byteLength_nil hpiece
  simpa [Piece.token] using hne

theorem Scanner.slice?_of_mem_line
    {scanner : Scanner} {line : List Char} {state : StateId} {token : Token}
    (hsize : Text.byteLength line ≤ TextSize.greatest)
    (htoken : token ∈ (scanner.line line state).tokens) :
    Text.slice? token.range.start.val token.range.stop.val line = some token.text.toList := by
  obtain ⟨piece, hpiece, rfl⟩ := List.mem_map.mp htoken
  have htiles := scanner.table.scan_tiles scanner.config.cap line state
  obtain ⟨_, before, after, hline, hspan⟩ := htiles.exists_around Text.byteLength_nil hpiece
  exact Piece.slice?_token scanner.vocabulary hline hspan hsize

/-- The tokens of a line are the line, cut without gaps. -/
theorem Scanner.line_covers (scanner : Scanner) (line : List Char) (state : StateId) :
    scanner.table.Scans scanner.config.cap (.start line) state 0
      (scanner.table.scan scanner.config.cap line state) ∧
    (scanner.line line state).text = String.ofList line ∧
    (∀ token ∈ (scanner.line line state).tokens, token.text ≠ "") ∧
    (Text.byteLength line ≤ TextSize.greatest →
      Token.Abut 0 (Text.byteLength line) (scanner.line line state).tokens ∧
      ∀ token ∈ (scanner.line line state).tokens,
        Text.isBoundary token.range.start.val line = true ∧
        Text.isBoundary token.range.stop.val line = true ∧
        Text.slice? token.range.start.val token.range.stop.val line =
          some token.text.toList) := by
  refine ⟨scanner.table.scan_scans _ line state, scanner.line_text line state,
    fun token htoken => Scanner.text_ne_empty_of_mem_line htoken, ?_⟩
  intro hsize
  constructor
  · have htiles := scanner.table.scan_tiles scanner.config.cap line state
    have habut := htiles.abut scanner.vocabulary (by omega)
    rwa [Nat.zero_add] at habut
  · intro token htoken
    have hslice := Scanner.slice?_of_mem_line hsize htoken
    obtain ⟨hstart, hstop⟩ := Text.isBoundary_of_slice? hslice
    exact ⟨hstart, hstop, hslice⟩

/-- One group inside another, and a character that no rule takes. -/
theorem Scanner.line_covers_nested_groups :
    Text.byteLength ['a', 'b', 'é'] ≤ TextSize.greatest ∧
    Token.Abut 0 (Text.byteLength ['a', 'b', 'é'])
      (Scanner.line
        { table :=
            { states :=
                [{ name := startName
                   rules :=
                     [{ labelling := .groups [.keyword, .string]
                        source := "((a)b)"
                        plan :=
                          .group 1 (.seq (.group 2 (.one (.single 'a'))) (.one (.single 'b')))
                        next := none }] }]
              start := ⟨0⟩ }
          vocabulary := .empty
          config := .default }
        ['a', 'b', 'é'] ⟨0⟩).tokens :=
  ⟨by decide, ((Scanner.line_covers _ ['a', 'b', 'é'] ⟨0⟩).2.2.2 (by decide)).1⟩

end Highlighter
