import Highlighter.Table.Basic
import Highlighter.Text.Bytes
import Highlighter.Token
import Highlighter.Vocabulary

/-!
# Scanning lines

A line is scanned step by step: the winning rule's match is cut into pieces and its next state is
taken; where no rule matches, one character is plain text. The pieces cover the line, and only when
the line is done does the vocabulary turn them into tokens. A line that has given as many pieces as
the cap allows is cut short: what is left of it is one piece of plain text.
-/

namespace Highlighter

/-- What is known of a piece's label before the vocabulary is asked. -/
inductive Mark where
  | label (label : Label)
  | classify
deriving DecidableEq, Repr

structure Piece where
  mark : Mark
  span : Span
  text : List Char
deriving DecidableEq, Repr

def Mark.resolve (vocabulary : Vocabulary) (word : String) : Mark → Label
  | label l => l
  | classify => (vocabulary.classify word).label

def Piece.token (vocabulary : Vocabulary) (piece : Piece) : Token :=
  let text := String.ofList piece.text
  ⟨piece.mark.resolve vocabulary text, text, .ofSpan piece.span⟩

/-- Where the pieces of a match end, the first one beginning at `pos`. Groups are taken in order;
one that is empty or begins before the end of the last one taken is passed over, and what lies
outside of those taken is plain text. -/
def groupCuts (stop : Nat) : Nat → List (Label × Span) → List (Mark × Nat)
  | pos, [] => if pos < stop then [(.label .text, stop)] else []
  | pos, (label, span) :: groups =>
    if span.start < pos || span.isEmpty then
      groupCuts stop pos groups
    else if pos < span.start then
      (.label .text, span.start) :: (.label label, span.stop) :: groupCuts stop span.stop groups
    else
      (.label label, span.stop) :: groupCuts stop span.stop groups

def RuleMatch.cuts (m : RuleMatch) : List (Mark × Nat) :=
  match m.label with
  | .whole label => [(.label label, m.span.stop)]
  | .classify => [(.classify, m.span.stop)]
  | .groups groups => groupCuts m.span.stop m.span.start groups

/-- Cuts a text that begins at byte `pos` into pieces. -/
def cutPieces : Nat → List Char → List (Mark × Nat) → List Piece
  | _, _, [] => []
  | pos, text, (mark, stop) :: cuts =>
    ⟨mark, ⟨pos, stop⟩, Text.takeBytes (stop - pos) text⟩ ::
      cutPieces stop (Text.dropBytes (stop - pos) text) cuts

/-- The text from the cursor on as one piece. -/
def Cursor.remainder (cursor : Cursor) : Piece :=
  ⟨.label .text, ⟨cursor.offset, cursor.offset + Text.byteLength cursor.rest⟩, cursor.rest⟩

/-- The pieces from a cursor on, and the state behind them, when `count` pieces lie before it. Each
step takes a character, so the number of characters left bounds the number of steps. -/
def RuleTable.scanFrom (table : RuleTable) (cap : Option Nat) :
    Nat → Cursor → StateId → Nat → List Piece × StateId
  | 0, _, state, _ => ([], state)
  | fuel + 1, cursor, state, count =>
    match cursor.rest with
    | [] => ([], state)
    | c :: cs =>
      if cap.any (· ≤ count) then
        ([cursor.remainder], table.start)
      else
        match table.matchFrom? state cursor with
        | some (m, behind) =>
          let pieces := cutPieces cursor.offset cursor.rest m.cuts
          let after := table.scanFrom cap fuel behind m.next (count + pieces.length)
          (pieces ++ after.1, after.2)
        | none =>
          let behind := cursor.past c cs
          let after := table.scanFrom cap fuel behind state (count + 1)
          (⟨.label .text, ⟨cursor.offset, behind.offset⟩, [c]⟩ :: after.1, after.2)

def RuleTable.scan (table : RuleTable) (cap : Option Nat) (line : List Char) (state : StateId) :
    List Piece × StateId :=
  table.scanFrom cap line.length (.start line) state 0

/-- The tokens of a line, and the state in which the next line begins. -/
structure LineTokens where
  tokens : List Token
  endState : StateId
deriving DecidableEq, Repr

namespace LineTokens

def merged (line : LineTokens) : List Token :=
  Token.merge line.tokens

def text (line : LineTokens) : String :=
  String.join (line.tokens.map (·.text))

end LineTokens

structure ScanConfig where
  /-- The cap on the tokens of a line. -/
  maxTokens : Option UInt64
deriving DecidableEq, Repr

namespace ScanConfig

def defaultMaxTokens : UInt64 :=
  2000

def default : ScanConfig :=
  ⟨some defaultMaxTokens⟩

def cap (config : ScanConfig) : Option Nat :=
  config.maxTokens.map UInt64.toNat

end ScanConfig

structure Scanner where
  table : RuleTable
  vocabulary : Vocabulary
  config : ScanConfig
deriving DecidableEq, Repr

namespace Scanner

def line (scanner : Scanner) (line : List Char) (state : StateId) : LineTokens :=
  let result := scanner.table.scan scanner.config.cap line state
  ⟨result.1.map (Piece.token scanner.vocabulary), result.2⟩

/-- Scans lines one after another, each in the state in which the one before ended. -/
def linesFrom (scanner : Scanner) : StateId → List (List Char) → List LineTokens
  | _, [] => []
  | state, line :: lines =>
    let tokens := scanner.line line state
    tokens :: scanner.linesFrom tokens.endState lines

def lines (scanner : Scanner) (lines : List (List Char)) : List LineTokens :=
  scanner.linesFrom scanner.table.start lines

end Scanner

/-- A single step of a scan at any position. -/
inductive Step where
  | matched (m : RuleMatch)
  /-- No rule matches; plain text reaches to the next character boundary. -/
  | noMatch (length : Nat)
  /-- The position behind this one cannot be represented. -/
  | overflow
deriving DecidableEq, Repr

/-- Positions are 64-bit numbers. -/
def greatestPosition : Nat :=
  0xFFFFFFFFFFFFFFFF

def RuleTable.step (table : RuleTable) (line : List Char) (pos : Nat) (state : StateId) : Step :=
  match table.matchAt? state line pos with
  | some m => .matched m
  | none =>
    if pos < greatestPosition then
      match Text.boundaryAfter? pos 0 line with
      | some boundary => .noMatch (boundary - pos)
      | none => .noMatch 1
    else
      .overflow

end Highlighter
