import Highlighter.Scan
import Highlighter.Text.LineIndex

/-!
# Documents

A document keeps its text highlighted. Each line is kept with the state in which it was scanned;
after an edit the lines it touches are scanned again, and those behind them until one begins in the
state in which it was scanned before.

Which lines an edit touches is told by offsets, and these do not go beyond the greatest size. Behind
a longer text the lines kept may be fewer than those of the index, and an edit that takes lines away
which are not there cannot be finished.
-/

namespace Highlighter

/-- Replaces the bytes from `start` up to `stop` by `text`. -/
structure Edit where
  start : Nat
  stop : Nat
  text : List Char
deriving DecidableEq, Repr

namespace Edit

def insert (pos : Nat) (text : List Char) : Edit :=
  ⟨pos, pos, text⟩

def delete (start stop : Nat) : Edit :=
  ⟨start, stop, []⟩

/-- The bytes that the text grows by, as a signed 64-bit number; a reversed range has no bytes. -/
def delta (edit : Edit) : Int :=
  Int.bmod (Text.byteLength edit.text - (edit.stop - edit.start : Nat)) 0x10000000000000000

end Edit

inductive EditError where
  | outOfBounds (start stop length : Nat)
  | notBoundary (start stop : Nat)
deriving DecidableEq, Repr

def EditError.message : EditError → String
  | outOfBounds start stop length =>
    "edit range " ++ toString start ++ ".." ++ toString stop ++
      " is outside the document (length " ++ toString length ++ ")"
  | notBoundary start stop =>
    "edit range " ++ toString start ++ ".." ++ toString stop ++
      " does not fall on character boundaries"

/-- The text after the edit, if the edit fits it. -/
def Edit.applyTo (edit : Edit) (text : List Char) : Except EditError (List Char) :=
  if edit.stop < edit.start ∨ Text.byteLength text < edit.stop then
    .error (.outOfBounds edit.start edit.stop (Text.byteLength text))
  else
    match Text.splitAt? edit.start text, Text.splitAt? edit.stop text with
    | some (before, _), some (_, after) => .ok (before ++ edit.text ++ after)
    | _, _ => .error (.notBoundary edit.start edit.stop)

/-- A line with the state in which it was scanned. -/
structure LineEntry where
  startState : StateId
  tokens : LineTokens
deriving DecidableEq, Repr

structure Document where
  scanner : Scanner
  text : List Char
  index : LineIndex
  lines : List LineEntry
  /-- The number of edits made; it starts over behind the greatest number of 64 bits. -/
  version : UInt64
deriving DecidableEq, Repr

/-- Why an update does not come to its end. -/
inductive UpdateFailure where
  /-- The edit does not fit the text, and nothing was changed. -/
  | refused (error : EditError)
  /-- The lines could not be changed; what is left has the new text and the old lines. -/
  | stopped (left : Document)
deriving DecidableEq, Repr

/-- The lines that an edit touches, in the old and in the new text. -/
structure EditWindow where
  /-- The line before the one in which the edit begins, since a line feed put behind a carriage
  return joins it. -/
  first : Nat
  oldLast : Nat
  newLast : Nat
deriving DecidableEq, Repr

namespace EditWindow

def removed (window : EditWindow) : Nat :=
  window.oldLast - window.first + 1

def inserted (window : EditWindow) : Nat :=
  window.newLast - window.first + 1

/-- The window is not reversed, and of `count` lines there are those that it takes away. -/
def Fits (window : EditWindow) (count : Nat) : Prop :=
  window.first ≤ window.oldLast ∧
  window.first ≤ window.newLast ∧
  window.first + window.removed ≤ count

instance (window : EditWindow) (count : Nat) : Decidable (window.Fits count) :=
  inferInstanceAs (Decidable (_ ∧ _ ∧ _))

end EditWindow

/-- What an edit changed. -/
structure DocumentDelta where
  /-- The lines scanned again, as a span of line numbers. -/
  changed : Span
  removed : Nat
  inserted : Nat
  version : UInt64
deriving DecidableEq, Repr

namespace Scanner

def entry (scanner : Scanner) (state : StateId) (line : List Char) : LineEntry :=
  ⟨state, scanner.line line state⟩

def entries (scanner : Scanner) : StateId → List (List Char) → List LineEntry
  | _, [] => []
  | state, line :: lines =>
    let entry := scanner.entry state line
    entry :: scanner.entries entry.tokens.endState lines

/-- The state behind the last of the entries. -/
def stateBehind (scanner : Scanner) (entries : List LineEntry) : StateId :=
  (entries.getLast?.map (·.tokens.endState)).getD scanner.table.start

/-- Scans lines again up to the first that was scanned in the state it now begins in; also gives
their number. -/
def rescan (scanner : Scanner) : StateId → List LineEntry → List (List Char) → List LineEntry × Nat
  | _, [], _ => ([], 0)
  | state, old :: olds, lines =>
    if old.startState = state then
      (old :: olds, 0)
    else
      let entry := scanner.entry state (lines.headD [])
      let after := scanner.rescan entry.tokens.endState olds lines.tail
      (entry :: after.1, after.2 + 1)

end Scanner

namespace Document

def ofText (scanner : Scanner) (text : List Char) : Document :=
  let index := LineIndex.ofText text
  { scanner, text, index
    lines := scanner.entries scanner.table.start (index.contents text)
    version := 0 }

def lineCount (document : Document) : Nat :=
  document.lines.length

def line? (document : Document) (line : Nat) : Option LineTokens :=
  document.lines[line]?.map (·.tokens)

/-- The state in which a line ends. -/
def lineState? (document : Document) (line : Nat) : Option StateId :=
  (document.line? line).map (·.endState)

def window (document : Document) (edit : Edit) (newIndex : LineIndex) : EditWindow :=
  { first := document.index.lineOf (.of edit.start) - 1
    oldLast := document.index.lineOf (.of edit.stop)
    newLast := newIndex.lineOf (.of (edit.start + Text.byteLength edit.text)) }

/-- The document with another text, its lines still those of the old one. -/
def withText (document : Document) (text : List Char) (index : LineIndex) : Document :=
  { document with text, index, version := document.version + 1 }

/-- The document with `text` for its text, when the lines of `window` are those that changed. -/
def rehighlight (document : Document) (text : List Char) (index : LineIndex)
    (window : EditWindow) : Document × DocumentDelta :=
  let scanner := document.scanner
  let contents := index.contents text
  let kept := document.lines.take window.first
  let fresh := scanner.entries (scanner.stateBehind kept)
    ((contents.drop window.first).take window.inserted)
  let block := kept ++ fresh
  let tail := scanner.rescan (scanner.stateBehind block)
    (document.lines.drop (window.first + window.removed))
    (contents.drop (window.first + window.inserted))
  let after := document.withText text index
  ({ after with lines := block ++ tail.1 },
   { changed := ⟨window.first, window.first + window.inserted + tail.2⟩
     removed := window.removed
     inserted := window.inserted
     version := after.version })

/-- Makes the edit and highlights again what it changed. -/
def update (document : Document) (edit : Edit) :
    Except UpdateFailure (Document × DocumentDelta) :=
  match edit.applyTo document.text with
  | .error error => .error (.refused error)
  | .ok text =>
    let index := LineIndex.ofText text
    let window := document.window edit index
    if window.Fits document.lineCount then .ok (document.rehighlight text index window)
    else .error (.stopped (document.withText text index))

end Document

end Highlighter
