import Highlighter.Text.Bytes
import Highlighter.Text.Span

/-!
# Line index

Where the lines of a text stand. A line feed, a carriage return and the two together each end a
line, so a text that ends with one of them has an empty last line.
-/

namespace Highlighter

structure LineIndex where
  /-- The ranges of the lines without their terminators. -/
  lines : List TextRange
  textLength : TextSize
deriving DecidableEq, Repr

namespace LineIndex

/-- Ranges of the lines when the current one began at byte `start` and has been read up to byte
`offset`. -/
def split : Nat → Nat → List Char → List TextRange
  | start, offset, [] => [.ofSpan ⟨start, offset⟩]
  | start, offset, '\r' :: '\n' :: cs =>
    .ofSpan ⟨start, offset⟩ :: split (offset + 2) (offset + 2) cs
  | start, offset, c :: cs =>
    if c = '\n' ∨ c = '\r' then
      .ofSpan ⟨start, offset⟩ :: split (offset + 1) (offset + 1) cs
    else
      split start (offset + c.utf8Size) cs

def ofText (text : List Char) : LineIndex :=
  ⟨split 0 0 text, TextSize.of (Text.byteLength text)⟩

def lineCount (index : LineIndex) : Nat :=
  index.lines.length

def range? (index : LineIndex) (line : Nat) : Option TextRange :=
  index.lines[line]?

def slice? (text : List Char) (range : TextRange) : Option (List Char) :=
  Text.slice? range.start.val range.stop.val text

/-- The content of a line, cut out of the text that the index belongs to. -/
def line? (index : LineIndex) (text : List Char) (line : Nat) : Option (List Char) :=
  (index.range? line).bind (slice? text)

/-- The contents of all lines; empty where the text cannot be cut. -/
def contents (index : LineIndex) (text : List Char) : List (List Char) :=
  index.lines.map fun range => (slice? text range).getD []

/-- The last line that starts at or before the offset. Lines start at different offsets up to the
greatest one; of those that start there, any might be given. -/
def lineOf (index : LineIndex) (offset : TextSize) : Nat :=
  let offset := offset.min index.textLength
  (index.lines.takeWhile fun range => range.start.val ≤ offset.val).length - 1

end LineIndex

end Highlighter
