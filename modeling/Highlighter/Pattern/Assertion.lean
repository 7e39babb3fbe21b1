import Highlighter.Text.Cursor
import Highlighter.Text.WordChar

/-!
# Assertions

An assertion takes no characters; it holds at a cursor or it does not.
-/

namespace Highlighter

/-- The characters that a piece of a pattern is about. -/
inductive Alphabet where
  | unicode
  | ascii
deriving DecidableEq, Repr

def Alphabet.isWord : Alphabet → Char → Bool
  | unicode => Text.isWord
  | ascii => Text.isAsciiWord

inductive Assertion where
  | textStart
  | textEnd
  /-- Behind a line feed, or at the start. -/
  | lineStart
  | lineEnd
  /-- Behind a line feed or a carriage return, but not between the two; or at the start. -/
  | anyLineStart
  | anyLineEnd
  /-- A word character on exactly one side. -/
  | wordEdge (alphabet : Alphabet)
  | notWordEdge (alphabet : Alphabet)
  | wordStart (alphabet : Alphabet)
  | wordEnd (alphabet : Alphabet)
  /-- No word character before. -/
  | noWordBefore (alphabet : Alphabet)
  | noWordAfter (alphabet : Alphabet)
deriving DecidableEq, Repr

namespace Cursor

def wordBefore (cursor : Cursor) (alphabet : Alphabet) : Bool :=
  cursor.before.any alphabet.isWord

def wordAfter (cursor : Cursor) (alphabet : Alphabet) : Bool :=
  cursor.rest.head?.any alphabet.isWord

def atWordEdge (cursor : Cursor) (alphabet : Alphabet) : Bool :=
  cursor.wordBefore alphabet != cursor.wordAfter alphabet

/-- Whether the cursor stands between a carriage return and its line feed. -/
def insideLineBreak (cursor : Cursor) : Bool :=
  cursor.before == some '\r' && cursor.rest.head? == some '\n'

end Cursor

def isLineBreak (c : Char) : Bool :=
  c == '\n' || c == '\r'

def Assertion.holds : Assertion → Cursor → Bool
  | textStart, cursor => cursor.before.isNone
  | textEnd, cursor => cursor.atEnd
  | lineStart, cursor => cursor.before.all (· == '\n')
  | lineEnd, cursor => cursor.rest.head?.all (· == '\n')
  | anyLineStart, cursor => cursor.before.all isLineBreak && !cursor.insideLineBreak
  | anyLineEnd, cursor => cursor.rest.head?.all isLineBreak && !cursor.insideLineBreak
  | wordEdge alphabet, cursor => cursor.atWordEdge alphabet
  | notWordEdge alphabet, cursor => !cursor.atWordEdge alphabet
  | wordStart alphabet, cursor => !cursor.wordBefore alphabet && cursor.wordAfter alphabet
  | wordEnd alphabet, cursor => cursor.wordBefore alphabet && !cursor.wordAfter alphabet
  | noWordBefore alphabet, cursor => !cursor.wordBefore alphabet
  | noWordAfter alphabet, cursor => !cursor.wordAfter alphabet

end Highlighter
