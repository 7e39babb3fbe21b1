/-!
# Cursors

A cursor stands between two characters of a line. It knows its byte offset, the character before
it and the characters after it, which is all that a pattern can see.
-/

namespace Highlighter

structure Cursor where
  offset : Nat
  before : Option Char
  rest : List Char
deriving DecidableEq, Repr

namespace Cursor

def start (line : List Char) : Cursor :=
  ⟨0, none, line⟩

/-- The cursor behind the next character `c`, before `cs`. -/
def past (cursor : Cursor) (c : Char) (cs : List Char) : Cursor :=
  ⟨cursor.offset + c.utf8Size, some c, cs⟩

def atEnd (cursor : Cursor) : Bool :=
  cursor.rest.isEmpty

/-- Moves a cursor forward to byte `pos`, as `at?` says. -/
def seek? (pos : Nat) : Nat → Option Char → List Char → Option Cursor
  | _, _, [] => none
  | offset, before, c :: cs =>
    if offset = pos then
      some ⟨offset, before, c :: cs⟩
    else if offset < pos then
      seek? pos (offset + c.utf8Size) (some c) cs
    else
      none

/-- The cursor at byte `pos`; `none` at or past the end of the line and inside a character. -/
def at? (line : List Char) (pos : Nat) : Option Cursor :=
  seek? pos 0 none line

end Cursor

end Highlighter
