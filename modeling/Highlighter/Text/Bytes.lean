/-!
# Byte offsets

Texts are handled as lists of characters, positions in them as UTF-8 byte offsets. An offset is a
character boundary when the text can be cut there; `splitAt?` is both the cut and the test.
-/

namespace Highlighter.Text

/-- Number of bytes of the UTF-8 encoding. -/
def byteLength : List Char → Nat
  | [] => 0
  | c :: cs => c.utf8Size + byteLength cs

/-- The text before and from byte `n` on; `none` past the end and inside a character. -/
def splitAt? : Nat → List Char → Option (List Char × List Char)
  | 0, cs => some ([], cs)
  | _ + 1, [] => none
  | n + 1, c :: cs =>
    if c.utf8Size ≤ n + 1 then
      (splitAt? (n + 1 - c.utf8Size) cs).map fun (before, after) => (c :: before, after)
    else
      none

def isBoundary (n : Nat) (cs : List Char) : Bool :=
  (splitAt? n cs).isSome

/-- The bytes `start ≤ i < stop`; `none` unless both are boundaries in this order. -/
def slice? (start stop : Nat) (cs : List Char) : Option (List Char) :=
  if start ≤ stop then
    (splitAt? start cs).bind fun (_, after) =>
      (splitAt? (stop - start) after).map (·.1)
  else
    none

/-- The least boundary above `pos` of a text that starts at byte `offset`. -/
def boundaryAfter? (pos : Nat) : Nat → List Char → Option Nat
  | _, [] => none
  | offset, c :: cs =>
    if pos < offset + c.utf8Size then
      some (offset + c.utf8Size)
    else
      boundaryAfter? pos (offset + c.utf8Size) cs

/-- The characters that fit into the first `n` bytes. -/
def takeBytes : Nat → List Char → List Char
  | _, [] => []
  | n, c :: cs => if c.utf8Size ≤ n then c :: takeBytes (n - c.utf8Size) cs else []

/-- What `takeBytes` leaves. -/
def dropBytes : Nat → List Char → List Char
  | _, [] => []
  | n, c :: cs => if c.utf8Size ≤ n then dropBytes (n - c.utf8Size) cs else c :: cs

end Highlighter.Text
