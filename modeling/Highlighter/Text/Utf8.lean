/-!
# Ranges of characters in UTF-8

In UTF-8 a range of characters is a union of products of byte ranges: it is cut where the number of
bytes changes and where a byte that is not the last one changes, unless all of its last bytes occur.
-/

namespace Highlighter.Text

/-- The bytes of a code point. -/
def utf8Bytes (n : Nat) : List Nat :=
  if n ≤ 0x7F then [n]
  else if n ≤ 0x7FF then [0xC0 + n / 64, 0x80 + n % 64]
  else if n ≤ 0xFFFF then [0xE0 + n / 4096, 0x80 + n / 64 % 64, 0x80 + n % 64]
  else [0xF0 + n / 262144, 0x80 + n / 4096 % 64, 0x80 + n / 64 % 64, 0x80 + n % 64]

/-- Where the number of bytes changes between `lo` and `hi`: the last code point before. -/
def lengthCut? (lo hi : Nat) : Option Nat :=
  [0x7F, 0x7FF, 0xFFFF].find? fun last => lo ≤ last && last < hi

/-- Where the range leaves a block of `size` code points of which it has only a part: the last code
point before. -/
def blockCut? (lo hi size : Nat) : Option Nat :=
  if lo / size = hi / size then none
  else if lo % size ≠ 0 then some (lo / size * size + (size - 1))
  else if hi % size ≠ size - 1 then some (hi / size * size - 1)
  else none

def byteCut? (lo hi : Nat) : Option Nat :=
  lengthCut? lo hi <|>
    (if hi ≤ 0x7F then none else [64, 4096, 262144].findSome? (blockCut? lo hi))

/-- The ranges that a range is cut into, with at most `depth` cuts one inside the other. -/
def cutRange : Nat → Nat → Nat → List (Nat × Nat)
  | 0, lo, hi => [(lo, hi)]
  | depth + 1, lo, hi =>
    if lo ≤ 0xD7FF ∧ 0xD7FF < hi then cutRange depth lo 0xD7FF ++ cutRange depth 0xE000 hi
    else
      match byteCut? lo hi with
      | some last => cutRange depth lo last ++ cutRange depth (last + 1) hi
      | none => [(lo, hi)]

/-- The products of byte ranges that a range of characters is made of, in order. -/
def utf8Products (range : Nat × Nat) : List (List (Nat × Nat)) :=
  (cutRange 32 range.1 range.2).map fun (lo, hi) => (utf8Bytes lo).zip (utf8Bytes hi)

end Highlighter.Text
