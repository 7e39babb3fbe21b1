import Highlighter.Text.CaseFold
import Highlighter.Text.Letter
import Highlighter.Text.Blank

/-!
# Character sets

A set of characters is given by its ranges of code points in increasing order, no two of which
overlap or touch. Two descriptions of a set thus give one value, and patterns can be compared.
Surrogates are no characters; a range may run over them, but none begins or ends there.
-/

namespace Highlighter

structure CharSet where
  ranges : Text.RangeTable
deriving DecidableEq, Repr

namespace CharSet

open Text (RangeTable)

def contains (s : CharSet) (c : Char) : Bool :=
  s.ranges.contains c

def empty : CharSet :=
  ⟨[]⟩

/-- The characters from `lo` to `hi`, both included. -/
def range (lo hi : Char) : CharSet :=
  ⟨[(lo.toNat, hi.toNat)]⟩

def single (c : Char) : CharSet :=
  range c c

def blank : CharSet :=
  ⟨Text.blankRanges⟩

def digit : CharSet :=
  ⟨Text.digitRanges⟩

def word : CharSet :=
  ⟨Text.wordRanges⟩

/-! ### Union -/

/-- Adds the code points from `lo` to `hi`; ranges that overlap or touch become one. -/
def addRange (lo hi : Nat) : RangeTable → RangeTable
  | [] => [(lo, hi)]
  | (a, b) :: ranges =>
    if hi + 1 < a then (lo, hi) :: (a, b) :: ranges
    else if b + 1 < lo then (a, b) :: addRange lo hi ranges
    else addRange (min lo a) (max hi b) ranges

def addRanges (new ranges : RangeTable) : RangeTable :=
  new.foldl (fun ranges (lo, hi) => addRange lo hi ranges) ranges

/-- Adds the ranges of the set that has fewer. -/
def union (s t : CharSet) : CharSet :=
  if s.ranges.length ≤ t.ranges.length then ⟨addRanges s.ranges t.ranges⟩
  else ⟨addRanges t.ranges s.ranges⟩

def ofList (sets : List CharSet) : CharSet :=
  sets.foldl union empty

def ofChars (cs : List Char) : CharSet :=
  ofList (cs.map single)

/-! ### Complement and difference -/

def greatestCode : Nat :=
  0x10FFFF

/-- The code point behind `n`, which is no surrogate. -/
def codeAfter (n : Nat) : Nat :=
  if n = 0xD7FF then 0xE000 else n + 1

/-- The code point before `n`, which is no surrogate. -/
def codeBefore (n : Nat) : Nat :=
  if n = 0xE000 then 0xD7FF else n - 1

/-- The range with these two ends, whichever is the lower one. -/
def between (a b : Nat) : Nat × Nat :=
  (min a b, max a b)

/-- What lies behind `last` and outside of the ranges, all of which lie behind it. Between two
ranges that only surrogates keep apart, the ends change places. -/
def gapsAfter (last : Nat) : RangeTable → RangeTable
  | [] => if last < greatestCode then [(codeAfter last, greatestCode)] else []
  | (lo, hi) :: ranges => between (codeAfter last) (codeBefore lo) :: gapsAfter hi ranges

def gaps : RangeTable → RangeTable
  | [] => [(0, greatestCode)]
  | (lo, hi) :: ranges =>
    if 0 < lo then (0, codeBefore lo) :: gapsAfter hi ranges else gapsAfter hi ranges

def compl (s : CharSet) : CharSet :=
  ⟨gaps s.ranges⟩

/-- What two ranges have in common. -/
def overlap? (r t : Nat × Nat) : Option (Nat × Nat) :=
  if max r.1 t.1 ≤ min r.2 t.2 then some (max r.1 t.1, min r.2 t.2) else none

def inter (s t : CharSet) : CharSet :=
  ⟨s.ranges.flatMap fun r => t.ranges.filterMap (overlap? r)⟩

/-- What the ranges leave of the range from `lo` to `hi`. -/
def cut (lo hi : Nat) : RangeTable → RangeTable
  | [] => [(lo, hi)]
  | (a, b) :: ranges =>
    if b < lo then cut lo hi ranges
    else if hi < a then [(lo, hi)]
    else
      (if lo < a then [(lo, codeBefore a)] else []) ++
        (if b < hi then cut (codeAfter b) hi ranges else [])

def diff (s t : CharSet) : CharSet :=
  ⟨s.ranges.flatMap fun (lo, hi) => cut lo hi t.ranges⟩

def symmDiff (s t : CharSet) : CharSet :=
  (s.union t).diff (s.inter t)

/-! ### Case -/

/-- Adds the code points at the other end of the pairs that have an end in the set: first what its
members fold to, then whatever folds to the same. -/
def foldedBy (pairs : List (Nat × Nat)) (s : CharSet) : CharSet :=
  let images := pairs.filter fun (code, _) => s.ranges.containsCode code
  let ranges := images.foldl (fun ranges (_, image) => addRange image image ranges) s.ranges
  let sources := pairs.filter fun (_, image) => RangeTable.containsCode image ranges
  ⟨sources.foldl (fun ranges (code, _) => addRange code code ranges) ranges⟩

/-- The members in either case. -/
def folded (s : CharSet) : CharSet :=
  s.foldedBy Text.foldPairs

/-- The same, where only ASCII letters have two cases. -/
def asciiFolded (s : CharSet) : CharSet :=
  s.foldedBy (Text.FoldRun.pairs ⟨0x41, 0x5A, 1, 0x61⟩)

/-! ### ASCII -/

def ascii : CharSet :=
  range '\x00' '\x7f'

def asciiDigit : CharSet :=
  range '0' '9'

def asciiBlank : CharSet :=
  ⟨[(0x9, 0xD), (0x20, 0x20)]⟩

def asciiLetter : CharSet :=
  ⟨[(0x41, 0x5A), (0x61, 0x7A)]⟩

def asciiWord : CharSet :=
  ⟨[(0x30, 0x39), (0x41, 0x5A), (0x5F, 0x5F), (0x61, 0x7A)]⟩

end CharSet

end Highlighter
