/-!
# Spans and sizes

A `Span` is a pair of byte offsets. `TextSize` and `TextRange` are their compact forms: a size that
does not fit into 32 bits is stored as the greatest one that does.
-/

namespace Highlighter

structure Span where
  start : Nat
  stop : Nat
deriving DecidableEq, Repr

def Span.isEmpty (s : Span) : Bool :=
  s.stop ≤ s.start

structure TextSize where
  val : Nat
  val_lt : val < 0x100000000
deriving DecidableEq, Repr

namespace TextSize

def greatest : Nat :=
  0xFFFFFFFF

/-- The size `n`, or the greatest size if `n` is above it. -/
def of (n : Nat) : TextSize :=
  ⟨min n greatest, by simp only [greatest]; omega⟩

def zero : TextSize :=
  of 0

protected def min (a b : TextSize) : TextSize :=
  if a.val ≤ b.val then a else b

end TextSize

instance : Ord TextSize :=
  ⟨fun a b => compare a.val b.val⟩

/-- A range may be reversed: nothing orders its ends. -/
structure TextRange where
  start : TextSize
  stop : TextSize
deriving DecidableEq, Repr

namespace TextRange

def ofSpan (s : Span) : TextRange :=
  ⟨TextSize.of s.start, TextSize.of s.stop⟩

def span (r : TextRange) : Span :=
  ⟨r.start.val, r.stop.val⟩

def empty : TextRange :=
  ⟨TextSize.zero, TextSize.zero⟩

end TextRange

end Highlighter
