/-!
# Range tables

A character property is given by its ranges of code points in increasing order.
-/

namespace Highlighter.Text

/-- Inclusive ranges of code points, increasing and disjoint. -/
abbrev RangeTable := List (Nat × Nat)

/-- Whether a range holds `n`; the search ends at the first range above it. -/
def RangeTable.containsCode (n : Nat) : RangeTable → Bool
  | [] => false
  | (lo, hi) :: ranges =>
    if n < lo then false else n ≤ hi || RangeTable.containsCode n ranges

def RangeTable.contains (table : RangeTable) (c : Char) : Bool :=
  table.containsCode c.toNat

end Highlighter.Text
