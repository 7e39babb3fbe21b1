import Highlighter.Pattern.Basic
import Highlighter.Text.Bytes
import Highlighter.Text.Utf8

/-!
# The size of patterns

The size of a pattern is an estimate of the memory, in bytes, that the states of an automaton for it
take which reads lines byte by byte, with its repetitions written out. Patterns above a limit are
refused. An engine that builds its automaton in another way may draw the line elsewhere: only for
patterns whose size is well below the limit, or well above it, is the estimate meant to decide.
-/

namespace Highlighter

/-- A state of the automaton. -/
def stateSize : Nat :=
  32

/-- A state that goes on in one of two ways. -/
def forkSize : Nat :=
  stateSize + 8

/-- The number of byte ranges that a list of products needs when each shares with the one before it
what both begin with. -/
def branchCount : List (Nat × Nat) → List (List (Nat × Nat)) → Nat
  | _, [] => 0
  | last, product :: products =>
    product.length - shared last product + branchCount product products
where
  shared : List (Nat × Nat) → List (Nat × Nat) → Nat
    | r :: rs, t :: ts => if r = t then shared rs ts + 1 else 0
    | _, _ => 0

def CharSet.isAscii (s : CharSet) : Bool :=
  s.ranges.all fun (_, hi) => hi ≤ 0x7F

/-- A set of ASCII characters is one state with a way for each range; any other takes a state for
each byte range. -/
def CharSet.size (s : CharSet) : Nat :=
  if s.isAscii then 2 * stateSize + 8 * s.ranges.length
  else
    let products := s.ranges.flatMap Text.utf8Products
    2 * stateSize + 4 * products.length + stateSize * branchCount [] products

namespace Pattern

/-- The size of a repetition of a pattern of size `n`. -/
def timesSize (least : Nat) (most : Option Nat) (takesSome : Bool) (n : Nat) : Nat :=
  match most with
  | none =>
    if 0 < least then least * n + forkSize
    else if takesSome then n + forkSize
    else n + 2 * forkSize + stateSize
  | some most =>
    if least = most then least * n
    else most * n + (most - least) * forkSize + stateSize

def size : Pattern → Nat
  | empty => stateSize
  | literal cs => stateSize * Text.byteLength cs
  | one _ set => set.size
  | look _ => stateSize
  | seq p q => p.size + q.size
  | alt p q => p.size + q.size + forkSize + stateSize
  | group _ p => p.size + 2 * stateSize
  | times _ least most p => timesSize least most p.takesSome p.size

def sizeLimit : Nat :=
  10485760

end Pattern

end Highlighter
