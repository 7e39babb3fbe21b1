import Highlighter.Pattern.Assertion
import Highlighter.Pattern.CharSet

/-!
# Patterns

The tree of a regular expression with prioritized choice: `alt p q` prefers `p`, and a repetition
prefers one more time when it is greedy and to stop when it is not.
-/

namespace Highlighter

inductive Pattern where
  | empty
  /-- These characters, one after the other. -/
  | literal (cs : List Char)
  /-- One character of the set. -/
  | one (alphabet : Alphabet) (set : CharSet)
  | look (assertion : Assertion)
  | seq (p q : Pattern)
  | alt (p q : Pattern)
  /-- Records what `p` matches as capture group `index`. -/
  | group (index : Nat) (p : Pattern)
  /-- From `least` to `most` times `p`, without a bound if `most` is `none`. -/
  | times (greedy : Bool) (least : Nat) (most : Option Nat) (p : Pattern)
deriving DecidableEq, Repr

namespace Pattern

/-- The pattern that matches nowhere. -/
def never : Pattern :=
  one .ascii .empty

def groupCount : Pattern → Nat
  | empty => 0
  | literal _ => 0
  | one _ _ => 0
  | look _ => 0
  | seq p q => p.groupCount + q.groupCount
  | alt p q => p.groupCount + q.groupCount
  | group _ p => p.groupCount + 1
  | times _ _ _ p => p.groupCount

/-- A bound on the number of characters taken, from below. A pattern with a set of no characters in
it has none. -/
def leastTaken : Pattern → Option Nat
  | empty => some 0
  | literal cs => some cs.length
  | one _ set => if set = .empty then none else some 1
  | look _ => some 0
  | seq p q =>
    match p.leastTaken, q.leastTaken with
    | some m, some n => some (m + n)
    | _, _ => none
  | alt p q =>
    match p.leastTaken, q.leastTaken with
    | some m, some n => some (min m n)
    | _, _ => none
  | group _ p => p.leastTaken
  | times _ least _ p => p.leastTaken.map (least * ·)

/-- Whether it is plain that every match takes characters. -/
def takesSome (p : Pattern) : Bool :=
  p.leastTaken.any (0 < ·)

/-- Whether it is plain that no match takes a character. -/
def takesNone : Pattern → Bool
  | empty => true
  | literal _ => false
  | one _ _ => false
  | look _ => true
  | seq p q => p.takesNone && q.takesNone
  | alt p q => p.takesNone && q.takesNone
  | group _ p => p.takesNone
  | times _ _ most p => most.isSome && p.takesNone

/-! ### Sequences and choices as lists -/

/-- What a pattern is a sequence of. -/
def parts : Pattern → List Pattern
  | empty => []
  | seq p q => p.parts ++ q.parts
  | p => [p]

/-- What a pattern is a choice of. -/
def branches : Pattern → List Pattern
  | alt p q => p.branches ++ q.branches
  | p => [p]

def ofParts : List Pattern → Pattern
  | [] => empty
  | [p] => p
  | p :: ps => seq p (ofParts ps)

def ofBranches : List Pattern → Pattern
  | [] => never
  | [p] => p
  | p :: ps => alt p (ofBranches ps)

def isSeq : Pattern → Bool
  | seq _ _ => true
  | _ => false

/-- The character that alone the pattern matches. -/
def char? : Pattern → Option Char
  | literal [c] => some c
  | _ => none

def set? : Pattern → Option CharSet
  | one _ set => some set
  | _ => none

end Pattern

end Highlighter
