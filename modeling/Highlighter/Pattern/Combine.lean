import Highlighter.Pattern.Basic

/-!
# Combining patterns

Patterns are put together in a simplified form: characters in a row become one literal, choices of
single characters become a set, and what the branches of a choice begin with alike is matched once,
before the choice. This last step may change which match is preferred: `.*a|.*b` prefers the longest
match that ends in either letter, as `.*[ab]` does.
-/

namespace Highlighter.Pattern

/-- One character of the set; a set of a single one is that character. -/
def ofSet (alphabet : Alphabet) (set : CharSet) : Pattern :=
  match set.ranges with
  | [] => never
  | [(lo, hi)] => if lo = hi then literal [Char.ofNat lo] else one alphabet set
  | _ => one alphabet set

/-- Puts a part before others; two literals in a row become one. -/
def consPart : Pattern → List Pattern → List Pattern
  | literal cs, literal ds :: ps => literal (cs ++ ds) :: ps
  | p, ps => p :: ps

def sequence (ps : List Pattern) : Pattern :=
  ofParts ((ps.flatMap parts).foldr consPart [])

/-- A choice of branches none of which is a choice. -/
def choice (ps : List Pattern) : Pattern :=
  match ps with
  | [p] => p
  | _ =>
    match ps.mapM char? with
    | some cs => ofSet .unicode (.ofChars cs)
    | none =>
      match ps.mapM set? with
      | some sets => ofSet .unicode (.ofList sets)
      | none => ofBranches ps

/-- What two lists begin with alike. -/
def sharedStart : List Pattern → List Pattern → List Pattern
  | p :: ps, q :: qs => if p = q then p :: sharedStart ps qs else []
  | _, _ => []

/-- The parts that all of several sequences begin with. -/
def sharedParts : List Pattern → List Pattern
  | [] => []
  | [p] => if p.isSeq then p.parts else []
  | p :: ps => if p.isSeq then sharedStart p.parts (sharedParts ps) else []

/-- A choice in which what the branches share at their start stands before it. What is left of the
branches shares nothing any more. -/
def alternatives (ps : List Pattern) : Pattern :=
  match ps.flatMap branches with
  | [p] => p
  | bs =>
    match sharedParts bs with
    | [] => choice bs
    | shared =>
      let rests := bs.map fun b => sequence (b.parts.drop shared.length)
      sequence (shared ++ [choice (rests.flatMap branches)])

/-- A repetition. One of what takes no characters is tried at most once, and nothing is left of a
pattern to be matched no times, its groups included. -/
def repeated (greedy : Bool) (least : Nat) (most : Option Nat) (p : Pattern) : Pattern :=
  let least := if p.takesNone then min least 1 else least
  let most := if p.takesNone then some (min (most.getD 1) 1) else most
  if least = 0 ∧ most = some 0 then empty
  else if least = 1 ∧ most = some 1 then p
  else times greedy least most p

end Highlighter.Pattern
