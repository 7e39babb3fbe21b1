import Highlighter.Pattern.Basic

/-!
# Plans

A plan is a pattern as it is matched: literals are taken apart, and repetitions are written out as
copies, choices and loops.
-/

namespace Highlighter

inductive Plan where
  | empty
  /-- One character of the set. -/
  | one (set : CharSet)
  | look (assertion : Assertion)
  | seq (p q : Plan)
  | alt (p q : Plan)
  /-- Records what `p` matches as capture group `index`. -/
  | group (index : Nat) (p : Plan)
  /-- Any number of times `p`, each of them taking characters. -/
  | star (greedy : Bool) (p : Plan)
  /-- Once `p`, and then any number of times, each of them taking characters. -/
  | many (greedy : Bool) (p : Plan)
  /-- Matches `p`, but only the first time that the attempt comes by at a place. -/
  | once (id : Nat) (p : Plan)
deriving DecidableEq, Repr

namespace Plan

def seqAll : List Plan → Plan
  | [] => empty
  | [p] => p
  | p :: ps => seq p (seqAll ps)

def optional (greedy : Bool) (p : Plan) : Plan :=
  if greedy then alt p empty else alt empty p

/-- Any number of times `p`. If `p` may take nothing, it may do so once. -/
def anyTimes (greedy takesSome : Bool) (p : Plan) : Plan :=
  if takesSome then star greedy p else optional greedy (many greedy p)

/-- At most `n` times `p`, each time only after the one before. -/
def atMost (greedy : Bool) (p : Plan) : Nat → Plan
  | 0 => empty
  | n + 1 => optional greedy (seq p (atMost greedy p n))

/-- From `least` to `most` times `p`; `takesSome` says that `p` always takes characters. -/
def times (greedy takesSome : Bool) (least : Nat) (most : Option Nat) (p : Plan) : Plan :=
  match most, least with
  | none, 0 => anyTimes greedy takesSome p
  | none, n + 1 => seqAll (List.replicate n p ++ [many greedy p])
  | some most, least =>
    if least = most then seqAll (List.replicate least p)
    else seqAll (List.replicate least p ++ [atMost greedy p (most - least)])

end Plan

def Pattern.plan : Pattern → Plan
  | empty => .empty
  | literal cs => .seqAll (cs.map fun c => .one (.single c))
  | one _ set => .one set
  | look assertion => .look assertion
  | seq p q => .seq p.plan q.plan
  | alt p q => .alt p.plan q.plan
  | group index p => .group index p.plan
  | times greedy least most p => .times greedy p.takesSome least most p.plan

end Highlighter
