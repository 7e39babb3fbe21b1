import Highlighter.Pattern.Plan
import Highlighter.Text.Span
import Std.Data.TreeSet

/-!
# Matching

A plan is matched at a cursor by trying its ways of matching in order of preference; the first one
that lets the rest of the plan match is taken. The rest of the plan is a continuation, so no way is
tried after a success. Of what failed, the marks that the attempt has come by are kept.
-/

namespace Highlighter

/-- The order of marks: by place, then by number. -/
abbrev markOrder : Nat × Nat → Nat × Nat → Ordering :=
  compareLex (compareOn Prod.fst) (compareOn Prod.snd)

/-- Byte offsets with the numbers of the marks come by there. -/
abbrev Visited := Std.TreeSet (Nat × Nat) markOrder

/-- How far an attempt has come. -/
structure Thread where
  cursor : Cursor
  /-- What the groups have matched, the latest first. -/
  groups : List (Nat × Span)
  visited : Visited

namespace Thread

def start (cursor : Cursor) : Thread :=
  ⟨cursor, [], ∅⟩

def moveTo (thread : Thread) (cursor : Cursor) : Thread :=
  { thread with cursor }

def hasVisited (thread : Thread) (id : Nat) : Bool :=
  thread.visited.contains (thread.cursor.offset, id)

def visit (thread : Thread) (id : Nat) : Thread :=
  { thread with visited := thread.visited.insert (thread.cursor.offset, id) }

/-- Group `index` holds what lies between byte `start` and the cursor. -/
def record (thread : Thread) (index start : Nat) : Thread :=
  { thread with groups := (index, ⟨start, thread.cursor.offset⟩) :: thread.groups }

/-- What the group matched last. -/
def group? (thread : Thread) (index : Nat) : Option Span :=
  thread.groups.lookup index

/-- Whether `later` stands behind more of the line than `thread`. -/
def isBefore (thread later : Thread) : Bool :=
  thread.cursor.offset < later.cursor.offset

end Thread

/-- A match, or the marks come by in vain. -/
abbrev Attempt := Except Visited Thread

/-- What is left to match, as a function of the place reached. -/
abbrev Continuation := Thread → Attempt

/-- The first of two ways that succeeds. -/
def Thread.either (thread : Thread) (first second : Continuation) : Attempt :=
  match first thread with
  | .ok found => .ok found
  | .error visited => second { thread with visited }

/-- Rounds of a loop up to its exit. Every round takes characters, so the characters that are left
bound the number of rounds. -/
def rounds (body : Thread → Continuation → Attempt) (greedy : Bool) (exit : Continuation) :
    List Char → Continuation
  | [], thread => exit thread
  | _ :: left, thread =>
    let again (thread : Thread) : Attempt :=
      body thread fun later =>
        if thread.isBefore later then rounds body greedy exit left later
        else .error later.visited
    if greedy then thread.either again exit else thread.either exit again

namespace Plan

def run : Plan → Thread → Continuation → Attempt
  | empty, thread, next => next thread
  | one set, thread, next =>
    match thread.cursor.rest with
    | [] => .error thread.visited
    | c :: cs =>
      if set.contains c then next (thread.moveTo (thread.cursor.past c cs))
      else .error thread.visited
  | look assertion, thread, next =>
    if assertion.holds thread.cursor then next thread else .error thread.visited
  | seq p q, thread, next => p.run thread fun middle => q.run middle next
  | alt p q, thread, next => thread.either (p.run · next) (q.run · next)
  | group index p, thread, next =>
    p.run thread fun later => next (later.record index thread.cursor.offset)
  | star greedy p, thread, next => rounds p.run greedy next thread.cursor.rest thread
  | many greedy p, thread, next =>
    p.run thread fun later =>
      if thread.isBefore later then rounds p.run greedy next later.cursor.rest later
      else next later
  | once id p, thread, next =>
    if thread.hasVisited id then .error thread.visited else p.run (thread.visit id) next

/-- The preferred match that starts at the cursor. -/
def matchAt? (p : Plan) (cursor : Cursor) : Option Thread :=
  (p.run (Thread.start cursor) .ok).toOption

end Plan

end Highlighter
