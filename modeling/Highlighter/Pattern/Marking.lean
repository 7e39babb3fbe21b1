import Highlighter.Pattern.Plan

/-!
# Marked choices

What follows a choice depends on the choice and on the place alone. So once a choice has been tried
in vain at a place, an attempt that comes by there again need not try it again; and a loop whose
body may take nothing must not, or it would not end. The choices that an attempt can come by more
than once at a place are marked with numbers.
-/

namespace Highlighter.Plan

/-- Whether there is only one way through the plan. -/
def isRigid : Plan → Bool
  | empty => true
  | one _ => true
  | look _ => true
  | seq p q => p.isRigid && q.isRigid
  | alt _ _ => false
  | group _ p => p.isRigid
  | star _ _ => false
  | many _ _ => false
  | once _ _ => false

/-- A plan with its choices marked. -/
structure Marked where
  plan : Plan
  /-- Whether an attempt comes by the end of the plan only once. -/
  isLone : Bool
  /-- The next number that is free. -/
  next : Nat
deriving DecidableEq, Repr

/-- Marks the choices of a plan with numbers from `n` on; `isLone` says that an attempt comes by its
start only once. The entry of a `star` and the end of its rounds are one choice. -/
def markFrom : Bool → Nat → Plan → Marked
  | isLone, n, empty => ⟨empty, isLone, n⟩
  | isLone, n, one set => ⟨one set, isLone, n⟩
  | isLone, n, look assertion => ⟨look assertion, isLone, n⟩
  | isLone, n, seq p q =>
    let left := markFrom isLone n p
    let right := markFrom left.isLone left.next q
    ⟨seq left.plan right.plan, right.isLone, right.next⟩
  | isLone, n, alt p q =>
    let left := markFrom isLone n p
    let right := markFrom isLone left.next q
    let both := alt left.plan right.plan
    if isLone then ⟨both, false, right.next⟩
    else ⟨once right.next both, false, right.next + 1⟩
  | isLone, n, group index p =>
    let body := markFrom isLone n p
    ⟨group index body.plan, body.isLone, body.next⟩
  | isLone, n, star greedy p =>
    if isLone && p.isRigid then ⟨star greedy p, false, n⟩
    else
      let body := markFrom false n p
      let round := seq body.plan (once body.next empty)
      ⟨once body.next (star greedy round), false, body.next + 1⟩
  | isLone, n, many greedy p =>
    if isLone && p.isRigid then ⟨many greedy p, false, n⟩
    else
      let body := markFrom false n p
      let round := seq body.plan (once body.next empty)
      ⟨many greedy round, false, body.next + 1⟩
  | isLone, n, once id p => ⟨once id p, isLone, n⟩

def marked (p : Plan) : Plan :=
  (markFrom true 0 p).plan

end Highlighter.Plan
