import Highlighter.Pattern.Matching
import Highlighter.Table.Draft

/-!
# Rule tables

A table has named states, each with its rules in order. At a cursor the first rule of the state that
matches a non-empty text there wins, however much another rule would match.
-/

namespace Highlighter

/-- The place of a state in its table. -/
structure StateId where
  index : Nat
deriving DecidableEq, Repr

structure Rule where
  labelling : Labelling
  /-- The text of the pattern. -/
  source : String
  plan : Plan
  next : Option StateId
deriving DecidableEq, Repr

/-- A state with what it splices in already in place. -/
structure LexicalState where
  name : String
  rules : List Rule
deriving DecidableEq, Repr

structure RuleTable where
  states : List LexicalState
  start : StateId
deriving DecidableEq, Repr

/-- The labelling of a match. -/
inductive MatchLabel where
  | whole (label : Label)
  /-- The labels of the groups that took part, with what they matched. -/
  | groups (spans : List (Label × Span))
  | classify
deriving DecidableEq, Repr

structure RuleMatch where
  label : MatchLabel
  span : Span
  /-- The state to go on in. -/
  next : StateId
  /-- The place of the rule among those of its state. -/
  rule : Nat
deriving DecidableEq, Repr

/-- The groups that took part, from group `index` on. -/
def groupSpans (thread : Thread) : Nat → List Label → List (Label × Span)
  | _, [] => []
  | index, label :: labels =>
    match thread.group? index with
    | some span => (label, span) :: groupSpans thread (index + 1) labels
    | none => groupSpans thread (index + 1) labels

def Labelling.ofMatch (labelling : Labelling) (thread : Thread) : MatchLabel :=
  match labelling with
  | .whole label => .whole label
  | .groups labels => .groups (groupSpans thread 1 labels)
  | .classify => .classify

/-- The first of `rules` that matches something at the cursor, numbered from `index`; with it the
cursor behind the match. -/
def firstMatch? (state : StateId) (cursor : Cursor) :
    Nat → List Rule → Option (RuleMatch × Cursor)
  | _, [] => none
  | index, rule :: rules =>
    match rule.plan.matchAt? cursor with
    | none => firstMatch? state cursor (index + 1) rules
    | some thread =>
      if cursor.offset < thread.cursor.offset then
        some
          ({ label := rule.labelling.ofMatch thread
             span := ⟨cursor.offset, thread.cursor.offset⟩
             next := rule.next.getD state
             rule := index },
           thread.cursor)
      else
        firstMatch? state cursor (index + 1) rules

namespace RuleTable

/-- The table in which no rule matches anything. -/
def empty : RuleTable :=
  ⟨[⟨startName, []⟩], ⟨0⟩⟩

def state? (table : RuleTable) (id : StateId) : Option LexicalState :=
  table.states[id.index]?

def stateId? (table : RuleTable) (name : String) : Option StateId :=
  (table.states.findIdx? (·.name == name)).map StateId.mk

def stateName (table : RuleTable) (id : StateId) : String :=
  ((table.state? id).map (·.name)).getD ""

/-- A state that the table does not have has no rules. -/
def rules (table : RuleTable) (id : StateId) : List Rule :=
  ((table.state? id).map (·.rules)).getD []

def matchFrom? (table : RuleTable) (state : StateId) (cursor : Cursor) :
    Option (RuleMatch × Cursor) :=
  firstMatch? state cursor 0 (table.rules state)

/-- The match at byte `pos`; nothing matches at the end of a line or inside a character. -/
def matchAt? (table : RuleTable) (state : StateId) (line : List Char) (pos : Nat) :
    Option RuleMatch :=
  (Cursor.at? line pos).bind fun cursor => (table.matchFrom? state cursor).map (·.1)

end RuleTable

end Highlighter
