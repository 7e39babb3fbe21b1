import Highlighter.Label

/-!
# Drafts of rule tables

A table is drafted call by call: a call opens a state or declares a rule in the state opened last.
What is declared before any state goes to the start state.
-/

namespace Highlighter

/-- How the text that a rule matches is labelled. -/
inductive Labelling where
  | whole (label : Label)
  /-- One label for each capture group. -/
  | groups (labels : List Label)
  /-- The vocabulary decides. -/
  | classify
deriving DecidableEq, Repr

structure RuleDraft where
  labelling : Labelling
  pattern : String
  /-- The state after a match; without it a match stays where it is. -/
  next : Option String
deriving DecidableEq, Repr

inductive Declaration where
  | rule (draft : RuleDraft)
  /-- Puts the rules of another state in this place. -/
  | splice (state : String)
deriving DecidableEq, Repr

structure StateDraft where
  name : String
  body : List Declaration
deriving DecidableEq, Repr

/-- The name of the state in which every text begins. -/
def startName : String :=
  "start"

inductive DraftCall where
  | state (name : String)
  | declare (declaration : Declaration)
deriving DecidableEq, Repr

namespace DraftCall

def token (labelling : Labelling) (pattern : String) : DraftCall :=
  declare (.rule ⟨labelling, pattern, none⟩)

def tokenNext (labelling : Labelling) (pattern next : String) : DraftCall :=
  declare (.rule ⟨labelling, pattern, some next⟩)

def splice (state : String) : DraftCall :=
  declare (.splice state)

end DraftCall

structure Draft where
  states : List StateDraft
  /-- The first name that was given to a second state. -/
  duplicate : Option String
deriving DecidableEq, Repr

namespace Draft

def empty : Draft :=
  ⟨[], none⟩

def names (draft : Draft) : List String :=
  draft.states.map (·.name)

/-- Adds a declaration to the last state. -/
def declareIn (declaration : Declaration) : List StateDraft → List StateDraft
  | [] => [⟨startName, [declaration]⟩]
  | [state] => [{ state with body := state.body ++ [declaration] }]
  | state :: states => state :: declareIn declaration states

def apply (draft : Draft) : DraftCall → Draft
  | .state name =>
    { states := draft.states ++ [⟨name, []⟩]
      duplicate := draft.duplicate <|> if name ∈ draft.names then some name else none }
  | .declare declaration => { draft with states := declareIn declaration draft.states }

def ofCalls (calls : List DraftCall) : Draft :=
  calls.foldl apply empty

end Draft

end Highlighter
