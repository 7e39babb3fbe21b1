import Highlighter.Pattern.Marking
import Highlighter.Pattern.Parser
import Highlighter.Table.Basic

/-!
# Building tables

A draft becomes a table when its states have different names, one of them is the start state, every
declaration makes sense on its own, and no state splices itself in. These are asked in this order.

What a pattern text means is left to a compiler of patterns, which building takes as an argument.
-/

namespace Highlighter

/-- Reads pattern texts, or tells why it cannot. -/
abbrev PatternCompiler := String → Except PatternError Pattern

inductive BuildError where
  | missingStart
  | duplicateState (state : String)
  | unknownState (state target : String)
  | spliceCycle (state via : String)
  | invalidPattern (state : String) (index : Nat) (error : PatternError)
  | captureMismatch (state : String) (index labels groups : Nat)
deriving DecidableEq, Repr

def BuildError.message : BuildError → String
  | missingStart => "rule table has no `" ++ startName ++ "` state"
  | duplicateState state => "state `" ++ state ++ "` is declared more than once"
  | unknownState state target =>
    "state `" ++ state ++ "` references unknown state `" ++ target ++ "`"
  | spliceCycle state via => "state `" ++ state ++ "` includes itself through `" ++ via ++ "`"
  | invalidPattern state index error =>
    "rule " ++ toString index ++ " in state `" ++ state ++ "` has an invalid pattern: " ++
      error.message
  | captureMismatch state index labels groups =>
    "rule " ++ toString index ++ " in state `" ++ state ++ "` labels " ++ toString labels ++
      " capture groups but its pattern has " ++ toString groups

/-- A declaration whose names and pattern are resolved. -/
inductive Clause where
  | rule (rule : Rule)
  | splice (target : StateId) (name : String)
deriving DecidableEq, Repr

/-- The clauses of all states, in order of their declaration. -/
abbrev Clauses := List (String × List Clause)

namespace Draft

def stateId? (draft : Draft) (name : String) : Option StateId :=
  (draft.names.findIdx? (· == name)).map StateId.mk

/-- The state that a declaration in `state` refers to. -/
def resolve (draft : Draft) (state target : String) : Except BuildError StateId :=
  match draft.stateId? target with
  | some id => .ok id
  | none => .error (.unknownState state target)

def resolveNext (draft : Draft) (state : String) :
    Option String → Except BuildError (Option StateId)
  | none => .ok none
  | some target => (draft.resolve state target).map some

/-- There is a label for each capture group. -/
def checkGroups (state : String) (index : Nat) (pattern : Pattern) :
    Labelling → Except BuildError Unit
  | .groups labels =>
    if pattern.groupCount = labels.length then .ok ()
    else .error (.captureMismatch state index labels.length pattern.groupCount)
  | _ => .ok ()

def compileRule (draft : Draft) (compile : PatternCompiler) (state : String) (index : Nat)
    (rule : RuleDraft) : Except BuildError Rule :=
  match compile rule.pattern with
  | .error error => .error (.invalidPattern state index error)
  | .ok pattern => do
    checkGroups state index pattern rule.labelling
    let next ← draft.resolveNext state rule.next
    return ⟨rule.labelling, rule.pattern, pattern.plan.marked, next⟩

def compileDeclaration (draft : Draft) (compile : PatternCompiler) (state : String) (index : Nat) :
    Declaration → Except BuildError Clause
  | .rule rule => (draft.compileRule compile state index rule).map .rule
  | .splice target => (draft.resolve state target).map (.splice · target)

/-- Compiles the declarations of a state, numbered from `index`. -/
def compileBody (draft : Draft) (compile : PatternCompiler) (state : String) :
    Nat → List Declaration → Except BuildError (List Clause)
  | _, [] => .ok []
  | index, declaration :: body => do
    let clause ← draft.compileDeclaration compile state index declaration
    let clauses ← draft.compileBody compile state (index + 1) body
    return clause :: clauses

def compileStates (draft : Draft) (compile : PatternCompiler) :
    List StateDraft → Except BuildError Clauses
  | [] => .ok []
  | state :: states => do
    let clauses ← draft.compileBody compile state.name 0 state.body
    let rest ← draft.compileStates compile states
    return (state.name, clauses) :: rest

end Draft

namespace Clauses

def body (clauses : Clauses) (id : StateId) : List Clause :=
  (clauses[id.index]?.map (·.2)).getD []

/-- The rules of a body, with those of the spliced states in their places. -/
def inline (spliced : StateId → String → Except BuildError (List Rule)) :
    List Clause → Except BuildError (List Rule)
  | [] => .ok []
  | .rule rule :: rest => do
    let rules ← inline spliced rest
    return rule :: rules
  | .splice target name :: rest => do
    let first ← spliced target name
    let rules ← inline spliced rest
    return first ++ rules

/-- The rules of a state spliced in under `name`. `path` leads back to the state `root` from which
the splicing began; no state stands on it twice, so it is no longer than there are states. -/
def spliced (clauses : Clauses) (root : String) :
    Nat → List StateId → StateId → String → Except BuildError (List Rule)
  | 0, _, _, name => .error (.spliceCycle root name)
  | depth + 1, path, target, name =>
    if target ∈ path then
      .error (.spliceCycle root name)
    else
      inline (clauses.spliced root depth (target :: path)) (clauses.body target)

/-- The states from number `index` on, with everything in place. -/
def flatten (clauses : Clauses) :
    Nat → List (String × List Clause) → Except BuildError (List LexicalState)
  | _, [] => .ok []
  | index, (name, body) :: rest => do
    let rules ← inline (clauses.spliced name clauses.length [⟨index⟩]) body
    let states ← clauses.flatten (index + 1) rest
    return ⟨name, rules⟩ :: states

end Clauses

def Draft.build (draft : Draft) (compile : PatternCompiler) : Except BuildError RuleTable :=
  match draft.duplicate with
  | some name => .error (.duplicateState name)
  | none =>
    match draft.stateId? startName with
    | none => .error .missingStart
    | some start => do
      let clauses ← draft.compileStates compile draft.states
      let states ← clauses.flatten 0 clauses
      return ⟨states, start⟩

namespace RuleTable

/-- The table that the calls make, with the patterns as the compiler reads them. -/
def ofCallsWith (compile : PatternCompiler) (calls : List DraftCall) :
    Except BuildError RuleTable :=
  (Draft.ofCalls calls).build compile

def ofCalls (calls : List DraftCall) : Except BuildError RuleTable :=
  ofCallsWith Pattern.read calls

end RuleTable

end Highlighter
