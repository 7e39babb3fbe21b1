import Highlighter.Mode.CellTail

/-!
# Registries of modes

The first mode registered under an id keeps it.
-/

namespace Highlighter

inductive ModeError where
  | alreadyRegistered (id : String)
  | unknownMode (id : String)
  | table (error : BuildError)
deriving DecidableEq, Repr

def ModeError.message : ModeError → String
  | alreadyRegistered id => "mode `" ++ id ++ "` is already registered"
  | unknownMode id => "unknown mode `" ++ id ++ "`"
  | table error => error.message

/-- The modes in the order in which they were registered. -/
structure Registry where
  modes : List Mode
deriving DecidableEq, Repr

namespace Registry

def empty : Registry :=
  ⟨[]⟩

def get? (registry : Registry) (id : String) : Option Mode :=
  registry.modes.find? (·.id == id)

def require (registry : Registry) (id : String) : Except ModeError Mode :=
  match registry.get? id with
  | some mode => .ok mode
  | none => .error (.unknownMode id)

def register (registry : Registry) (mode : Mode) : Except ModeError Registry :=
  match registry.get? mode.id with
  | some _ => .error (.alreadyRegistered mode.id)
  | none => .ok ⟨registry.modes ++ [mode]⟩

/-- The ids in increasing order. -/
def ids (registry : Registry) : List String :=
  Text.sortWords (registry.modes.map (·.id))

/-- The registry of the plain text mode and the CellTail mode. -/
def builtin : Except ModeError Registry := do
  let registry ← empty.register .plainText
  let mode ← CellTail.mode.mapError .table
  registry.register mode

end Registry

end Highlighter
