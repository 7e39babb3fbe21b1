import Highlighter.Stored.Json

/-!
# Stored records

A record is an object, or an array of its fields in order. Names that it does not have are passed
over; a field that is not given either is an error or takes its default, and a field that is given
twice is an error.
-/

namespace Highlighter.Json

/-- The first `n` of the items, none where they have come to an end. -/
def fill : Nat → List Json → List (Option Json)
  | 0, _ => []
  | n + 1, [] => none :: fill n []
  | n + 1, json :: rest => some json :: fill n rest

/-- No field is given twice. -/
def givenOnce (names : List String) (fields : List (String × Json)) : Bool :=
  names.all fun name => fields.countP (·.1 == name) ≤ 1

/-- What is given for each field. -/
def fields? (names : List String) : Json → Option (List (Option Json))
  | object fields =>
    if givenOnce names fields then some (names.map fun name => fields.lookup name) else none
  | array items => if items.length ≤ names.length then some (fill names.length items) else none
  | _ => none

/-- A field that must be given. -/
def required? {α : Type} [Stored α] (given : Option Json) : Option α :=
  given.bind decode?

/-- A field that has a default. -/
def orDefault? {α : Type} [Stored α] (default : α) : Option Json → Option α
  | none => some default
  | some json => decode? json

end Highlighter.Json
