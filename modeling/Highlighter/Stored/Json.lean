/-!
# Stored data

The tree form in which settings and tokens are kept, and the classes of its readers and writers.
-/

namespace Highlighter

inductive Json where
  | null
  | bool (b : Bool)
  /-- The decimal number `mantissa / 10 ^ scale`; a number written without a point has scale 0. -/
  | number (mantissa : Int) (scale : Nat)
  | string (s : String)
  | array (items : List Json)
  | object (fields : List (String × Json))
deriving Inhabited, Repr

class Stored (α : Type) where
  encode : α → Json
  decode? : Json → Option α

export Stored (encode decode?)

namespace Json

def nat (n : Nat) : Json :=
  number n 0

/-- A number below `bound` that is written without a sign and a point. -/
def natBelow? (bound : Nat) : Json → Option Nat
  | number (.ofNat n) 0 => if n < bound then some n else none
  | _ => none

end Json

instance : Stored Bool where
  encode := .bool
  decode?
    | .bool b => some b
    | _ => none

instance : Stored String where
  encode := .string
  decode?
    | .string s => some s
    | _ => none

instance : Stored UInt64 where
  encode n := .nat n.toNat
  decode? json := (json.natBelow? UInt64.size).map UInt64.ofNat

/-- The absent value is null. -/
def decodeOption? {α : Type} [Stored α] : Json → Option (Option α)
  | .null => some none
  | json => (decode? json).map some

instance {α : Type} [Stored α] : Stored (Option α) where
  encode
    | none => .null
    | some a => encode a
  decode? := decodeOption?

def decodeItems? {α : Type} [Stored α] : List Json → Option (List α)
  | [] => some []
  | json :: rest => (decode? json).bind fun a => (decodeItems? rest).map (a :: ·)

instance {α : Type} [Stored α] : Stored (List α) where
  encode items := .array (items.map encode)
  decode?
    | .array items => decodeItems? items
    | _ => none

end Highlighter
