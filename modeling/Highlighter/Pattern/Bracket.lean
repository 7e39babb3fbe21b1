import Highlighter.Pattern.Escape

/-!
# Bracketed sets

A bracketed set is a union of characters, ranges, escapes, named ASCII classes and nested brackets;
unions are combined by the operators `&&`, `--` and `~~`, all of one rank. How deep brackets, unions
and operators are nested is counted along.
-/

namespace Highlighter

inductive SetOperator where
  | inter
  | diff
  | symmDiff
deriving DecidableEq, Repr

def SetOperator.apply : SetOperator → CharSet → CharSet → CharSet
  | inter => .inter
  | diff => .diff
  | symmDiff => .symmDiff

/-- A set, and how deep the text that writes it is nested. -/
structure NestedSet where
  set : CharSet
  depth : Nat
deriving DecidableEq, Repr

namespace NestedSet

def flat (set : CharSet) : NestedSet :=
  ⟨set, 0⟩

/-- The union of several items is one level more than they are. -/
def union (flags : Flags) (items : List NestedSet) : NestedSet :=
  let set := flags.fold (.ofList (items.map NestedSet.set))
  match items with
  | [] => ⟨set, 0⟩
  | [item] => ⟨set, item.depth⟩
  | _ => ⟨set, (items.map NestedSet.depth).foldl max 0 + 1⟩

def operate (operator : SetOperator) (left right : NestedSet) : NestedSet :=
  ⟨operator.apply left.set right.set, max left.depth right.depth + 1⟩

end NestedSet

/-- An open bracket: what was read of it up to now. -/
structure Bracket where
  negated : Bool
  /-- The left operand of an operator whose right operand is being read. -/
  pending : Option (SetOperator × NestedSet)
  /-- The items of the union being read, the latest first. -/
  items : List NestedSet
deriving DecidableEq, Repr

namespace Bracket

def add (bracket : Bracket) (item : NestedSet) : Bracket :=
  { bracket with items := item :: bracket.items }

/-- The set up to now, without the negation. -/
def total (bracket : Bracket) (flags : Flags) : NestedSet :=
  let union := NestedSet.union flags bracket.items.reverse
  match bracket.pending with
  | none => union
  | some (operator, left) => .operate operator left union

def operate (bracket : Bracket) (flags : Flags) (operator : SetOperator) : Bracket :=
  { bracket with pending := some (operator, bracket.total flags), items := [] }

def close? (bracket : Bracket) (flags : Flags) : Option NestedSet :=
  let total := bracket.total flags
  if bracket.negated then (flags.compl? total.set).map fun s => ⟨s, total.depth + 1⟩
  else some ⟨total.set, total.depth + 1⟩

/-- Hyphens that stand for themselves, at most `n` of them. -/
def hyphens (flags : Flags) : Nat → Bracket → List Char → Bracket × List Char
  | n + 1, bracket, '-' :: cs => hyphens flags n (bracket.add (.flat (.single '-'))) (flags.skip cs)
  | _, bracket, cs => (bracket, cs)

/-- Reads what may stand behind an opening bracket only: a caret that negates, then either hyphens
or one closing bracket that stand for themselves. -/
def opening (flags : Flags) (cs : List Char) : Bracket × List Char :=
  let (negated, cs) :=
    match flags.skip cs with
    | '^' :: rest => (true, flags.skip rest)
    | cs => (false, cs)
  match cs with
  | ']' :: rest => (⟨negated, none, [.flat (.single ']')]⟩, rest)
  | cs => hyphens flags cs.length ⟨negated, none, []⟩ cs

def namedSets : List (String × CharSet) :=
  [("alnum", CharSet.asciiDigit.union .asciiLetter),
   ("alpha", .asciiLetter),
   ("ascii", .ascii),
   ("blank", .ofChars ['\t', ' ']),
   ("cntrl", (CharSet.range '\x00' '\x1f').union (.single '\x7f')),
   ("digit", .asciiDigit),
   ("graph", .range '!' '~'),
   ("lower", .range 'a' 'z'),
   ("print", .range ' ' '~'),
   ("punct", .ofList [.range '!' '/', .range ':' '@', .range '[' '\x60', .range '\x7b' '~']),
   ("space", .asciiBlank),
   ("upper", .range 'A' 'Z'),
   ("word", .asciiWord),
   ("xdigit", .ofList [.asciiDigit, .range 'A' 'F', .range 'a' 'f'])]

/-- A named class with its closing colon and bracket: its name, whether it is negated, and the text
behind it. -/
def className? : List Char → Option (String × Bool × List Char)
  | ':' :: cs =>
    let (negated, cs) :=
      match cs with
      | '^' :: rest => (true, rest)
      | _ => (false, cs)
    match cs.dropWhile (· != ':') with
    | ':' :: ']' :: rest => some (String.ofList (cs.takeWhile (· != ':')), negated, rest)
    | _ => none
  | _ => none

/-- A named class, from behind its opening bracket; what is none is a nested bracket. -/
def namedClass? (cs : List Char) : Option (CharSet × Bool × List Char) :=
  (className? cs).bind fun (name, negated, rest) =>
    (namedSets.lookup name).map fun s => (s, negated, rest)

/-- A character or an escape; outside of Unicode only ASCII characters may stand in a set. -/
def item? (flags : Flags) : List Char → Option (Escape × List Char)
  | [] => none
  | '\\' :: cs =>
    (Escape.read? flags cs).bind fun (item, rest) =>
      match item with
      | .char c => if flags.unicode || c.toNat < 0x80 then some (.char c, rest) else none
      | .set s => some (.set s, rest)
      | .look _ => none
  | c :: cs => if flags.unicode || c.toNat < 0x80 then some (.char c, cs) else none

/-- Whether a hyphen before `cs` makes a range: not before the closing bracket or another hyphen. A
number sign is passed over where comments are. -/
def makesRange (flags : Flags) (cs : List Char) : Bool :=
  let cs :=
    if !flags.spaced then cs
    else
      match cs.dropWhile Text.isBlank with
      | '#' :: rest => rest.dropWhile Text.isBlank
      | cs => cs
  cs.head? != some ']' && cs.head? != some '-'

def alone? (item : Escape) : Option CharSet :=
  match item with
  | .char c => some (.single c)
  | .set s => some s
  | .look _ => none

/-- The character or set at the head, or the range that a hyphen makes of it. -/
def member? (flags : Flags) (cs : List Char) : Option (CharSet × List Char) :=
  (item? flags cs).bind fun (low, rest) =>
    match flags.skip rest with
    | '-' :: more =>
      if !makesRange flags more then (alone? low).map fun s => (s, '-' :: more)
      else
        (item? flags (flags.skip more)).bind fun (high, rest) =>
          match low, high with
          | .char lo, .char hi => if lo ≤ hi then some (.range lo hi, rest) else none
          | _, _ => none
    | rest => (alone? low).map fun s => (s, rest)

/-- Reads on to the bracket that closes the outermost one. Each step reads a character, so the
number of characters bounds the number of steps. -/
def loop (flags : Flags) :
    Nat → List Bracket → Bracket → List Char → Option (NestedSet × List Char)
  | 0, _, _, _ => none
  | n + 1, outers, bracket, cs =>
    match flags.skip cs with
    | [] => none
    | ']' :: cs =>
      (bracket.close? flags).bind fun closed =>
        match outers with
        | [] => some (closed, cs)
        | outer :: outers => loop flags n outers (outer.add closed) cs
    | '[' :: cs =>
      match namedClass? cs with
      | some (s, negated, rest) =>
        (if negated then flags.compl? (flags.fold s) else some (flags.fold s)).bind fun s =>
          loop flags n outers (bracket.add (.flat s)) rest
      | none =>
        let (inner, rest) := opening flags cs
        loop flags n (bracket :: outers) inner rest
    | '&' :: '&' :: cs => loop flags n outers (bracket.operate flags .inter) cs
    | '-' :: '-' :: cs => loop flags n outers (bracket.operate flags .diff) cs
    | '~' :: '~' :: cs => loop flags n outers (bracket.operate flags .symmDiff) cs
    | cs =>
      (member? flags cs).bind fun (s, rest) => loop flags n outers (bracket.add (.flat s)) rest

/-- The set that the text behind an opening bracket begins with, and the text behind it. -/
def read? (flags : Flags) (cs : List Char) : Option (NestedSet × List Char) :=
  let (bracket, rest) := opening flags cs
  loop flags (cs.length + 1) [] bracket rest

end Bracket

end Highlighter
