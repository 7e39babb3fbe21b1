import Highlighter.Pattern.Bracket
import Highlighter.Pattern.Size

/-!
# Reading patterns

A pattern is read from left to right. Groups that are still open wait on a stack; each holds its
finished alternatives and the pieces of the one being read. Text that is nested too deep is no
pattern.
-/

namespace Highlighter

/-- A pattern, and how deep the text that writes it is nested. -/
structure NestedPattern where
  pattern : Pattern
  depth : Nat
deriving DecidableEq, Repr

namespace NestedPattern

def flat (pattern : Pattern) : NestedPattern :=
  ⟨pattern, 0⟩

/-- Of several patterns, the depth of the deepest and one more; of a single one, its own. -/
def depthOf : List NestedPattern → Nat
  | [] => 0
  | [p] => p.depth
  | ps => (ps.map NestedPattern.depth).foldl max 0 + 1

def sequence (ps : List NestedPattern) : NestedPattern :=
  ⟨.sequence (ps.map NestedPattern.pattern), depthOf ps⟩

def alternatives (ps : List NestedPattern) : NestedPattern :=
  ⟨.alternatives (ps.map NestedPattern.pattern), depthOf ps⟩

/-- What a group makes of a pattern: a level more, and a capture if it has a number. -/
def grouped (capture : Option Nat) (p : NestedPattern) : NestedPattern :=
  match capture with
  | none => ⟨p.pattern, p.depth + 1⟩
  | some index => ⟨.group index p.pattern, p.depth + 1⟩

def repeated (greedy : Bool) (least : Nat) (most : Option Nat) (p : NestedPattern) :
    NestedPattern :=
  ⟨.repeated greedy least most p.pattern, p.depth + 1⟩

end NestedPattern

/-- What an alternative is made of. A repetition needs a piece before it, and a switch of flags is
not one. -/
inductive PatternItem where
  | piece (p : NestedPattern)
  | switch
deriving DecidableEq, Repr

def PatternItem.pattern : PatternItem → NestedPattern
  | piece p => p
  | switch => .flat .empty

/-- An open group. -/
structure OpenGroup where
  /-- The number of a capture group. -/
  capture : Option Nat
  flags : Flags
  /-- Finished alternatives, the latest first. -/
  branches : List NestedPattern
  /-- Items of the alternative being read, the latest first. -/
  items : List PatternItem
deriving DecidableEq, Repr

namespace OpenGroup

def opened (capture : Option Nat) (flags : Flags) : OpenGroup :=
  ⟨capture, flags, [], []⟩

def push (group : OpenGroup) (p : NestedPattern) : OpenGroup :=
  { group with items := .piece p :: group.items }

/-- The alternative being read. -/
def branch (group : OpenGroup) : NestedPattern :=
  .sequence (group.items.reverse.map PatternItem.pattern)

def bar (group : OpenGroup) : OpenGroup :=
  { group with branches := group.branch :: group.branches, items := [] }

/-- All alternatives. -/
def body (group : OpenGroup) : NestedPattern :=
  .alternatives (group.branch :: group.branches).reverse

/-- Repeats the last item as `repetition` says. -/
def repeatLast? (group : OpenGroup) (repetition : NestedPattern → NestedPattern) :
    Option OpenGroup :=
  match group.items with
  | .piece p :: items => some { group with items := .piece (repetition p) :: items }
  | _ => none

end OpenGroup

structure PatternReader where
  group : OpenGroup
  /-- The groups round it, the innermost first. -/
  outer : List OpenGroup
  captures : Nat
  names : List String
deriving DecidableEq, Repr

namespace PatternReader

def start : PatternReader :=
  ⟨.opened none .initial, [], 0, []⟩

def flags (reader : PatternReader) : Flags :=
  reader.group.flags

def push (reader : PatternReader) (p : NestedPattern) : PatternReader :=
  { reader with group := reader.group.push p }

def pushSet (reader : PatternReader) (s : CharSet) (depth : Nat) : PatternReader :=
  reader.push ⟨.ofSet reader.flags.alphabet s, depth⟩

def pushLook (reader : PatternReader) (assertion : Assertion) : PatternReader :=
  reader.push (.flat (.look assertion))

def pushChar (reader : PatternReader) (c : Char) : PatternReader :=
  reader.push (.flat (reader.flags.char c))

def openGroup (reader : PatternReader) (capture : Option Nat) (flags : Flags) : PatternReader :=
  { reader with group := .opened capture flags, outer := reader.group :: reader.outer }

def openCapture (reader : PatternReader) : PatternReader :=
  let reader := { reader with captures := reader.captures + 1 }
  reader.openGroup (some reader.captures) reader.flags

def close? (reader : PatternReader) : Option PatternReader :=
  match reader.outer with
  | [] => none
  | group :: outer =>
    some { reader with group := group.push (reader.group.body.grouped reader.group.capture), outer }

def switchFlags (reader : PatternReader) (flags : Flags) : PatternReader :=
  { reader with group := { reader.group with flags, items := .switch :: reader.group.items } }

/-- Repeats the last piece. A question mark at the head of `cs` makes the repetition lazy, or greedy
where repetitions are lazy. -/
def repeat? (reader : PatternReader) (least : Nat) (most : Option Nat) (cs : List Char) :
    Option (PatternReader × List Char) :=
  let (marked, rest) :=
    match cs with
    | '?' :: rest => (true, rest)
    | _ => (false, cs)
  (reader.group.repeatLast? (.repeated (marked == reader.flags.swapGreed) least most)).map
    fun group => ({ reader with group }, rest)

/-- Group names begin with a letter or an underscore. -/
def isNameStart (c : Char) : Bool :=
  c == '_' || Text.isLetter c

def isNameChar (c : Char) : Bool :=
  c == '_' || c == '.' || c == '[' || c == ']' || Text.isLetterOrNumber c

/-- A group name with its closing angle bracket. -/
def name? (cs : List Char) : Option (String × List Char) :=
  let name := cs.takeWhile (· != '>')
  match name, cs.dropWhile (· != '>') with
  | c :: rest, _ :: after =>
    if isNameStart c && rest.all isNameChar then some (String.ofList name, after) else none
  | _, _ => none

def named? (reader : PatternReader) (cs : List Char) : Option (PatternReader × List Char) :=
  (name? cs).bind fun (name, rest) =>
    if name ∈ reader.names then none
    else some ({ reader with names := name :: reader.names }.openCapture, rest)

/-- Flags up to the colon or parenthesis that ends them: the flags then in force, whether a group
begins there, and the text behind. Letters stand once each, one hyphen may turn those behind it
off, and at least one letter stands behind it. -/
def flags? : List Char → Bool → List Char → Flags → Option (Flags × Bool × List Char)
  | [], _, _, _ => none
  | ':' :: cs, _, seen, flags =>
    if seen.head? = some '-' then none else some (flags, true, cs)
  | ')' :: cs, _, seen, flags =>
    if seen.isEmpty || seen.head? = some '-' then none else some (flags, false, cs)
  | '-' :: cs, _, seen, flags =>
    if '-' ∈ seen then none else flags? cs false ('-' :: seen) flags
  | c :: cs, on, seen, flags =>
    if c ∈ seen then none
    else (flags.switch? c on).bind fun flags => flags? cs on (c :: seen) flags

/-- What stands behind an opening parenthesis. -/
def parenthesis? (reader : PatternReader) : List Char → Option (PatternReader × List Char)
  | '?' :: '=' :: _ => none
  | '?' :: '!' :: _ => none
  | '?' :: '<' :: '=' :: _ => none
  | '?' :: '<' :: '!' :: _ => none
  | '?' :: 'P' :: '<' :: cs => reader.named? cs
  | '?' :: '<' :: cs => reader.named? cs
  | '?' :: cs =>
    (flags? cs true [] reader.flags).map fun (flags, isGroup, rest) =>
      (if isGroup then reader.openGroup none flags else reader.switchFlags flags, rest)
  | cs => some (reader.openCapture, cs)

/-- The decimal digits at the head, at most `n` of them. -/
def digits (flags : Flags) : Nat → List Char → List Char × List Char
  | n + 1, c :: cs =>
    if c.isDigit then
      let (more, rest) := digits flags n (flags.skip cs)
      (c :: more, rest)
    else ([], c :: cs)
  | _, cs => ([], cs)

/-- A decimal number below 2 ^ 32, with blanks round it. -/
def count? (flags : Flags) (cs : List Char) : Option (Nat × List Char) :=
  let cs := cs.dropWhile Text.isBlank
  let (digits, rest) := digits flags cs.length cs
  let n := digits.foldl (fun n c => 10 * n + (c.toNat - '0'.toNat)) 0
  if digits.isEmpty || 0xFFFFFFFF < n then none
  else some (n, flags.skip (rest.dropWhile Text.isBlank))

/-- The bounds of a counted repetition, with its closing brace. -/
def bounds? (flags : Flags) (cs : List Char) : Option (Nat × Option Nat × List Char) :=
  (count? flags (flags.skip cs)).bind fun (least, rest) =>
    match rest with
    | '}' :: rest => some (least, some least, flags.skip rest)
    | ',' :: rest =>
      match flags.skip rest with
      | '}' :: rest => some (least, none, flags.skip rest)
      | rest =>
        (count? flags rest).bind fun (most, rest) =>
          match rest with
          | '}' :: rest => if least ≤ most then some (least, some most, flags.skip rest) else none
          | _ => none
    | _ => none

def escape? (reader : PatternReader) (cs : List Char) : Option (PatternReader × List Char) :=
  (Escape.read? reader.flags cs).map fun (escape, rest) =>
    match escape with
    | .char c => (reader.pushChar c, rest)
    | .set s => (reader.pushSet s 0, rest)
    | .look assertion => (reader.pushLook assertion, rest)

/-- Reads the piece that begins with `c`, before `cs`. -/
def step? (reader : PatternReader) (c : Char) (cs : List Char) :
    Option (PatternReader × List Char) :=
  match c with
  | '(' => reader.parenthesis? (reader.flags.skip cs)
  | ')' => reader.close?.map fun reader => (reader, cs)
  | '|' => some ({ reader with group := reader.group.bar }, cs)
  | '[' =>
    (Bracket.read? reader.flags cs).map fun (s, rest) => (reader.pushSet s.set s.depth, rest)
  | '.' => reader.flags.dot?.map fun s => (reader.pushSet s 0, cs)
  | '^' => some (reader.pushLook reader.flags.lineStart, cs)
  | '$' => some (reader.pushLook reader.flags.lineEnd, cs)
  | '*' => reader.repeat? 0 none cs
  | '+' => reader.repeat? 1 none cs
  | '?' => reader.repeat? 0 (some 1) cs
  | '{' => (bounds? reader.flags cs).bind fun (least, most, rest) => reader.repeat? least most rest
  | '\\' => reader.escape? cs
  | _ => some (reader.pushChar c, cs)

/-- Reads to the end. Each step reads a character, so the number of characters bounds the number of
steps. -/
def loop : Nat → PatternReader → List Char → Option PatternReader
  | 0, reader, cs => if cs.isEmpty then some reader else none
  | n + 1, reader, cs =>
    match reader.flags.skip cs with
    | [] => some reader
    | c :: cs => (reader.step? c cs).bind fun (reader, rest) => loop n reader rest

end PatternReader

/-- Why a text cannot be used as a pattern. -/
inductive PatternError where
  | malformed
  | tooLarge
deriving DecidableEq, Repr

def PatternError.message : PatternError → String
  | malformed => "error parsing pattern 0"
  | tooLarge => "error building NFA"

namespace Pattern

/-- Patterns are nested no deeper than this. -/
def depthLimit : Nat :=
  250

/-- The pattern that the text writes. -/
def parse? (text : String) : Option Pattern :=
  let cs := text.toList
  (PatternReader.loop cs.length .start cs).bind fun reader =>
    let body := reader.group.body
    if reader.outer.isEmpty && body.depth ≤ depthLimit then some body.pattern else none

def read (text : String) : Except PatternError Pattern :=
  match parse? text with
  | none => .error .malformed
  | some pattern => if pattern.size ≤ sizeLimit then .ok pattern else .error .tooLarge

end Pattern

end Highlighter
