import Highlighter.Pattern.Flags

/-!
# Escapes

What may stand behind a backslash, inside and outside of brackets. The classes of characters by
property, `\p` and `\P`, are not among the escapes that are read here, so a pattern with one of them
counts as malformed.
-/

namespace Highlighter

inductive Escape where
  | char (c : Char)
  | set (s : CharSet)
  | look (assertion : Assertion)
deriving DecidableEq, Repr

namespace Escape

def hexDigit? (c : Char) : Option Nat :=
  if '0' ≤ c && c ≤ '9' then some (c.toNat - '0'.toNat)
  else if 'a' ≤ c && c ≤ 'f' then some (c.toNat - 'a'.toNat + 10)
  else if 'A' ≤ c && c ≤ 'F' then some (c.toNat - 'A'.toNat + 10)
  else none

/-- The number that hexadecimal digits write, behind the digits of `acc`. -/
def hexValue? : Nat → List Char → Option Nat
  | acc, [] => some acc
  | acc, c :: cs => (hexDigit? c).bind fun d => hexValue? (16 * acc + d) cs

def codePoint? (n : Nat) : Option Char :=
  if n.isValidChar then some (Char.ofNat n) else none

/-- The characters before a closing brace, at most `n` of them. -/
def untilBrace? (flags : Flags) : Nat → List Char → Option (List Char × List Char)
  | _, [] => none
  | 0, _ :: _ => none
  | n + 1, c :: cs =>
    if c = '}' then some ([], flags.skip cs)
    else (untilBrace? flags n (flags.skip cs)).map fun (inside, rest) => (c :: inside, rest)

/-- A code point in braces. -/
def braced? (flags : Flags) (cs : List Char) : Option (Char × List Char) :=
  (untilBrace? flags (cs.length + 1) (flags.skip cs)).bind fun (digits, rest) =>
    if digits.isEmpty then none
    else ((hexValue? 0 digits).bind codePoint?).map fun c => (c, rest)

/-- The next `n` characters. -/
def take? (flags : Flags) : Nat → List Char → Option (List Char × List Char)
  | 0, cs => some ([], cs)
  | _ + 1, [] => none
  | n + 1, c :: cs => (take? flags n (flags.skip cs)).map fun (taken, rest) => (c :: taken, rest)

/-- A code point of exactly `width` digits, at most `greatest`. -/
def fixed? (flags : Flags) (width greatest : Nat) (cs : List Char) : Option (Char × List Char) :=
  (take? flags width cs).bind fun (digits, rest) =>
    (hexValue? 0 digits).bind fun n =>
      if greatest < n then none else (codePoint? n).map fun c => (c, rest)

def hex? (flags : Flags) (width greatest : Nat) (cs : List Char) : Option (Escape × List Char) :=
  (match flags.skip cs with
    | '{' :: cs => braced? flags cs
    | cs => fixed? flags width greatest cs).map fun (c, rest) => (char c, rest)

/-- ASCII characters other than letters, digits and angle brackets stand for themselves. -/
def isLiteral (c : Char) : Bool :=
  c.toNat < 0x80 && !c.isAlphanum && c != '<' && c != '>'

def isEdgeNameChar (c : Char) : Bool :=
  c.isAlpha || c == '-'

def namedEdge? (alphabet : Alphabet) (name : String) : Option Assertion :=
  [("start", Assertion.wordStart alphabet), ("end", .wordEnd alphabet),
    ("start-half", .noWordBefore alphabet), ("end-half", .noWordAfter alphabet)].lookup name

/-- A word edge, with the name in braces that may say which. Braces that do not begin with a letter
or a hyphen hold no name; they are a repetition. -/
def edge? (flags : Flags) (cs : List Char) : Option (Escape × List Char) :=
  let plain := some (look (.wordEdge flags.alphabet), cs)
  match cs with
  | '{' :: more =>
    match flags.skip more with
    | [] => none
    | c :: _ =>
      if !isEdgeNameChar c then plain
      else
        (untilBrace? flags (more.length + 1) (flags.skip more)).bind fun (name, rest) =>
          (namedEdge? flags.alphabet (String.ofList name)).map fun assertion =>
            (look assertion, rest)
  | _ => plain

/-- The escape that the text behind a backslash begins with, and the text behind it. No property of
characters is read. -/
def read? (flags : Flags) : List Char → Option (Escape × List Char)
  | [] => none
  | 'x' :: cs => hex? flags 2 (if flags.unicode then 0xFF else 0x7F) cs
  | 'u' :: cs => hex? flags 4 0xFFFF cs
  | 'U' :: cs => hex? flags 8 0x10FFFF cs
  | 'b' :: cs => edge? flags cs
  | c :: cs =>
    if isLiteral c then some (char c, cs)
    else
      match c with
      | 'd' => some (set flags.digit, cs)
      | 'D' => (flags.compl? flags.digit).map fun s => (set s, cs)
      | 's' => some (set flags.blank, cs)
      | 'S' => (flags.compl? flags.blank).map fun s => (set s, cs)
      | 'w' => some (set flags.word, cs)
      | 'W' => (flags.compl? flags.word).map fun s => (set s, cs)
      | 'a' => some (char '\x07', cs)
      | 'f' => some (char '\x0c', cs)
      | 't' => some (char '\t', cs)
      | 'n' => some (char '\n', cs)
      | 'r' => some (char '\r', cs)
      | 'v' => some (char '\x0b', cs)
      | 'A' => some (look .textStart, cs)
      | 'z' => some (look .textEnd, cs)
      | 'B' => some (look (.notWordEdge flags.alphabet), cs)
      | '<' => some (look (.wordStart flags.alphabet), cs)
      | '>' => some (look (.wordEnd flags.alphabet), cs)
      | _ => none

end Escape

end Highlighter
