import Highlighter.Pattern.Combine
import Highlighter.Text.Blank

/-!
# Pattern flags

Flags in force where a piece of a pattern is read decide what it means. Outside of Unicode a set is
one of bytes. It has to keep to those that are characters, so it holds ASCII only, and there are no
complements.
-/

namespace Highlighter

structure Flags where
  ignoreCase : Bool
  multiLine : Bool
  dotAll : Bool
  unicode : Bool
  /-- Carriage returns end lines as well. -/
  anyLine : Bool
  /-- Repetitions are lazy unless a question mark makes them greedy. -/
  swapGreed : Bool
  /-- Blanks and comments in a pattern are skipped. -/
  spaced : Bool
deriving DecidableEq, Repr

namespace Flags

def initial : Flags :=
  ⟨false, false, false, true, false, false, false⟩

/-- Switches the flag of this letter; `none` if there is no such flag. -/
def switch? (flags : Flags) (letter : Char) (on : Bool) : Option Flags :=
  match letter with
  | 'i' => some { flags with ignoreCase := on }
  | 'm' => some { flags with multiLine := on }
  | 's' => some { flags with dotAll := on }
  | 'u' => some { flags with unicode := on }
  | 'R' => some { flags with anyLine := on }
  | 'U' => some { flags with swapGreed := on }
  | 'x' => some { flags with spaced := on }
  | _ => none

/-- Drops blanks, and comments up to the end of their line. -/
def dropBlanks : Bool → List Char → List Char
  | _, [] => []
  | true, c :: cs => dropBlanks (c != '\n') cs
  | false, c :: cs =>
    if Text.isBlank c then dropBlanks false cs
    else if c = '#' then dropBlanks true cs
    else c :: cs

/-- What is read next. -/
def skip (flags : Flags) (cs : List Char) : List Char :=
  if flags.spaced then dropBlanks false cs else cs

def alphabet (flags : Flags) : Alphabet :=
  if flags.unicode then .unicode else .ascii

def fold (flags : Flags) (s : CharSet) : CharSet :=
  if !flags.ignoreCase then s
  else if flags.unicode then s.folded
  else s.asciiFolded

def compl? (flags : Flags) (s : CharSet) : Option CharSet :=
  if flags.unicode then some s.compl else none

/-- A character that stands for itself, in either case if case is ignored. -/
def char (flags : Flags) (c : Char) : Pattern :=
  .ofSet flags.alphabet (flags.fold (.single c))

def blank (flags : Flags) : CharSet :=
  if flags.unicode then .blank else .asciiBlank

def digit (flags : Flags) : CharSet :=
  if flags.unicode then .digit else .asciiDigit

def word (flags : Flags) : CharSet :=
  if flags.unicode then .word else .asciiWord

def dot? (flags : Flags) : Option CharSet :=
  if flags.dotAll then flags.compl? .empty
  else if flags.anyLine then flags.compl? (.ofChars ['\n', '\r'])
  else flags.compl? (.single '\n')

def lineStart (flags : Flags) : Assertion :=
  if !flags.multiLine then .textStart
  else if flags.anyLine then .anyLineStart
  else .lineStart

def lineEnd (flags : Flags) : Assertion :=
  if !flags.multiLine then .textEnd
  else if flags.anyLine then .anyLineEnd
  else .lineEnd

end Flags

end Highlighter
