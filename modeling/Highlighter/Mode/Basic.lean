import Highlighter.Document

/-!
# Modes

What an editor needs to highlight and edit one language.
-/

namespace Highlighter

/-- What an editor does by itself while one types. -/
structure Behaviour where
  /-- Close brackets as they are opened. -/
  autoPairBrackets : Bool
  /-- Close quotes as they are opened. -/
  autoPairQuotes : Bool
deriving DecidableEq, Repr

def Behaviour.default : Behaviour :=
  ⟨true, true⟩

/-- Whether a character counts as indentation. -/
def isIndent (c : Char) : Bool :=
  c == ' ' || c == '\t'

/-- The indentation of the line that follows `line`: its own. -/
def nextLineIndent (line : List Char) : List Char :=
  line.takeWhile isIndent

/-- What is left of a text behind a beginning. -/
def strip? : List Char → List Char → Option (List Char)
  | [], cs => some cs
  | _ :: _, [] => none
  | b :: bs, c :: cs => if b = c then strip? bs cs else none

structure Mode where
  id : String
  table : RuleTable
  vocabulary : Vocabulary
  lineComment : Option String
  /-- What opens and closes a block comment. -/
  blockComment : Option (String × String)
  behaviour : Behaviour
  config : ScanConfig
deriving DecidableEq, Repr

namespace Mode

def plainTextId : String :=
  "text"

/-- The mode without rules, in which every character is plain text. -/
def plainText : Mode where
  id := plainTextId
  table := .empty
  vocabulary := .empty
  lineComment := none
  blockComment := none
  behaviour := .default
  config := .default

def scanner (mode : Mode) : Scanner :=
  ⟨mode.table, mode.vocabulary, mode.config⟩

/-- The tokens of every line of a text. -/
def tokenize (mode : Mode) (text : List Char) : List LineTokens :=
  mode.scanner.lines ((LineIndex.ofText text).contents text)

def document (mode : Mode) (text : List Char) : Document :=
  .ofText mode.scanner text

/-- Comments a line out behind its indentation, or in again if it begins with `marker` there. -/
def toggleWith (marker line : List Char) : List Char :=
  let indent := nextLineIndent line
  let content := line.dropWhile isIndent
  match strip? marker content with
  | some body => indent ++ (strip? [' '] body).getD body
  | none => indent ++ marker ++ ' ' :: content

def toggleLineComment (mode : Mode) (line : List Char) : Option (List Char) :=
  mode.lineComment.map fun marker => toggleWith marker.toList line

end Mode

end Highlighter
