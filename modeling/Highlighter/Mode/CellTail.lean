import Highlighter.Mode.Basic
import Highlighter.Table.Build

/-!
# The CellTail mode

The table has three states: the start state for code, one for the inside of a quoted string, which
may run on over lines, and one for numbers and words, which the start state splices in last.
-/

namespace Highlighter.CellTail

def modeId : String :=
  "celltail"

def stringState : String :=
  "qstring"

def constantsState : String :=
  "constants"

def keywords : String :=
  "fn|I|INPUT|D|DEBUG|O|OUTPUT"

def builtinConstants : String :=
  "N|false|true"

/-- There are no built-in functions. -/
def builtinFunctions : String :=
  ""

def pseudoVariables : String :=
  "self|cls"

def deprecatedWords : String :=
  "debugger"

def operatorPattern : String :=
  "\\+|-|\\*|/|\\||&|%|\\^|\\.\\."

/-- Operators come first, so of these only `,`, `:`, `;`, `@=`, `>>=` and `<<=` are ever matched. -/
def punctuationPattern : String :=
  ",|:|;|->|\\+=|-=|\\*=|/=|//=|%=|@=|&=|\\|=|\\^=|>>=|<<=|\\*\\*="

def definitionPattern : String :=
  "(def|class)(\\s+)([\\x\x7b00BF\x7d-\\x\x7b1FFF\x7d\\x\x7b2C00\x7d-\\x\x7bD7FF\x7d\\w]+)"

/-- Numbers and words end at ASCII word edges, so a letter of another script ends them. -/
def integerPattern : String :=
  "(?:[1-9][0-9]*|0)(?-u:\\b)"

def identifierPattern : String :=
  "[a-zA-Z_$][a-zA-Z0-9_$]*(?-u:\\b)"

/-- The draft, with the pattern for what a string holds left open. -/
def callsWith (stringContent : String) : List DraftCall :=
  [.state startName,
   .token (.whole .comment) "#.*$",
   .tokenNext (.whole .string) "\"" stringState,
   .token (.whole .string) "'.'",
   .token (.whole .keywordOperator) operatorPattern,
   .token (.whole .punctuation) punctuationPattern,
   .token (.whole .leftParen) "[\\[(\x7b]",
   .token (.whole .rightParen) "[\\])\x7d]",
   .token (.groups [.keyword, .text, .functionName]) definitionPattern,
   .token (.whole .text) "\\s+",
   .splice constantsState,
   .state stringState,
   .tokenNext (.whole .string) "\"" startName,
   .token (.whole .string) stringContent,
   .state constantsState,
   .token (.whole .numeric) integerPattern,
   .token .classify identifierPattern]

def calls : List DraftCall :=
  callsWith "[^\"]"

def table : Except BuildError RuleTable :=
  RuleTable.ofCalls calls

def vocabulary : Vocabulary :=
  Vocabulary.empty
    |>.addWords .invalidDeprecated deprecatedWords
    |>.addWords .supportFunction builtinFunctions
    |>.addWords .pseudoVariable pseudoVariables
    |>.addWords .constant builtinConstants
    |>.addWords .keyword keywords

def mode : Except BuildError Mode := do
  let table ← table
  return { Mode.plainText with id := modeId, table, vocabulary, lineComment := some "#" }

end Highlighter.CellTail
