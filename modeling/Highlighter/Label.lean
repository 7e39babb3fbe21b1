/-!
# Labels

The semantic tag of a highlighted span. A label is written as a dotted scope name, on which themes
key their colours.
-/

namespace Highlighter

inductive Label where
  | comment
  | string
  | keywordOperator
  | punctuation
  | leftParen
  | rightParen
  | keyword
  | text
  | functionName
  | numeric
  | languageConstant
  | supportFunction
  | languageVariable
  | invalidDeprecated
  | identifier
deriving DecidableEq, Repr

structure UnknownScope where
  scope : String
deriving DecidableEq, Repr

def UnknownScope.message (e : UnknownScope) : String :=
  "unknown token scope `" ++ e.scope ++ "`"

namespace Label

/-- Every label, in the order of its ordinal. -/
def all : List Label :=
  [comment, string, keywordOperator, punctuation, leftParen, rightParen, keyword, text,
   functionName, numeric, languageConstant, supportFunction, languageVariable,
   invalidDeprecated, identifier]

def ordinal (label : Label) : Nat :=
  all.idxOf label

def scope : Label → String
  | comment => "comment"
  | string => "string"
  | keywordOperator => "keyword.operator"
  | punctuation => "punctuation"
  | leftParen => "paren.lparen"
  | rightParen => "paren.rparen"
  | keyword => "keyword"
  | text => "text"
  | functionName => "entity.name.function"
  | numeric => "constant.numeric"
  | languageConstant => "constant.language"
  | supportFunction => "support.function"
  | languageVariable => "variable.language"
  | invalidDeprecated => "invalid.deprecated"
  | identifier => "identifier"

def ofScope? (scope : String) : Option Label :=
  all.find? (·.scope == scope)

def ofScope (scope : String) : Except UnknownScope Label :=
  match ofScope? scope with
  | some label => .ok label
  | none => .error ⟨scope⟩

def isBracket (label : Label) : Bool :=
  label == leftParen || label == rightParen

end Label

end Highlighter
