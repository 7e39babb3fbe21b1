import Highlighter.Label
import Highlighter.Text.WordOrder

/-!
# Vocabularies

Words that one rule matches alike are told apart by lists of words, one for each category. A word on
several lists belongs to the first of their categories in order of precedence.
-/

namespace Highlighter

inductive Category where
  | invalidDeprecated
  | supportFunction
  | pseudoVariable
  | constant
  | keyword
  /-- The category of words on no list. -/
  | identifier
deriving DecidableEq, Repr

namespace Category

/-- The categories that have lists; the first one that lists a word decides. -/
def precedence : List Category :=
  [invalidDeprecated, supportFunction, pseudoVariable, constant, keyword]

def all : List Category :=
  precedence ++ [identifier]

def label : Category → Label
  | invalidDeprecated => .invalidDeprecated
  | supportFunction => .supportFunction
  | pseudoVariable => .languageVariable
  | constant => .languageConstant
  | keyword => .keyword
  | identifier => .identifier

def name : Category → String
  | invalidDeprecated => "invalid-deprecated"
  | supportFunction => "support-function"
  | pseudoVariable => "pseudo-variable"
  | constant => "constant"
  | keyword => "keyword"
  | identifier => "identifier"

def ofName? (name : String) : Option Category :=
  all.find? (·.name == name)

end Category

/-- The list of words of each category. -/
structure Vocabulary where
  invalidDeprecated : List String
  supportFunction : List String
  pseudoVariable : List String
  constant : List String
  keyword : List String
deriving DecidableEq, Repr

namespace Vocabulary

def empty : Vocabulary :=
  ⟨[], [], [], [], []⟩

def list (v : Vocabulary) : Category → List String
  | .invalidDeprecated => v.invalidDeprecated
  | .supportFunction => v.supportFunction
  | .pseudoVariable => v.pseudoVariable
  | .constant => v.constant
  | .keyword => v.keyword
  | .identifier => []

/-- The parts of a text between vertical bars. -/
def segments : List Char → List (List Char)
  | [] => [[]]
  | c :: cs =>
    if c = '|' then
      [] :: segments cs
    else
      match segments cs with
      | [] => [[c]]
      | segment :: rest => (c :: segment) :: rest

/-- The words of a text that separates them by vertical bars. -/
def wordsOf (text : String) : List String :=
  ((segments text.toList).filter (!·.isEmpty)).map String.ofList

/-- Appends the words of `text` to a list. There is no list of identifiers. -/
def addWords (v : Vocabulary) (category : Category) (text : String) : Vocabulary :=
  match category with
  | .invalidDeprecated => { v with invalidDeprecated := v.invalidDeprecated ++ wordsOf text }
  | .supportFunction => { v with supportFunction := v.supportFunction ++ wordsOf text }
  | .pseudoVariable => { v with pseudoVariable := v.pseudoVariable ++ wordsOf text }
  | .constant => { v with constant := v.constant ++ wordsOf text }
  | .keyword => { v with keyword := v.keyword ++ wordsOf text }
  | .identifier => v

def contains (v : Vocabulary) (category : Category) (word : String) : Bool :=
  (v.list category).contains word

def classify (v : Vocabulary) (word : String) : Category :=
  (Category.precedence.find? (v.contains · word)).getD .identifier

/-- The categories that list the word, in order of precedence. -/
def owners (v : Vocabulary) (word : String) : List Category :=
  Category.precedence.filter (v.contains · word)

/-- Words on more than one list, in increasing order, with the categories that list them. -/
def overlaps (v : Vocabulary) : List (String × List Category) :=
  let words := Text.sortWords (Category.precedence.flatMap v.list)
  (words.map fun word => (word, v.owners word)).filter fun (_, owners) => 1 < owners.length

end Vocabulary

/-- Letters, digits, underscores and dollar signs of ASCII, not beginning with a digit. -/
def isIdentifierShape (word : String) : Bool :=
  match word.toList with
  | [] => false
  | c :: cs => isStart c && cs.all fun c => isStart c || c.isDigit
where
  isStart (c : Char) : Bool :=
    c.isAlpha || c == '_' || c == '$'

end Highlighter
