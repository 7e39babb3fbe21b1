import Highlighter.Mode.Basic
import Highlighter.Stored.Record

/-!
# Stored settings

Settings are records whose fields all have defaults.
-/

namespace Highlighter

/-- A category is stored as its name; an object that maps the name to null is read as well. -/
instance : Stored Category where
  encode category := .string category.name
  decode?
    | .string name => Category.ofName? name
    | .object [(name, .null)] => Category.ofName? name
    | _ => none

def Vocabulary.fieldNames : List String :=
  Category.precedence.map (·.name)

def Vocabulary.decodeFields? : List (Option Json) → Option Vocabulary
  | [invalidDeprecated, supportFunction, pseudoVariable, constant, keyword] => do
    let invalidDeprecated ← Json.orDefault? [] invalidDeprecated
    let supportFunction ← Json.orDefault? [] supportFunction
    let pseudoVariable ← Json.orDefault? [] pseudoVariable
    let constant ← Json.orDefault? [] constant
    let keyword ← Json.orDefault? [] keyword
    return ⟨invalidDeprecated, supportFunction, pseudoVariable, constant, keyword⟩
  | _ => none

instance : Stored Vocabulary where
  encode v :=
    .object (Category.precedence.map fun category => (category.name, encode (v.list category)))
  decode? json := (json.fields? Vocabulary.fieldNames).bind Vocabulary.decodeFields?

def ScanConfig.decodeFields? : List (Option Json) → Option ScanConfig
  | [maxTokens] => (Json.orDefault? ScanConfig.default.maxTokens maxTokens).map ScanConfig.mk
  | _ => none

/-- A cap that is not given is the default one; null stands for no cap. -/
instance : Stored ScanConfig where
  encode config := .object [("max_tokens_per_line", encode config.maxTokens)]
  decode? json := (json.fields? ["max_tokens_per_line"]).bind ScanConfig.decodeFields?

def Behaviour.decodeFields? : List (Option Json) → Option Behaviour
  | [brackets, quotes] => do
    let brackets ← Json.orDefault? Behaviour.default.autoPairBrackets brackets
    let quotes ← Json.orDefault? Behaviour.default.autoPairQuotes quotes
    return ⟨brackets, quotes⟩
  | _ => none

instance : Stored Behaviour where
  encode behaviour :=
    .object
      [("auto-pair-brackets", encode behaviour.autoPairBrackets),
       ("auto-pair-quotes", encode behaviour.autoPairQuotes)]
  decode? json :=
    (json.fields? ["auto-pair-brackets", "auto-pair-quotes"]).bind Behaviour.decodeFields?

end Highlighter
