import Highlighter.Stored.Record
import Highlighter.Token

/-!
# Stored tokens
-/

namespace Highlighter

instance : Stored TextSize where
  encode size := .nat size.val
  decode? json := (json.natBelow? 0x100000000).map TextSize.of

def TextRange.decodeFields? : List (Option Json) → Option TextRange
  | [start, stop] => do
    let start ← Json.required? start
    let stop ← Json.required? stop
    return ⟨start, stop⟩
  | _ => none

instance : Stored TextRange where
  encode range := .object [("start", encode range.start), ("end", encode range.stop)]
  decode? json := (json.fields? ["start", "end"]).bind TextRange.decodeFields?

/-- A label is stored as its scope. -/
instance : Stored Label where
  encode label := .string label.scope
  decode?
    | .string scope => Label.ofScope? scope
    | _ => none

def Token.decodeFields? : List (Option Json) → Option Token
  | [label, text, range] => do
    let label ← Json.required? label
    let text ← Json.required? text
    let range ← Json.required? range
    return ⟨label, text, range⟩
  | _ => none

instance : Stored Token where
  encode token :=
    .object
      [("label", encode token.label), ("text", encode token.text), ("range", encode token.range)]
  decode? json := (json.fields? ["label", "text", "range"]).bind Token.decodeFields?

end Highlighter
