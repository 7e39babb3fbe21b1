import Highlighter.Label
import Highlighter.Text.Span

/-!
# Tokens

A token is a labelled piece of a line. Merging joins neighbours of one label, for readers who ask
only which bytes carry which label.
-/

namespace Highlighter

structure Token where
  label : Label
  text : String
  /-- Where the text stands in its line. -/
  range : TextRange
deriving DecidableEq, Repr

namespace Token

/-- Whether `next` continues `token`: one label, and no byte between them. -/
def continues (token next : Token) : Bool :=
  token.label == next.label && token.range.stop == next.range.start

def join (token next : Token) : Token :=
  ⟨token.label, token.text ++ next.text, ⟨token.range.start, next.range.stop⟩⟩

/-- Puts a token in front of merged tokens. -/
def mergeInto (token : Token) : List Token → List Token
  | [] => [token]
  | next :: tokens =>
    if token.continues next then token.join next :: tokens else token :: next :: tokens

def merge : List Token → List Token
  | [] => []
  | token :: tokens => token.mergeInto (merge tokens)

end Token

end Highlighter
