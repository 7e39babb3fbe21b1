/-!
# Words in order

Strictly increasing lists of words. Words compare by code points, which is the order of their UTF-8
bytes.
-/

namespace Highlighter.Text

/-- Puts a word where it belongs, once. -/
def insertWord (word : String) : List String → List String
  | [] => [word]
  | w :: ws =>
    if word < w then word :: w :: ws
    else if word = w then w :: ws
    else w :: insertWord word ws

/-- The words in increasing order, each once. -/
def sortWords : List String → List String
  | [] => []
  | w :: ws => insertWord w (sortWords ws)

end Highlighter.Text
