/-!
Texts in single quotes, as filters and arguments are written.
-/

namespace AttrChain.Text.Apostrophes

/-- A character inside the quotes: a backslash stands before a quote and before a backslash. -/
def encodeChar (c : Char) : List Char :=
  if c = '\x27' ∨ c = '\\' then ['\\', c] else [c]

def encode (s : String) : List Char := '\x27' :: s.toList.flatMap encodeChar ++ ['\x27']

end AttrChain.Text.Apostrophes
