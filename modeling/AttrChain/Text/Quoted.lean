import AttrChain.Text.Hidden
import AttrChain.Text.Mark
import AttrChain.Text.Numeral

/-!
Texts in double quotes for diagnostic output, with everything that would not show escaped.
-/

namespace AttrChain.Text.Quoted

/-- A character inside the quotes: a backslash before a quote or a backslash, letters for the
common controls, and the code point in braces for what has no shape of its own. -/
def encodeChar (c : Char) : List Char :=
  if c == '\x22' then ['\\', '\x22']
  else if c == '\\' then ['\\', '\\']
  else if c == '\n' then ['\\', 'n']
  else if c == '\r' then ['\\', 'r']
  else if c == '\t' then ['\\', 't']
  else if c == '\x00' then ['\\', '0']
  else if isExtender c || isHidden c then
    '\\' :: 'u' :: '\x7b' :: Nat.toDigits 16 c.toNat ++ ['\x7d']
  else [c]

def encode (s : String) : String :=
  String.ofList ('\x22' :: s.toList.flatMap encodeChar ++ ['\x22'])

end AttrChain.Text.Quoted
