import AttrChain.Value.Basic

/-!
Argument lists: what they hold, and what can be wrong with their text.
-/

namespace AttrChain

/-- The arguments of a call. `rest` asks for live values behind the literal ones: 0 for the top of
the stack spread out, `k` for the top `k` items. -/
structure Arguments where
  args : List Value
  rest : Option Nat

def Arguments.empty : Arguments := ⟨[], none⟩

namespace Literal

inductive Fault where
  | unexpected (c : Char)
  | noValue
  | unknownWord (word : String)
  | badInfinity
  | badNumber (text : String)
  | noHexDigits
  | hugeHex
  | openText
  | openEscape
  | badCodePoint (digits : String)
  | unclosedList
  | unclosedMap
  | noKey
  | noColon (found : Option Char)
  deriving DecidableEq

def Fault.message : Fault → String
  | unexpected c => "unexpected `" ++ c.toString ++ "`"
  | noValue => "expected a value"
  | unknownWord word => "unknown identifier `" ++ word ++ "`"
  | badInfinity => "malformed number"
  | badNumber text => "malformed number `" ++ text ++ "`"
  | noHexDigits => "cannot parse integer from empty string"
  | hugeHex => "number too large to fit in target type"
  | openText => "unterminated string"
  | openEscape => "unterminated escape"
  | badCodePoint digits => "bad unicode escape `" ++ digits ++ "`"
  | unclosedList => "expected `,` or `]` in array"
  | unclosedMap => "expected `,` or `\x7d` in object"
  | noKey => "expected an object key"
  | noColon (some c) => "expected `:`, found `" ++ c.toString ++ "`"
  | noColon none => "expected `:`, found end of input"

end Literal

end AttrChain
