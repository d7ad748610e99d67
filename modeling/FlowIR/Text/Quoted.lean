import FlowIR.Text.CharClass

/-!
# Quoted strings

The text of a string literal in a dump: the string between double quotes, with a backslash escape
for every character that would not be seen as itself.  Quote, backslash, tab, line feed, carriage
return and the null character have escapes of two characters; any other character that is
unprintable, or that would join the character before it, is written as its code point in
hexadecimal between `\u{` and `}`.
-/

namespace FlowIR.Text.Quoted

/-- A character by its code point, as `\u{7f}`. -/
def byCodePoint (c : Char) : List Char :=
  ['\\', 'u', '\x7b'] ++ Nat.toDigits 16 c.toNat ++ ['\x7d']

/-- One character as it stands between the quotes. -/
def encodeChar (c : Char) : List Char :=
  if c = '\x00' then ['\\', '0']
  else if c = '\t' then ['\\', 't']
  else if c = '\n' then ['\\', 'n']
  else if c = '\r' then ['\\', 'r']
  else if c = '\\' then ['\\', '\\']
  else if c = '"' then ['\\', '"']
  else if extendsGrapheme c || isUnprintable c then byCodePoint c
  else [c]

/-- A string between double quotes. -/
def encode (s : String) : String :=
  String.ofList ('"' :: s.toList.flatMap encodeChar ++ ['"'])

end FlowIR.Text.Quoted
