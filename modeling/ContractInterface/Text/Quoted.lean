import ContractInterface.Text.Printable
import ContractInterface.Text.Utf8

/-! # Quoted text

A text in a message stands between single quotes, or between double quotes if it holds a single
quote and no double one.  Inside, the enclosing quote and the backslash are written with a backslash
before them; line breaks and tabs have letters; any other unprintable character is written by its
code point in hexadecimal digits. -/

namespace ContractInterface.Text

/-- A character as it stands between quotes of the given kind. -/
def quotedChar (quote c : Char) : Text :=
  if c = quote ∨ c = '\\' then ['\\', c]
  else if c = '\n' then ['\\', 'n']
  else if c = '\r' then ['\\', 'r']
  else if c = '\t' then ['\\', 't']
  else if isPrintable c then [c]
  else if c.toNat < 0x100 then '\\' :: 'x' :: hexadecimal 2 c.toNat
  else if c.toNat < 0x10000 then '\\' :: 'u' :: hexadecimal 4 c.toNat
  else '\\' :: 'U' :: hexadecimal 8 c.toNat

/-- The quote that a text is written between. -/
def enclosingQuote (s : Text) : Char :=
  if s.contains '\'' && !s.contains '"' then '"' else '\''

/-- A text between quotes. -/
def quoted (s : Text) : Text :=
  let quote := enclosingQuote s
  quote :: s.flatMap (quotedChar quote) ++ [quote]

end ContractInterface.Text
