import ContractInterface.Text.Quoted

/-! # JSON text

A JSON value of texts, lists and objects, and its layout.  Everything beyond ASCII is escaped, a
character above U+FFFF by two UTF-16 units.  Every item of a list or object stands on a line of its
own, indented by its depth; a list or object without items is a pair of brackets. -/

namespace ContractInterface

open Text

/-- A JSON value. -/
inductive Json where
  | text (value : Text)
  | list (items : List Json)
  | object (fields : List (Text × Json))
deriving Repr

namespace Json

/-- A UTF-16 unit as an escape. -/
def unitEscape (unit : Nat) : Text :=
  '\\' :: 'u' :: hexadecimal 4 unit

/-- A character as it stands in a JSON string. -/
def escapedChar (c : Char) : Text :=
  if c = '"' then ['\\', '"']
  else if c = '\\' then ['\\', '\\']
  else if c = '\n' then ['\\', 'n']
  else if c = '\r' then ['\\', 'r']
  else if c = '\t' then ['\\', 't']
  else if c.toNat = 0x08 then ['\\', 'b']
  else if c.toNat = 0x0c then ['\\', 'f']
  else if 0x20 ≤ c.toNat ∧ c.toNat < 0x7f then [c]
  else if c.toNat < 0x10000 then unitEscape c.toNat
  else
    -- above the basic plane a character takes two units
    let offset := c.toNat - 0x10000
    unitEscape (0xd800 + offset / 0x400) ++ unitEscape (0xdc00 + offset % 0x400)

/-- A text as a JSON string. -/
def string (s : Text) : Text :=
  '"' :: s.flatMap escapedChar ++ ['"']

/-- A line break and the indentation of a depth. -/
def lineBreak (indent depth : Nat) : Text :=
  '\n' :: List.replicate (indent * depth) ' '

/-- Items between two brackets, one to a line. -/
def enclosed (indent depth : Nat) (left right : Char) (items : List Text) : Text :=
  if items = [] then [left, right]
  else left :: lineBreak indent (depth + 1) ++
    joined (',' :: lineBreak indent (depth + 1)) items ++ lineBreak indent depth ++ [right]

mutual

/-- The text of a value at a depth. -/
def renderAt (indent depth : Nat) : Json → Text
  | .text value => string value
  | .list items => enclosed indent depth '[' ']' (renderItems indent (depth + 1) items)
  | .object fields => enclosed indent depth '{' '}' (renderFields indent (depth + 1) fields)

/-- The texts of list items at a depth. -/
def renderItems (indent depth : Nat) : List Json → List Text
  | [] => []
  | item :: more => renderAt indent depth item :: renderItems indent depth more

/-- The texts of object fields at a depth. -/
def renderFields (indent depth : Nat) : List (Text × Json) → List Text
  | [] => []
  | (name, value) :: more =>
    (string name ++ ": ".toList ++ renderAt indent depth value) :: renderFields indent depth more

end

/-- The text of a value. -/
def render (indent : Nat) (value : Json) : Text :=
  renderAt indent 0 value

end Json

end ContractInterface
