import ContractInterface.Text.Basic

/-! # Sets of code points

A property of characters beyond ASCII is kept as a list of closed intervals of code points in
increasing order, the form in which the Unicode Character Database publishes its properties. -/

namespace ContractInterface.Text

/-- A closed interval of code points. -/
abbrev Interval := Nat × Nat

/-- Whether a character lies in one of the intervals. -/
def covered (intervals : List Interval) (c : Char) : Bool :=
  intervals.any fun (first, last) => first ≤ c.toNat && c.toNat ≤ last

/-- A character below U+0080. -/
def isAscii (c : Char) : Bool :=
  c.toNat < 0x80

end ContractInterface.Text
