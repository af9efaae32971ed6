import ContractInterface.Text.Alphanumeric

/-! # Word characters

Keywords are recognised as whole words: as maximal runs of letters, numbers and low lines.  A dollar
sign is no word character, so a keyword may stand right behind one. -/

namespace ContractInterface.Text

/-- A letter, a number or a low line. -/
def isWordChar (c : Char) : Bool :=
  isAlphanumeric c || c == '_'

end ContractInterface.Text
