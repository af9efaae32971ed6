import ContractInterface.Declaration.Keyword
import ContractInterface.Identifier
import ContractInterface.Literal

/-! # Contract-level statements

A source text is cut at its braces and semicolons; those inside string literals do not count.  Every
opening brace starts a block, which is opaque if a block keyword stands in the segment before it or
if it lies in an opaque block.  The statements are the trimmed segments that end in a semicolon
outside all opaque blocks. -/

namespace ContractInterface

open Text

/-- What ends a segment of source text. -/
inductive Boundary where
  | opening
  | closing
  | semicolon
deriving DecidableEq, Repr

/-- A piece of source text up to a boundary. -/
structure Segment where
  text : Text
  boundary : Boundary
deriving DecidableEq, Repr

/-- A statement with the index of its first character. -/
structure Statement where
  index : Nat
  text : Text
deriving DecidableEq, Repr

namespace Segment

/-- The boundary that a character is, outside of literals. -/
def boundary? (m : Mark) : Option Boundary :=
  if m.quoted then none
  else if m.char = '{' then some .opening
  else if m.char = '}' then some .closing
  else if m.char = ';' then some .semicolon
  else none

/-- The segments of a marked text.  What follows the last boundary is no segment. -/
def cut : List Mark → List Segment
  | [] => []
  | m :: more =>
    match boundary? m with
    | some boundary => ⟨[], boundary⟩ :: cut more
    | none =>
      match cut more with
      | [] => []
      | first :: rest => { first with text := m.char :: first.text } :: rest

/-- The segments of a source text. -/
def ofText (s : Text) : List Segment :=
  cut (Literal.marks s)

/-- Whether a block keyword stands in a segment. -/
def opensOpaque (segment : Segment) : Bool :=
  (Identifier.identifiers segment.text).any Keyword.opaqueBlocks.contains

end Segment

namespace Statement

/-- The statements among segments of which the first starts at `start`, inside the given blocks; the
innermost block comes first and `true` stands for an opaque one. -/
def among (start : Nat) (blocks : List Bool) : List Segment → List Statement
  | [] => []
  | segment :: more =>
    let next := start + segment.text.length + 1
    match segment.boundary with
    -- inside an opaque block every block is opaque
    | .opening => among next ((blocks.any id || segment.opensOpaque) :: blocks) more
    -- a closing brace that closes nothing is passed over
    | .closing => among next blocks.tail more
    | .semicolon =>
      if blocks.any id then among next blocks more
      else
        ⟨start + (segment.text.takeWhile isBlank).length, trim segment.text⟩ ::
          among next blocks more

/-- The contract-level statements of a source text without comments. -/
def ofText (s : Text) : List Statement :=
  among 0 [] (Segment.ofText s)

end Statement

end ContractInterface
