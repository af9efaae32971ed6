import ContractInterface.Text.Order

/-! # Paths

A path is a list of parts, relative or rooted.  Reading a path drops its empty parts and its single
dots; parts of two dots stay, because what they lead to depends on the files.  A path of no parts is
written as a dot. -/

namespace ContractInterface

open Text

/-- A path.  The root is empty for a relative path; otherwise it is one slash, or two for a path that
is written with exactly two. -/
structure Path where
  root : Text
  parts : List Text
deriving DecidableEq, Repr

namespace Path

/-- The root that a text is written with. -/
def rootOf (s : Text) : Text :=
  match (s.takeWhile (· = '/')).length with
  | 0 => []
  -- three slashes and more are one again
  | 2 => ['/', '/']
  | _ => ['/']

/-- The path that a text writes. -/
def ofText (s : Text) : Path :=
  ⟨rootOf s, (fields '/' s).filter fun part => part ≠ [] && part ≠ ['.']⟩

/-- The text of a path. -/
def toText (p : Path) : Text :=
  if p.root = [] ∧ p.parts = [] then ['.'] else p.root ++ joined ['/'] p.parts

/-- A path that goes on with another one; a rooted path replaces what it follows. -/
def append (p q : Path) : Path :=
  if q.root = [] then ⟨p.root, p.parts ++ q.parts⟩ else q

/-- What a path that goes on from another one adds to it. -/
def behind (base p : Path) : Path :=
  ⟨[], p.parts.drop base.parts.length⟩

/-- A path without its last part. -/
def parent (p : Path) : Path :=
  ⟨p.root, p.parts.dropLast⟩

/-- The last part of a path, or nothing. -/
def name (p : Path) : Text :=
  p.parts.getLast?.getD []

/-- A file name without its suffix.  The suffix starts at the last dot, which may be neither the
first character nor the last. -/
def stem (name : Text) : Text :=
  let behind := (name.reverse.takeWhile (· ≠ '.')).reverse
  let front := name.take (name.length - behind.length - 1)
  if behind = [] ∨ front = [] then name else front

/-- A path whose name has another suffix. -/
def withSuffix (p : Path) (suffix : Text) : Path :=
  ⟨p.root, p.parts.dropLast ++ [stem p.name ++ suffix]⟩

/-- The parts that order paths, the root being the first of them. -/
def orderKey (p : Path) : List Text :=
  if p.root = [] then p.parts else p.root :: p.parts

/-- Whether a path comes before another one or is the same: part by part, by code points. -/
def comesBefore (p q : Path) : Bool :=
  listsInOrder inOrder p.orderKey q.orderKey

end Path

end ContractInterface
