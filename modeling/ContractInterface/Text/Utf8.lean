import ContractInterface.Text.Basic

/-! # UTF-8

A text is stored as bytes in UTF-8.  Reading accepts the sequences of RFC 3629 and no others, and
reports the first place where the bytes leave it: a byte that starts no character, a byte that does
not continue the character begun, or the end of the bytes inside a character. -/

namespace ContractInterface.Text

/-- Why bytes are no text. -/
inductive Utf8Fault where
  | invalidStart
  | invalidContinuation
  | unexpectedEnd
deriving DecidableEq, Repr

/-- Where bytes cease to be a text: the first byte of the character concerned, its position, and the
number of its bytes that were read in vain. -/
structure Utf8Error where
  byte : UInt8
  position : Nat
  count : Nat
  fault : Utf8Fault
deriving DecidableEq, Repr

/-- The wording of a fault. -/
def Utf8Fault.message : Utf8Fault → Text
  | .invalidStart => "invalid start byte".toList
  | .invalidContinuation => "invalid continuation byte".toList
  | .unexpectedEnd => "unexpected end of data".toList

/-- The lowercase hexadecimal digits of a number, padded with zeros to a width. -/
def hexadecimal (width n : Nat) : Text :=
  let shown := Nat.toDigits 16 n
  List.replicate (width - shown.length) '0' ++ shown

/-- The wording of an error. -/
def Utf8Error.message (e : Utf8Error) : Text :=
  let place :=
    if e.count = 1 then
      "byte 0x".toList ++ hexadecimal 2 e.byte.toNat ++ " in position ".toList ++ digits e.position
    else
      "bytes in position ".toList ++ digits e.position ++ '-' :: digits (e.position + e.count - 1)
  "'utf-8' codec can't decode ".toList ++ place ++ ": ".toList ++ e.fault.message

/-- The bytes of a text. -/
def utf8Bytes (s : Text) : List UInt8 :=
  s.flatMap String.utf8EncodeChar

/-- A byte that continues a character. -/
def isTail (b : UInt8) : Bool :=
  0x80 ≤ b && b < 0xc0

/-- Whether `second` may follow the first byte of a character of three or four bytes.  The bounds
leave out surrogates, numbers beyond the last code point, and characters that have a shorter
form. -/
def mayFollow (first second : UInt8) : Bool :=
  isTail second &&
    (if first = 0xe0 then 0xa0 ≤ second
    else if first = 0xed then second < 0xa0
    else if first = 0xf0 then 0x90 ≤ second
    else if first = 0xf4 then second < 0x90
    else true)

/-- The character with the given leading bits, followed by six bits from each tail byte. -/
def charOf (leading : Nat) (tails : List UInt8) : Char :=
  Char.ofNat (tails.foldl (fun n b => 64 * n + b.toNat % 64) leading)

/-- The text that bytes from a position on hold. -/
def decodeFrom (position : Nat) : List UInt8 → Except Utf8Error Text
  | [] => .ok []
  | b :: rest =>
    let stop (count : Nat) (fault : Utf8Fault) : Except Utf8Error Text :=
      .error ⟨b, position, count, fault⟩
    if b < 0x80 then (decodeFrom (position + 1) rest).map (Char.ofNat b.toNat :: ·)
    -- tail bytes, and heads of characters that fit into one byte
    else if b < 0xc2 then stop 1 .invalidStart
    else if b < 0xe0 then
      match rest with
      | [] => stop 1 .unexpectedEnd
      | c :: rest =>
        if isTail c then (decodeFrom (position + 2) rest).map (charOf (b.toNat % 32) [c] :: ·)
        else stop 1 .invalidContinuation
    else if b < 0xf0 then
      match rest with
      | [] => stop 1 .unexpectedEnd
      | c :: rest =>
        -- a wrong second byte blames the first, a wrong later byte all before it
        if mayFollow b c then
          match rest with
          | [] => stop 2 .unexpectedEnd
          | d :: rest =>
            if isTail d then
              (decodeFrom (position + 3) rest).map (charOf (b.toNat % 16) [c, d] :: ·)
            else stop 2 .invalidContinuation
        else stop 1 .invalidContinuation
    else if b < 0xf5 then
      match rest with
      | [] => stop 1 .unexpectedEnd
      | c :: rest =>
        if mayFollow b c then
          match rest with
          | [] => stop 2 .unexpectedEnd
          | d :: rest =>
            if isTail d then
              match rest with
              | [] => stop 3 .unexpectedEnd
              | e :: rest =>
                if isTail e then
                  (decodeFrom (position + 4) rest).map (charOf (b.toNat % 8) [c, d, e] :: ·)
                else stop 3 .invalidContinuation
            else stop 2 .invalidContinuation
        else stop 1 .invalidContinuation
    else stop 1 .invalidStart

/-- The text that bytes hold. -/
def ofUtf8 (bytes : List UInt8) : Except Utf8Error Text :=
  decodeFrom 0 bytes

/-- A text in which every line ends in a line feed alone, whatever line ends it was written with. -/
def withLineFeeds : Text → Text
  | '\r' :: '\n' :: s => '\n' :: withLineFeeds s
  | '\r' :: s => '\n' :: withLineFeeds s
  | c :: s => c :: withLineFeeds s
  | [] => []

end ContractInterface.Text
