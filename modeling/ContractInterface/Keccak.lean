/-! # Keccak-256

The hash function that function selectors are computed with.  It is the sponge over the permutation
Keccak-f[1600] with a rate of 136 bytes.  A message is followed by the bit 1, zeros, and the bit 1
again; the standard SHA3-256, which came later, adds two bits to the message first.

A state has 25 lanes of 64 bits.  The lane in column `x` and row `y` has the index `x + 5 * y`. -/

namespace ContractInterface.Keccak

/-- The 25 lanes of a state. -/
abbrev State := Vector UInt64 25

/-- The lane in a column and a row, both counted modulo five. -/
def lane (s : State) (x y : Nat) : UInt64 :=
  s.get ⟨x % 5 + 5 * (y % 5), by omega⟩

/-- The state whose lanes a function of column and row gives. -/
def ofLanes (f : Nat → Nat → UInt64) : State :=
  Vector.ofFn fun i : Fin 25 => f (i.val % 5) (i.val / 5)

/-- A word rotated to the left by less than 64 places. -/
def rotateLeft (w : UInt64) (places : Nat) : UInt64 :=
  if places = 0 then w
  else (w <<< UInt64.ofNat places) ||| (w >>> UInt64.ofNat (64 - places))

/-- The rotation of each lane, by index. -/
def rotations : Vector Nat 25 :=
  #v[0, 1, 62, 28, 27,
     36, 44, 6, 55, 20,
     3, 10, 43, 25, 39,
     41, 45, 15, 21, 8,
     18, 2, 61, 56, 14]

/-- The constants that break the symmetry of the rounds. -/
def roundConstants : List UInt64 :=
  [0x0000000000000001, 0x0000000000008082, 0x800000000000808a, 0x8000000080008000,
   0x000000000000808b, 0x0000000080000001, 0x8000000080008081, 0x8000000000008009,
   0x000000000000008a, 0x0000000000000088, 0x0000000080008009, 0x000000008000000a,
   0x000000008000808b, 0x800000000000008b, 0x8000000000008089, 0x8000000000008003,
   0x8000000000008002, 0x8000000000000080, 0x000000000000800a, 0x800000008000000a,
   0x8000000080008081, 0x8000000000008080, 0x0000000080000001, 0x8000000080008008]

/-- The parity of a column. -/
def parity (s : State) (x : Nat) : UInt64 :=
  lane s x 0 ^^^ lane s x 1 ^^^ lane s x 2 ^^^ lane s x 3 ^^^ lane s x 4

/-- Adds to every lane the parities of two neighbouring columns. -/
def theta (s : State) : State :=
  let parities : Vector UInt64 5 := Vector.ofFn fun x => parity s x.val
  let effects : Vector UInt64 5 := Vector.ofFn fun x =>
    parities.get ⟨(x.val + 4) % 5, by omega⟩ ^^^
      rotateLeft (parities.get ⟨(x.val + 1) % 5, by omega⟩) 1
  ofLanes fun x y => lane s x y ^^^ effects.get ⟨x % 5, by omega⟩

/-- Rotates every lane by its own number of places. -/
def rho (s : State) : State :=
  Vector.ofFn fun i : Fin 25 => rotateLeft s[i] rotations[i]

/-- Moves the lanes to other places. -/
def pi (s : State) : State :=
  ofLanes fun x y => lane s (x + 3 * y) x

/-- Combines every lane with the next two in its row. -/
def chi (s : State) : State :=
  ofLanes fun x y => lane s x y ^^^ (~~~lane s (x + 1) y &&& lane s (x + 2) y)

/-- Adds a round constant to the first lane. -/
def iota (constant : UInt64) (s : State) : State :=
  s.set 0 (s[0] ^^^ constant)

/-- One round of the permutation. -/
def round (s : State) (constant : UInt64) : State :=
  iota constant (chi (pi (rho (theta s))))

/-- The permutation of states. -/
def permute (s : State) : State :=
  roundConstants.foldl round s

/-- The number of bytes that are absorbed at a time. -/
def rate : Nat := 136

/-- A message filled up to a multiple of the rate. -/
def pad (message : List UInt8) : List UInt8 :=
  let missing := rate - message.length % rate
  -- the first and the last filling byte may be the same
  if missing = 1 then message ++ [0x81]
  else message ++ 0x01 :: List.replicate (missing - 2) 0x00 ++ [0x80]

/-- The lane that eight bytes make, the least significant first. -/
def laneOfBytes (bytes : List UInt8) : UInt64 :=
  bytes.foldr (fun byte acc => acc <<< 8 ||| byte.toUInt64) 0

/-- The eight bytes of a lane, the least significant first. -/
def bytesOfLane (w : UInt64) : List UInt8 :=
  (List.range 8).map fun k => (w >>> UInt64.ofNat (8 * k)).toUInt8

/-- Adds a block of bytes to a state and permutes it. -/
def absorb (s : State) (block : List UInt8) : State :=
  permute (Vector.ofFn fun i : Fin 25 => s[i] ^^^ laneOfBytes ((block.drop (8 * i.val)).take 8))

/-- The first blocks of a text, at most as many as `count`. -/
def blocks : (count : Nat) → List UInt8 → List (List UInt8)
  | 0, _ => []
  | count + 1, bytes => bytes.take rate :: blocks count (bytes.drop rate)

/-- The hash of a message, of 32 bytes. -/
def hash (message : List UInt8) : List UInt8 :=
  let padded := pad message
  let final := (blocks (padded.length / rate) padded).foldl absorb (Vector.replicate 25 0)
  (final.toList.flatMap bytesOfLane).take 32

/-- Padding fills up whole blocks. -/
theorem length_pad_mod (message : List UInt8) : (pad message).length % rate = 0 := by
  unfold pad rate
  simp only
  split <;> simp <;> omega

end ContractInterface.Keccak
