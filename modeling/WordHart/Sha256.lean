import WordHart.Word

namespace WordHart.Sha256

abbrev Block := Vector UInt32 16

structure State where
  a : UInt32
  b : UInt32
  c : UInt32
  d : UInt32
  e : UInt32
  f : UInt32
  g : UInt32
  h : UInt32
  deriving DecidableEq

def initial : State :=
  ⟨0x6a09e667, 0xbb67ae85, 0x3c6ef372, 0xa54ff53a,
    0x510e527f, 0x9b05688c, 0x1f83d9ab, 0x5be0cd19⟩

def roundConstants : Vector UInt32 64 :=
  #v[0x428a2f98, 0x71374491, 0xb5c0fbcf, 0xe9b5dba5, 0x3956c25b, 0x59f111f1, 0x923f82a4, 0xab1c5ed5,
    0xd807aa98, 0x12835b01, 0x243185be, 0x550c7dc3, 0x72be5d74, 0x80deb1fe, 0x9bdc06a7, 0xc19bf174,
    0xe49b69c1, 0xefbe4786, 0x0fc19dc6, 0x240ca1cc, 0x2de92c6f, 0x4a7484aa, 0x5cb0a9dc, 0x76f988da,
    0x983e5152, 0xa831c66d, 0xb00327c8, 0xbf597fc7, 0xc6e00bf3, 0xd5a79147, 0x06ca6351, 0x14292967,
    0x27b70a85, 0x2e1b2138, 0x4d2c6dfc, 0x53380d13, 0x650a7354, 0x766a0abb, 0x81c2c92e, 0x92722c85,
    0xa2bfe8a1, 0xa81a664b, 0xc24b8b70, 0xc76c51a3, 0xd192e819, 0xd6990624, 0xf40e3585, 0x106aa070,
    0x19a4c116, 0x1e376c08, 0x2748774c, 0x34b0bcb5, 0x391c0cb3, 0x4ed8aa4a, 0x5b9cca4f, 0x682e6ff3,
    0x748f82ee, 0x78a5636f, 0x84c87814, 0x8cc70208, 0x90befffa, 0xa4506ceb, 0xbef9a3f7, 0xc67178f2]

/-- Rotate a word right by a number of bits between 1 and 31. -/
def rotate (word count : UInt32) : UInt32 := word >>> count ||| word <<< (32 - count)

def lowerSigma (word : UInt32) : UInt32 := rotate word 7 ^^^ rotate word 18 ^^^ word >>> 3

def upperSigma (word : UInt32) : UInt32 := rotate word 17 ^^^ rotate word 19 ^^^ word >>> 10

/-- The first `count` words of a block's schedule. -/
def schedule (block : Block) : (count : Nat) → Vector UInt32 count
  | 0 => #v[]
  | count + 1 =>
      let earlier := schedule block count
      earlier.push <|
        if within : count < 16 then block[count]
        else
          upperSigma earlier[count - 2] + earlier[count - 7] +
            lowerSigma earlier[count - 15] + earlier[count - 16]

namespace State

def round (state : State) (constant word : UInt32) : State :=
  let choice := (state.e &&& state.f) ^^^ (~~~state.e &&& state.g)
  let majority := (state.a &&& state.b) ^^^ (state.a &&& state.c) ^^^ (state.b &&& state.c)
  let first := state.h + (rotate state.e 6 ^^^ rotate state.e 11 ^^^ rotate state.e 25) +
    choice + constant + word
  let second := (rotate state.a 2 ^^^ rotate state.a 13 ^^^ rotate state.a 22) + majority
  ⟨first + second, state.a, state.b, state.c, state.d + first, state.e, state.f, state.g⟩

def add (left right : State) : State :=
  ⟨left.a + right.a, left.b + right.b, left.c + right.c, left.d + right.d,
    left.e + right.e, left.f + right.f, left.g + right.g, left.h + right.h⟩

def words (state : State) : List UInt32 :=
  [state.a, state.b, state.c, state.d, state.e, state.f, state.g, state.h]

def compress (state : State) (block : Block) : State :=
  state.add <| (roundConstants.zip (schedule block 64)).toList.foldl
    (fun mixed pair => mixed.round pair.1 pair.2) state

end State

/-- The four bytes of a word, the highest first. -/
def wordBytes (word : UInt32) : List UInt8 := (LittleEndian.bytes 4 word.toNat).reverse

/-- The least number of zeros that fills the last block of a message of the given length. -/
def paddingZeros (length : Nat) : Nat := (119 - length % 64) % 64

/-- The message, a marker bit, zeros up to a whole block, and the length in bits. -/
def pad (message : List UInt8) : List UInt8 :=
  message ++ 0x80 :: List.replicate (paddingZeros message.length) 0 ++
    (LittleEndian.bytes 8 (8 * message.length)).reverse

def wordAt (data : Array UInt8) (position : Nat) : UInt32 :=
  let byte (offset : Nat) : UInt32 := (data.getD (position + offset) 0).toUInt32
  byte 0 <<< 24 ||| byte 1 <<< 16 ||| byte 2 <<< 8 ||| byte 3

def blockAt (data : Array UInt8) (number : Nat) : Block :=
  Vector.ofFn fun offset => wordAt data (64 * number + 4 * offset)

/-- The 256-bit secure hash of a byte string. -/
def hash (message : List UInt8) : List UInt8 :=
  let padded := (pad message).toArray
  let final := (List.range (padded.size / 64)).foldl
    (fun state number => state.compress (blockAt padded number)) initial
  final.words.flatMap wordBytes

@[simp] theorem length_wordBytes (word : UInt32) : (wordBytes word).length = 4 := by
  simp [wordBytes]

@[simp] theorem length_hash (message : List UInt8) : (hash message).length = 32 := by
  simp [hash, State.words]

end WordHart.Sha256
