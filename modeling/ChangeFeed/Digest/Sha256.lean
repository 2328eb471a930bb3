/-!
# The SHA-256 digest

The message is padded to whole blocks of 64 bytes, and the blocks are worked one after the other
into eight words of 32 bits.
-/

namespace ChangeFeed.Digest.Sha256

/-- The words that one of the 64 rounds adds. -/
def roundConstants : List UInt32 := [
  0x428a2f98, 0x71374491, 0xb5c0fbcf, 0xe9b5dba5, 0x3956c25b, 0x59f111f1, 0x923f82a4, 0xab1c5ed5,
  0xd807aa98, 0x12835b01, 0x243185be, 0x550c7dc3, 0x72be5d74, 0x80deb1fe, 0x9bdc06a7, 0xc19bf174,
  0xe49b69c1, 0xefbe4786, 0x0fc19dc6, 0x240ca1cc, 0x2de92c6f, 0x4a7484aa, 0x5cb0a9dc, 0x76f988da,
  0x983e5152, 0xa831c66d, 0xb00327c8, 0xbf597fc7, 0xc6e00bf3, 0xd5a79147, 0x06ca6351, 0x14292967,
  0x27b70a85, 0x2e1b2138, 0x4d2c6dfc, 0x53380d13, 0x650a7354, 0x766a0abb, 0x81c2c92e, 0x92722c85,
  0xa2bfe8a1, 0xa81a664b, 0xc24b8b70, 0xc76c51a3, 0xd192e819, 0xd6990624, 0xf40e3585, 0x106aa070,
  0x19a4c116, 0x1e376c08, 0x2748774c, 0x34b0bcb5, 0x391c0cb3, 0x4ed8aa4a, 0x5b9cca4f, 0x682e6ff3,
  0x748f82ee, 0x78a5636f, 0x84c87814, 0x8cc70208, 0x90befffa, 0xa4506ceb, 0xbef9a3f7, 0xc67178f2]

/-- The eight words of the digest under way. -/
structure Words where
  a : UInt32
  b : UInt32
  c : UInt32
  d : UInt32
  e : UInt32
  f : UInt32
  g : UInt32
  h : UInt32

/-- The words before the first block. -/
def initial : Words :=
  ⟨0x6a09e667, 0xbb67ae85, 0x3c6ef372, 0xa54ff53a, 0x510e527f, 0x9b05688c, 0x1f83d9ab,
    0x5be0cd19⟩

/-- A word turned right by a number of bits from 1 to 31. -/
def rotated (x : UInt32) (bits : UInt32) : UInt32 :=
  (x >>> bits) ||| (x <<< (32 - bits))

/-- A number in bytes, highest first. -/
def bigEndian : Nat → Nat → List UInt8
  | 0, _ => []
  | count + 1, n => UInt8.ofNat (n / Nat.pow 256 count) :: bigEndian count n

/-- The message with a one bit, zeros and its length in bits, in whole blocks. -/
def padded (message : List UInt8) : List UInt8 :=
  let zeros := (119 - message.length % 64) % 64
  message ++ 0x80 :: List.replicate zeros 0 ++ bigEndian 8 (8 * message.length)

/-- The words of bytes, four to a word. -/
def wordsOf : List UInt8 → List UInt32
  | a :: b :: c :: d :: rest =>
    ((a.toUInt32 <<< 24) ||| (b.toUInt32 <<< 16) ||| (c.toUInt32 <<< 8) ||| d.toUInt32) ::
      wordsOf rest
  | _ => []

/-- Appends one word to the schedule. -/
def extended (schedule : Array UInt32) : Array UInt32 :=
  let n := schedule.size
  let w15 := schedule.getD (n - 15) 0
  let w2 := schedule.getD (n - 2) 0
  let s0 := rotated w15 7 ^^^ rotated w15 18 ^^^ (w15 >>> 3)
  let s1 := rotated w2 17 ^^^ rotated w2 19 ^^^ (w2 >>> 10)
  schedule.push (schedule.getD (n - 16) 0 + s0 + schedule.getD (n - 7) 0 + s1)

/-- The 64 words that a block puts into the rounds. -/
def schedule (block : List UInt8) : List UInt32 :=
  (Nat.repeat extended 48 (wordsOf block).toArray).toList

/-- One round. -/
def round (w : Words) (input : UInt32) : Words :=
  let s1 := rotated w.e 6 ^^^ rotated w.e 11 ^^^ rotated w.e 25
  let choice := (w.e &&& w.f) ^^^ ((~~~ w.e) &&& w.g)
  let t1 := w.h + s1 + choice + input
  let s0 := rotated w.a 2 ^^^ rotated w.a 13 ^^^ rotated w.a 22
  let majority := (w.a &&& w.b) ^^^ (w.a &&& w.c) ^^^ (w.b &&& w.c)
  ⟨t1 + (s0 + majority), w.a, w.b, w.c, w.d + t1, w.e, w.f, w.g⟩

/-- Works one block in. -/
def compress (w : Words) (block : List UInt8) : Words :=
  let r := (List.zipWith (· + ·) roundConstants (schedule block)).foldl round w
  ⟨w.a + r.a, w.b + r.b, w.c + r.c, w.d + r.d, w.e + r.e, w.f + r.f, w.g + r.g, w.h + r.h⟩

/-- Works a number of blocks in. -/
def compressBlocks : Nat → Words → List UInt8 → Words
  | 0, w, _ => w
  | count + 1, w, bytes => compressBlocks count (compress w (bytes.take 64)) (bytes.drop 64)

/-- The 32 bytes of the digest. -/
def hash (message : List UInt8) : List UInt8 :=
  let bytes := padded message
  let w := compressBlocks (bytes.length / 64) initial bytes
  [w.a, w.b, w.c, w.d, w.e, w.f, w.g, w.h].flatMap fun word => bigEndian 4 word.toNat

end ChangeFeed.Digest.Sha256
