/-!
# SHA-256

The digest of FIPS 180-4 over a list of bytes. A block of sixteen words is consumed in
sixty-four rounds; the message schedule is a window of sixteen words that slides by one word
a round, so every index stays inside its vector.

The main facts are `padded_length` (padding fills whole blocks of sixty-four bytes) and
`paddingZeros_lt` (it never adds a block of zeros).
-/

namespace TieredQuery.Sha256

/-- Rotates a word to the right. -/
def rotate (x n : UInt32) : UInt32 := (x >>> n) ||| (x <<< (32 - n))

/-- The function that mixes the first working word, `Σ₀`. -/
def mixFirst (x : UInt32) : UInt32 := rotate x 2 ^^^ rotate x 13 ^^^ rotate x 22

/-- The function that mixes the fifth working word, `Σ₁`. -/
def mixFifth (x : UInt32) : UInt32 := rotate x 6 ^^^ rotate x 11 ^^^ rotate x 25

/-- The schedule function of the word fifteen places back, `σ₀`. -/
def spreadFar (x : UInt32) : UInt32 := rotate x 7 ^^^ rotate x 18 ^^^ (x >>> 3)

/-- The schedule function of the word two places back, `σ₁`. -/
def spreadNear (x : UInt32) : UInt32 := rotate x 17 ^^^ rotate x 19 ^^^ (x >>> 10)

/-- One constant a round: the first thirty-two bits of the fractional parts of the cube roots
    of the first sixty-four primes. -/
def roundConstants : List UInt32 := [
  0x428a2f98, 0x71374491, 0xb5c0fbcf, 0xe9b5dba5, 0x3956c25b, 0x59f111f1, 0x923f82a4, 0xab1c5ed5,
  0xd807aa98, 0x12835b01, 0x243185be, 0x550c7dc3, 0x72be5d74, 0x80deb1fe, 0x9bdc06a7, 0xc19bf174,
  0xe49b69c1, 0xefbe4786, 0x0fc19dc6, 0x240ca1cc, 0x2de92c6f, 0x4a7484aa, 0x5cb0a9dc, 0x76f988da,
  0x983e5152, 0xa831c66d, 0xb00327c8, 0xbf597fc7, 0xc6e00bf3, 0xd5a79147, 0x06ca6351, 0x14292967,
  0x27b70a85, 0x2e1b2138, 0x4d2c6dfc, 0x53380d13, 0x650a7354, 0x766a0abb, 0x81c2c92e, 0x92722c85,
  0xa2bfe8a1, 0xa81a664b, 0xc24b8b70, 0xc76c51a3, 0xd192e819, 0xd6990624, 0xf40e3585, 0x106aa070,
  0x19a4c116, 0x1e376c08, 0x2748774c, 0x34b0bcb5, 0x391c0cb3, 0x4ed8aa4a, 0x5b9cca4f, 0x682e6ff3,
  0x748f82ee, 0x78a5636f, 0x84c87814, 0x8cc70208, 0x90befffa, 0xa4506ceb, 0xbef9a3f7, 0xc67178f2]

/-- The eight words carried from block to block, and through the rounds of one block. -/
structure State where
  a : UInt32
  b : UInt32
  c : UInt32
  d : UInt32
  e : UInt32
  f : UInt32
  g : UInt32
  h : UInt32
deriving DecidableEq

/-- The first thirty-two bits of the fractional parts of the square roots of the first eight
    primes. -/
def State.initial : State :=
  ⟨0x6a09e667, 0xbb67ae85, 0x3c6ef372, 0xa54ff53a, 0x510e527f, 0x9b05688c, 0x1f83d9ab, 0x5be0cd19⟩

/-- One round, given the sum of its constant and its schedule word. -/
def State.round (s : State) (word : UInt32) : State :=
  -- a bit of `f` where `e` has one, and a bit of `g` elsewhere
  let choice := (s.e &&& s.f) ^^^ (~~~s.e &&& s.g)
  -- the bit that at least two of the three words have
  let majority := (s.a &&& s.b) ^^^ (s.a &&& s.c) ^^^ (s.b &&& s.c)
  let t := s.h + mixFifth s.e + choice + word
  ⟨t + mixFirst s.a + majority, s.a, s.b, s.c, s.d + t, s.e, s.f, s.g⟩

/-- Adds two states word by word. -/
def State.add (s t : State) : State :=
  ⟨s.a + t.a, s.b + t.b, s.c + t.c, s.d + t.d, s.e + t.e, s.f + t.f, s.g + t.g, s.h + t.h⟩

/-- The words of a state in order. -/
def State.words (s : State) : Vector UInt32 8 := #v[s.a, s.b, s.c, s.d, s.e, s.f, s.g, s.h]

/-- The sixteen schedule words from the current round on. -/
abbrev Window := Vector UInt32 16

/-- Drops the current word and appends the one sixteen rounds later. -/
def Window.slide (w : Window) : Window :=
  w.tail.push (spreadNear w[14] + w[9] + spreadFar w[1] + w[0])

/-- Consumes one block. -/
def State.absorb (s : State) (block : Window) : State :=
  -- each word of the block is in front of the window in its own round
  let (t, _) :=
    roundConstants.foldl (fun (t, w) k => (t.round (k + w[0]), Window.slide w)) (s, block)
  s.add t

/-- Reads big-endian words; at most three bytes at the end are left out. -/
def words : List UInt8 → List UInt32
  | a :: b :: c :: d :: rest =>
    ((a.toUInt32 <<< 24) ||| (b.toUInt32 <<< 16) ||| (c.toUInt32 <<< 8) ||| d.toUInt32) ::
      words rest
  | _ => []

/-- Consumes a number of blocks of sixteen words. -/
def State.absorbAll (s : State) : Nat → List UInt32 → State
  | 0, _ => s
  | n + 1, ws => (s.absorb (Vector.ofFn fun i => ws.getD i 0)).absorbAll n (ws.drop 16)

/-- The number of zero bytes between the delimiter and the length. -/
def paddingZeros (length : Nat) : Nat := (119 - length % 64) % 64

/-- The eight bytes of a number, most significant first. -/
def bigEndian (n : Nat) : List UInt8 :=
  (List.range 8).map fun i => UInt8.ofNat (n >>> (8 * (7 - i)))

/-- The message, a one bit, zeros, and the message's length in bits. -/
def padded (message : List UInt8) : List UInt8 :=
  message ++
    0x80 :: (List.replicate (paddingZeros message.length) 0 ++ bigEndian (8 * message.length))

/-- The digest of a message. -/
def digest (message : List UInt8) : Vector UInt8 32 :=
  let bytes := padded message
  let final := State.initial.absorbAll (bytes.length / 64) (words bytes)
  Vector.ofFn fun i => (final.words[i.val / 4] >>> UInt32.ofNat (8 * (3 - i.val % 4))).toUInt8

/-- Padding adds no block of zeros. -/
theorem paddingZeros_lt (length : Nat) : paddingZeros length < 64 := Nat.mod_lt _ (by decide)

/-- The length of a message is written in eight bytes. -/
theorem bigEndian_length (n : Nat) : (bigEndian n).length = 8 := by simp [bigEndian]

/-- A padded message fills whole blocks. -/
theorem padded_length (message : List UInt8) : (padded message).length % 64 = 0 := by
  simp only [padded, List.length_append, List.length_cons, List.length_replicate, bigEndian_length,
    paddingZeros]
  omega

end TieredQuery.Sha256
