import ThemeMarkup.Text.Utf8

namespace ThemeMarkup.Digest

structure State where
  a : UInt32
  b : UInt32
  c : UInt32
  d : UInt32

def State.start : State :=
  ⟨0x67452301, 0xEFCDAB89, 0x98BADCFE, 0x10325476⟩

def addends : List UInt32 :=
  [0xd76aa478, 0xe8c7b756, 0x242070db, 0xc1bdceee, 0xf57c0faf, 0x4787c62a, 0xa8304613, 0xfd469501,
   0x698098d8, 0x8b44f7af, 0xffff5bb1, 0x895cd7be, 0x6b901122, 0xfd987193, 0xa679438e, 0x49b40821,
   0xf61e2562, 0xc040b340, 0x265e5a51, 0xe9b6c7aa, 0xd62f105d, 0x02441453, 0xd8a1e681, 0xe7d3fbc8,
   0x21e1cde6, 0xc33707d6, 0xf4d50d87, 0x455a14ed, 0xa9e3e905, 0xfcefa3f8, 0x676f02d9, 0x8d2a4c8a,
   0xfffa3942, 0x8771f681, 0x6d9d6122, 0xfde5380c, 0xa4beea44, 0x4bdecfa9, 0xf6bb4b60, 0xbebfbc70,
   0x289b7ec6, 0xeaa127fa, 0xd4ef3085, 0x04881d05, 0xd9d4d039, 0xe6db99e5, 0x1fa27cf8, 0xc4ac5665,
   0xf4292244, 0x432aff97, 0xab9423a7, 0xfc93a039, 0x655b59c3, 0x8f0ccc92, 0xffeff47d, 0x85845dd1,
   0x6fa87e4f, 0xfe2ce6e0, 0xa3014314, 0x4e0811a1, 0xf7537e82, 0xbd3af235, 0x2ad7d2bb, 0xeb86d391]

/-- The rotations of the four rounds; each round goes through its own four times. -/
def rotations : List UInt32 :=
  [[7, 12, 17, 22], [5, 9, 14, 20], [4, 11, 16, 23], [6, 10, 15, 21]].flatMap fun round =>
    round ++ round ++ round ++ round

/-- The mixing function of a step and the word of the block that it takes in. -/
def mix (step : Nat) (b c d : UInt32) : UInt32 × Nat :=
  if step < 16 then ((b &&& c) ||| (~~~b &&& d), step)
  else if step < 32 then ((d &&& b) ||| (~~~d &&& c), (5 * step + 1) % 16)
  else if step < 48 then (b ^^^ c ^^^ d, (3 * step + 5) % 16)
  else (c ^^^ (b ||| ~~~d), 7 * step % 16)

def rotate (word bits : UInt32) : UInt32 :=
  (word <<< bits) ||| (word >>> (32 - bits))

/-- One step on a block, with the step's number, addend and rotation. -/
def State.step (block : List UInt32) (s : State) : Nat × UInt32 × UInt32 → State
  | (n, addend, rotation) =>
    let (mixed, word) := mix n s.b s.c s.d
    let sum := s.a + mixed + addend + block.getD word 0
    ⟨s.d, s.b + rotate sum rotation, s.b, s.c⟩

def State.absorb (s : State) (block : List UInt32) : State :=
  let t := ((List.range 64).zip (addends.zip rotations)).foldl (State.step block) s
  ⟨s.a + t.a, s.b + t.b, s.c + t.c, s.d + t.d⟩

def littleEndian (n : Nat) : Nat → Octets
  | 0 => []
  | count + 1 => UInt8.ofNat n :: littleEndian (n / 256) count

/-- A message with the mark of its end, zeros and its length in bits. -/
def pad (message : Octets) : Octets :=
  message ++ [0x80] ++ List.replicate ((119 - message.length % 64) % 64) 0 ++
    littleEndian (8 * message.length) 8

def toWords : Octets → List UInt32
  | a :: b :: c :: d :: octets =>
    (a.toUInt32 ||| b.toUInt32 <<< 8 ||| c.toUInt32 <<< 16 ||| d.toUInt32 <<< 24) :: toWords octets
  | _ => []

def toBlocks (words : List UInt32) : List (List UInt32) :=
  if words.length < 16 then []
  else words.take 16 :: toBlocks (words.drop 16)
termination_by words.length
decreasing_by simp only [List.length_drop]; omega

def hexOctet (octet : UInt8) : Text :=
  [Nat.digitChar (octet.toNat / 16), Nat.digitChar (octet.toNat % 16)]

def ofOctets (message : Octets) : Text :=
  let s := (toBlocks (toWords (pad message))).foldl State.absorb .start
  [s.a, s.b, s.c, s.d].flatMap fun word => (littleEndian word.toNat 4).flatMap hexOctet

end ThemeMarkup.Digest
