import EchoLoad.Bytes

/-!
# SHA-1

The 20-byte digest of FIPS 180-4. A message is padded to whole blocks of 64 bytes; every block is
stretched to 80 words and stirred into five chaining words.
-/

namespace EchoLoad.Sha1

structure State where
  a : UInt32
  b : UInt32
  c : UInt32
  d : UInt32
  e : UInt32
  deriving DecidableEq, Repr

def initial : State :=
  ⟨0x67452301, 0xEFCDAB89, 0x98BADCFE, 0x10325476, 0xC3D2E1F0⟩

def rotateLeft (w : UInt32) (n : UInt32) : UInt32 := (w <<< n) ||| (w >>> (32 - n))

/-- The message, a one bit, zeros, and the length in bits in the last eight bytes of a block. -/
def pad (message : Bytes) : Bytes :=
  let zeros := (119 - message.length % 64) % 64
  message ++ 0x80 :: List.replicate zeros 0 ++ BigEndian.ofNat 8 (8 * message.length)

def toWords : Bytes → List UInt32
  | a :: b :: c :: d :: rest => UInt32.ofNat (BigEndian.toNat [a, b, c, d]) :: toWords rest
  | _ => []

/-- Adds `n` words to a block, newest first: each combines the words 3, 8, 14 and 16 places back. -/
def stretch : Nat → List UInt32 → List UInt32
  | 0, ws => ws
  | n + 1, ws =>
    let w := ws.getD 2 0 ^^^ ws.getD 7 0 ^^^ ws.getD 13 0 ^^^ ws.getD 15 0
    stretch n (rotateLeft w 1 :: ws)

/-- The 80 words of a block, oldest first. -/
def schedule (block : Bytes) : List UInt32 := (stretch 64 (toWords block).reverse).reverse

/-- The function and the constant of round `t`. -/
def mixer (t : Nat) (b c d : UInt32) : UInt32 × UInt32 :=
  if t < 20 then ((b &&& c) ||| (~~~b &&& d), 0x5A827999)
  else if t < 40 then (b ^^^ c ^^^ d, 0x6ED9EBA1)
  else if t < 60 then ((b &&& c) ||| (b &&& d) ||| (c &&& d), 0x8F1BBCDC)
  else (b ^^^ c ^^^ d, 0xCA62C1D6)

def round (s : State) (t : Nat) (w : UInt32) : State :=
  let (f, k) := mixer t s.b s.c s.d
  { a := rotateLeft s.a 5 + f + s.e + k + w
    b := s.a
    c := rotateLeft s.b 30
    d := s.c
    e := s.d }

def compress (s : State) (block : Bytes) : State :=
  let t := (schedule block).zipIdx.foldl (fun s (w, i) => round s i w) s
  ⟨s.a + t.a, s.b + t.b, s.c + t.c, s.d + t.d, s.e + t.e⟩

/-- Stirs in the blocks of a padded message one after the other. -/
def absorb (s : State) (bytes : Bytes) : State :=
  match _h : bytes.drop 63 with
  | [] => s
  | _ :: rest => absorb (compress s (bytes.take 64)) rest
termination_by bytes.length
decreasing_by
  have := congrArg List.length _h
  simp only [List.length_drop, List.length_cons] at this
  omega

def State.toBytes (s : State) : Bytes :=
  [s.a, s.b, s.c, s.d, s.e].flatMap fun w => BigEndian.ofNat 4 w.toNat

def digest (message : Bytes) : Bytes := (absorb initial (pad message)).toBytes

@[simp] theorem length_digest (message : Bytes) : (digest message).length = 20 := by
  simp [digest, State.toBytes]

end EchoLoad.Sha1
