import EchoLoad.Bytes

/-!
# Reading damaged UTF-8

`decodeWithReplacement` reads any bytes as text. What cannot begin or continue a character becomes
U+FFFD: one for each longest piece that begins like a character.
-/

namespace EchoLoad.Utf8

/-- The bounds of the second byte and the number of further bytes, by the first byte. -/
def lead? (b : Nat) : Option (Nat × Nat × Nat) :=
  if 0xC2 ≤ b ∧ b ≤ 0xDF then some (0x80, 0xBF, 0)
  else if b = 0xE0 then some (0xA0, 0xBF, 1)
  else if b = 0xED then some (0x80, 0x9F, 1)
  else if 0xE1 ≤ b ∧ b ≤ 0xEF then some (0x80, 0xBF, 1)
  else if b = 0xF0 then some (0x90, 0xBF, 2)
  else if 0xF1 ≤ b ∧ b ≤ 0xF3 then some (0x80, 0xBF, 2)
  else if b = 0xF4 then some (0x80, 0x8F, 2)
  else none

def isContinuation (b : UInt8) : Bool := b.toNat / 64 == 2

/-- The longest piece that continues a character whose second byte has these bounds. -/
def continuation (low high further : Nat) : Bytes → Bytes
  | [] => []
  | b :: rest =>
    if low ≤ b.toNat ∧ b.toNat ≤ high then b :: (rest.take further).takeWhile isContinuation
    else []

/-- The character of a first byte and its complete continuation. -/
def assembled (b : Nat) (tail : Bytes) : Char :=
  let start := if tail.length = 1 then b % 32 else if tail.length = 2 then b % 16 else b % 8
  Char.ofNat (tail.foldl (fun n c => n * 64 + c.toNat % 64) start)

def decodeWithReplacement (bytes : Bytes) : List Char :=
  match bytes with
  | [] => []
  | b :: rest =>
    if b < 0x80 then Char.ofNat b.toNat :: decodeWithReplacement rest
    else match lead? b.toNat with
      | none => Char.ofNat 0xFFFD :: decodeWithReplacement rest
      | some (low, high, further) =>
        let tail := continuation low high further rest
        let c := if tail.length = further + 1 then assembled b.toNat tail else Char.ofNat 0xFFFD
        c :: decodeWithReplacement (rest.drop tail.length)
termination_by bytes.length
decreasing_by
  · simp
  · simp
  · simp only [List.length_drop, List.length_cons]
    omega

end EchoLoad.Utf8
