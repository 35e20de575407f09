import EchoLoad.Bytes

/-!
# Base64

The standard alphabet with padding (RFC 4648, section 4). Three bytes become four characters;
`length_encode` counts them.
-/

namespace EchoLoad.Base64

def digit (n : Nat) : Char :=
  if n < 26 then Char.ofNat (0x41 + n)
  else if n < 52 then Char.ofNat (0x61 + (n - 26))
  else if n < 62 then Char.ofNat (0x30 + (n - 52))
  else if n = 62 then '+'
  else '/'

/-- Each three bytes as four characters; the missing characters of the last group are `=`. -/
def encode : Bytes → List Char
  | a :: b :: c :: rest =>
    let n := BigEndian.toNat [a, b, c]
    digit (n / 262144) :: digit (n / 4096 % 64) :: digit (n / 64 % 64) :: digit (n % 64) ::
      encode rest
  | [a, b] =>
    let n := BigEndian.toNat [a, b] * 256
    [digit (n / 262144), digit (n / 4096 % 64), digit (n / 64 % 64), '=']
  | [a] =>
    let n := a.toNat * 65536
    [digit (n / 262144), digit (n / 4096 % 64), '=', '=']
  | [] => []

theorem length_encode (bs : Bytes) : (encode bs).length = 4 * ((bs.length + 2) / 3) := by
  fun_induction encode bs with
  | case1 a b c rest n ih => simp only [List.length_cons, ih]; omega
  | case2 | case3 | case4 => simp

end EchoLoad.Base64
