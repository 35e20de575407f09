import EchoLoad.Text.Utf8

/-!
# Percent encoding

A component of a URL keeps the printable ASCII characters outside its encode set; every other
character stands as the bytes of its UTF-8 form, each a percent sign and two hexadecimal digits.

`mem_percentEncode`: whatever goes in, the characters that come out are printable ASCII, and none of
them belongs to the encode set unless it is the percent sign or a digit of an escape.
-/

namespace EchoLoad.Url

/-- An encode set, of which only the printable ASCII characters matter: the others are always
encoded. -/
abbrev EncodeSet := Char → Bool

namespace EncodeSet

/-- Nothing but what is always encoded. -/
def controls : EncodeSet := fun _ => false

def query : EncodeSet := fun c => "\"#<> ".toList.contains c

/-- Of the query of a special URL. -/
def specialQuery : EncodeSet := fun c => "\"#<> '".toList.contains c

def fragment : EncodeSet := fun c => " \"<>`".toList.contains c

def path : EncodeSet := fun c => " \"<>`#?\x7b\x7d".toList.contains c

def userinfo : EncodeSet := fun c => " \"<>`#?\x7b\x7d/:;=@[\\]^|".toList.contains c

end EncodeSet

/-- The hexadecimal digit of a number below 16, in capitals. -/
def hexDigit (n : Nat) : Char := if n < 10 then Char.ofNat (0x30 + n) else Char.ofNat (0x37 + n)

/-- The value of a hexadecimal digit of either case. -/
def hexValue? (c : Char) : Option Nat :=
  if '0' ≤ c ∧ c ≤ '9' then some (c.toNat - 0x30)
  else if 'a' ≤ c ∧ c ≤ 'f' then some (c.toNat - 0x57)
  else if 'A' ≤ c ∧ c ≤ 'F' then some (c.toNat - 0x37)
  else none

/-- Whether a character stands for itself under an encode set. -/
def isKept (set : EncodeSet) (c : Char) : Bool := ' ' ≤ c && c ≤ '~' && !set c

def escape (b : UInt8) : List Char := ['%', hexDigit (b.toNat / 16), hexDigit (b.toNat % 16)]

def percentEncodeChar (set : EncodeSet) (c : Char) : List Char :=
  if isKept set c then [c] else (String.utf8EncodeChar c).flatMap escape

def percentEncode (set : EncodeSet) (cs : List Char) : List Char :=
  cs.flatMap (percentEncodeChar set)

/-- Undoes the escapes in a byte string; a percent sign without two digits stands for itself. -/
def percentDecode : Bytes → Bytes
  | 0x25 :: hi :: lo :: rest =>
    match hexValue? (Char.ofNat hi.toNat), hexValue? (Char.ofNat lo.toNat) with
    | some h, some l => UInt8.ofNat (h * 16 + l) :: percentDecode rest
    | _, _ => 0x25 :: percentDecode (hi :: lo :: rest)
  | b :: rest => b :: percentDecode rest
  | [] => []

theorem hexDigit_cases : ∀ n < 16, hexDigit n ∈ "0123456789ABCDEF".toList := by decide

theorem mem_escape {b : UInt8} {c : Char} (h : c ∈ escape b) :
    c = '%' ∨ c ∈ "0123456789ABCDEF".toList := by
  have hb := b.toNat_lt
  simp only [escape, List.mem_cons, List.not_mem_nil, or_false] at h
  rcases h with h | h | h
  · exact .inl h
  · exact .inr (h ▸ hexDigit_cases _ (by omega))
  · exact .inr (h ▸ hexDigit_cases _ (by omega))

theorem mem_percentEncode {set : EncodeSet} {cs : List Char} {c : Char}
    (h : c ∈ percentEncode set cs) :
    isKept set c = true ∨ c = '%' ∨ c ∈ "0123456789ABCDEF".toList := by
  obtain ⟨d, -, hd⟩ := List.mem_flatMap.1 h
  unfold percentEncodeChar at hd
  split at hd
  · next hk =>
    cases List.mem_singleton.1 hd
    exact .inl hk
  · obtain ⟨b, -, hb⟩ := List.mem_flatMap.1 hd
    exact .inr (mem_escape hb)

end EchoLoad.Url
