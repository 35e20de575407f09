import EchoLoad.Bytes
import EchoLoad.Text.Split

/-!
# IPv4 addresses in URLs

A host whose last label is a number is an address of one to four numbers, decimal, octal after `0`
or hexadecimal after `0x`. The last number fills all the bytes that the others leave.
-/

namespace EchoLoad.Url

/-- The digits of a base, from the text of a number. -/
def digitValue? (base : Nat) (c : Char) : Option Nat :=
  let v :=
    if '0' ≤ c ∧ c ≤ '9' then c.toNat - 0x30
    else if 'a' ≤ c ∧ c ≤ 'f' then c.toNat - 0x57
    else if 'A' ≤ c ∧ c ≤ 'F' then c.toNat - 0x37
    else base
  if v < base then some v else none

/-- The number written by `cs` in a base; the empty text writes zero. -/
def numberIn? (base : Nat) (cs : List Char) : Option Nat :=
  cs.foldl (fun n c => n.bind fun n => (digitValue? base c).map fun d => n * base + d) (some 0)

namespace Ipv4

def number? : List Char → Option Nat
  | [] => none
  | '0' :: 'x' :: digits | '0' :: 'X' :: digits => numberIn? 16 digits
  | '0' :: d :: digits => numberIn? 8 (d :: digits)
  | digits => numberIn? 10 digits

/-- The labels of a host, without the empty one after a final dot. -/
def labels (host : List Char) : List (List Char) :=
  let parts := Text.splitOn (· == '.') host
  if parts.getLast? = some [] then parts.dropLast else parts

/-- Whether a host has to be read as an address: its last label is a number, or at least looks like
a decimal one. -/
def endsInNumber (host : List Char) : Bool :=
  match (labels host).getLast? with
  | none => false
  | some label =>
    (!label.isEmpty && label.all fun c => '0' ≤ c && c ≤ '9') || (number? label).isSome

/-- The address that a host names, as a number below 2^32. -/
def parse? (host : List Char) : Option Nat :=
  let parts := labels host
  if parts.length > 4 then none
  else match (parts.mapM number?).map List.reverse with
    | none | some [] => none
    | some (last :: others) =>
      if last ≥ BigEndian.limit (4 - others.length) then none
      else if others.any (· > 255) then none
      else some <|
        others.reverse.zipIdx.foldl (fun n (byte, i) => n + byte * BigEndian.limit (3 - i)) last

def text (address : Nat) : String :=
  ".".intercalate ((BigEndian.ofNat 4 address).map fun b => toString b.toNat)

end Ipv4

end EchoLoad.Url
