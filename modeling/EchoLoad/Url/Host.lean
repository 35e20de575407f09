import EchoLoad.Url.Basic
import EchoLoad.Url.Ipv6
import EchoLoad.Url.Percent

/-!
# Hosts

The host of a special URL is a domain in lower case or an address; the host of any other URL is
kept as it stands, with its non-ASCII characters escaped. International domain names are left out: a
domain with other than ASCII characters is refused, and labels in Punycode are not looked into.
-/

namespace EchoLoad.Url

/-- Why a text is no URL. -/
inductive ParseError where
  | relativeWithoutBase
  | emptyHost
  | invalidDomain
  | invalidDomainCharacter
  | invalidIpv4
  | invalidIpv6
  | invalidPort
  deriving DecidableEq, Repr

def ParseError.text : ParseError → String
  | relativeWithoutBase => "relative URL without a base"
  | emptyHost => "empty host"
  | invalidDomain => "invalid international domain name"
  | invalidDomainCharacter => "invalid domain character"
  | invalidIpv4 => "invalid IPv4 address"
  | invalidIpv6 => "invalid IPv6 address"
  | invalidPort => "invalid port number"

namespace Host

def text : Host → String
  | domain name => name
  | ipv4 address => Ipv4.text address
  | ipv6 groups => "[" ++ Ipv6.text groups ++ "]"

def isForbidden (c : Char) : Bool :=
  "\x00\t\n\r #/:<>?@[\\]^|".toList.contains c

def isForbiddenInDomain (c : Char) : Bool :=
  isForbidden c || c < ' ' || c == '%' || '\x7f' ≤ c

/-- An address between brackets. -/
def parseBracketed (cs : List Char) : Except ParseError Host :=
  if cs.getLast? != some ']' then .error .invalidIpv6
  else match Ipv6.parse? (cs.drop 1).dropLast with
    | none => .error .invalidIpv6
    | some groups => .ok (.ipv6 groups)

/-- The host of a special URL. -/
def parseSpecial (cs : List Char) : Except ParseError Host :=
  if cs.head? == some '[' then parseBracketed cs
  else
    let name := (percentDecode (Utf8.encode cs)).map fun b => (Char.ofNat b.toNat).toLower
    if name.any isForbiddenInDomain then .error .invalidDomain
    else if name.isEmpty then .error .emptyHost
    else if Ipv4.endsInNumber name then
      match Ipv4.parse? name with
      | none => .error .invalidIpv4
      | some address => .ok (.ipv4 address)
    else .ok (.domain (String.ofList name))

/-- The host of any other URL; there is none if the text is empty. -/
def parseGeneral (cs : List Char) : Except ParseError (Option Host) :=
  if cs.head? == some '[' then (parseBracketed cs).map some
  else if cs.any isForbidden then .error .invalidDomainCharacter
  else if cs.isEmpty then .ok none
  else .ok (some (.domain (String.ofList (percentEncode EncodeSet.controls cs))))

end Host

end EchoLoad.Url
