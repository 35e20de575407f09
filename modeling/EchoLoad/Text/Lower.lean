/-!
# Lower case

Names are compared with ASCII words after lower-casing. Beside the capitals of ASCII only two
characters have ASCII characters in their lower-case form: the Kelvin sign, which becomes `k`, and
the dotted capital I, which becomes `i` with a dot above. `lower` therefore shows every ASCII
character of the lower-case form at its place and leaves the other characters alone.
-/

namespace EchoLoad.Text

/-- The lower-case form of one character, as far as it holds ASCII characters. -/
def lowerChar (c : Char) : List Char :=
  if c = Char.ofNat 0x212A then ['k']
  else if c = Char.ofNat 0x130 then ['i', Char.ofNat 0x307]
  else [c.toLower]

def lower (cs : List Char) : List Char := cs.flatMap lowerChar

/-- Equality up to the case of ASCII letters; other characters must be the same. -/
def eqIgnoreCase (xs ys : List Char) : Bool := xs.map Char.toLower == ys.map Char.toLower

end EchoLoad.Text
