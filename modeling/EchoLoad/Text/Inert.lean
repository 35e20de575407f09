import EchoLoad.Text.Quoted

/-!
# Inert text

Text that is shown on a terminal and does not drive it: the control characters that can begin or end
an escape sequence are written out. Tabs and line ends stay.
-/

namespace EchoLoad.Text

/-- Bell, backspace, form feed, escape, delete, and the control characters from U+0080 to
U+009F. -/
def isLive (c : Char) : Bool :=
  c == '\x07' || c == '\x08' || c == '\x0c' || c == '\x1b' || (0x7F ≤ c.toNat && c.toNat ≤ 0x9F)

/-- The written form of such a character: two digits in ASCII, else its number. -/
def defused (c : Char) : List Char :=
  if c = '\x07' then "\\x07".toList
  else if c = '\x08' then "\\x08".toList
  else if c = '\x0c' then "\\x0c".toList
  else if c = '\x1b' then "\\x1b".toList
  else if c = '\x7f' then "\\x7f".toList
  else (numbered c).toList

def inertChars (cs : List Char) : List Char :=
  cs.flatMap fun c => if isLive c then defused c else [c]

def inert (s : String) : String := String.ofList (inertChars s.toList)

end EchoLoad.Text
