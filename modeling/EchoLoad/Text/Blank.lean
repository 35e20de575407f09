/-!
# Blanks

The characters with the Unicode property White_Space, and what is defined by them: `trim` and
`words`.
-/

namespace EchoLoad.Text

/-- The property White_Space: tab to carriage return, space, next line, no-break space, ogham space,
the spaces of U+2000 to U+200A, the two separators, and three single spaces. -/
def isBlank (c : Char) : Bool :=
  let n := c.toNat
  (0x09 ≤ n && n ≤ 0x0D) || n == 0x20 || n == 0x85 || n == 0xA0 || n == 0x1680 ||
    (0x2000 ≤ n && n ≤ 0x200A) || n == 0x2028 || n == 0x2029 || n == 0x202F || n == 0x205F ||
    n == 0x3000

def trim (cs : List Char) : List Char :=
  ((cs.dropWhile isBlank).reverse.dropWhile isBlank).reverse

/-- The pieces between blanks that hold a character. -/
def words : List Char → List (List Char)
  | [] => []
  | c :: cs =>
    if isBlank c then words cs
    else match cs, words cs with
      | d :: _, word :: rest => if isBlank d then [c] :: word :: rest else (c :: word) :: rest
      | _, rest => [c] :: rest

end EchoLoad.Text
