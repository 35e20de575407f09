import EchoLoad.Url.Ipv4

/-!
# IPv6 addresses in URLs

Eight groups of up to four hexadecimal digits; one `::` stands for any number of zero groups, and
the last two groups may be four decimal numbers. The address is the list of its eight groups.
-/

namespace EchoLoad.Url.Ipv6

/-- A decimal number up to 255 without leading zeros. -/
def byte? (cs : List Char) : Option Nat :=
  if cs.isEmpty || (cs.length > 1 && cs.head? == some '0') then none
  else (numberIn? 10 cs).filter (· ≤ 255)

/-- The two groups that four decimal numbers with dots between make. -/
def dottedGroups? (cs : List Char) : Option (List Nat) :=
  match (Text.splitOn (· == '.') cs).mapM byte? with
  | some [a, b, c, d] => some [a * 256 + b, c * 256 + d]
  | _ => none

/-- The groups read so far, and how many of them stand before the zeros left out by `::`. -/
structure Groups where
  list : List Nat
  gap : Option Nat

/-- Reads groups to the end of the text. A `::` counts as a first zero group. -/
def groups? (read : Groups) (cs : List Char) : Option Groups :=
  match cs with
  | [] => some read
  | ':' :: rest =>
    if read.list.length = 8 then none
    else if read.gap.isSome then none
    else groups? ⟨read.list ++ [0], some (read.list.length + 1)⟩ rest
  | c :: rest =>
    if read.list.length = 8 then none
    else
      let digits := ((c :: rest).take 4).takeWhile fun d => (digitValue? 16 d).isSome
      match _hd : (c :: rest).drop digits.length, numberIn? 16 digits with
      | [], some n => some ⟨read.list ++ [n], read.gap⟩
      | '.' :: _, some _ =>
        if digits.isEmpty || read.list.length > 6 then none
        else (dottedGroups? (c :: rest)).map fun gs => ⟨read.list ++ gs, read.gap⟩
      | ':' :: more, some n =>
        if more.isEmpty then none else groups? ⟨read.list ++ [n], read.gap⟩ more
      | _, _ => none
termination_by cs.length
decreasing_by
  · simp
  · have := congrArg List.length _hd
    simp only [List.length_drop, List.length_cons] at this ⊢
    omega

def parse? (cs : List Char) : Option (List Nat) :=
  let read := match cs with
    | ':' :: ':' :: rest => groups? ⟨[0], some 1⟩ rest
    | ':' :: _ | [] | [_] => none
    | _ => groups? ⟨[], none⟩ cs
  read.bind fun g => match g.gap with
    | some k => some (g.list.take k ++ List.replicate (8 - g.list.length) 0 ++ g.list.drop k)
    | none => if g.list.length = 8 then some g.list else none

/-- How many zeros a list begins with. -/
def zeros (groups : List Nat) : Nat := (groups.takeWhile (· == 0)).length

/-- Position and length of the first longest run of zero groups. -/
def longestZeros (groups : List Nat) : Nat × Nat :=
  (List.range groups.length).foldl
    (fun best i => if zeros (groups.drop i) > best.2 then (i, zeros (groups.drop i)) else best)
    (0, 0)

def joined (groups : List Nat) : String :=
  ":".intercalate (groups.map fun g => String.ofList (Nat.toDigits 16 g))

/-- The shortest text: the first longest run of at least two zero groups becomes `::`. -/
def text (groups : List Nat) : String :=
  let (start, length) := longestZeros groups
  if length < 2 then joined groups
  else joined (groups.take start) ++ "::" ++ joined (groups.drop (start + length))

end EchoLoad.Url.Ipv6
