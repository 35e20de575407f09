/-!
# Fixed decimal places

A double is an integer times a power of two, so its decimal text with a fixed number of places is
found in exact arithmetic. `roundHalfEven_bounds`: rounding moves a quotient by at most one half.
-/

namespace EchoLoad.Decimal

/-- The integer nearest to a quotient; a half goes to the even neighbour. -/
def roundHalfEven (num den : Nat) : Nat :=
  let q := num / den
  let r := num % den
  if 2 * r > den || (2 * r == den && q % 2 == 1) then q + 1 else q

/-- The bit above the 52 bits of a mantissa. -/
def hiddenBit : Nat := 0x10000000000000

/-- A double that is neither negative nor infinite as a fraction. -/
def fraction (x : Float) : Nat × Nat :=
  let bits := x.toBits.toNat
  let mantissa := bits % hiddenBit
  let exponent := bits / hiddenBit % 0x800
  let (m, e) := if exponent = 0 then (mantissa, 1) else (mantissa + hiddenBit, exponent)
  if e ≥ 1075 then (m <<< (e - 1075), 1) else (m, 1 <<< (1075 - e))

def twoPlaces (num den : Nat) : String :=
  let hundredths := roundHalfEven (num * 100) den
  let rest := hundredths % 100
  toString (hundredths / 100) ++ "." ++ (if rest < 10 then "0" else "") ++ toString rest

theorem roundHalfEven_bounds {num den : Nat} (h : 0 < den) :
    2 * num ≤ (2 * roundHalfEven num den + 1) * den ∧
      2 * roundHalfEven num den * den ≤ 2 * num + den := by
  have hdm := Nat.div_add_mod num den
  have hlt := Nat.mod_lt num h
  have h1 : (2 * (num / den) + 1) * den = 2 * (den * (num / den)) + den := by
    rw [Nat.add_mul, Nat.one_mul, Nat.mul_assoc, Nat.mul_comm den]
  have h2 : (2 * (num / den + 1) + 1) * den = 2 * (den * (num / den)) + 3 * den := by
    rw [show 2 * (num / den + 1) + 1 = 2 * (num / den) + 3 from rfl, Nat.add_mul, Nat.mul_assoc,
      Nat.mul_comm den]
  have h3 : 2 * (num / den) * den = 2 * (den * (num / den)) := by
    rw [Nat.mul_assoc, Nat.mul_comm den]
  have h4 : 2 * (num / den + 1) * den = 2 * (den * (num / den)) + 2 * den := by
    rw [show 2 * (num / den + 1) = 2 * (num / den) + 2 from rfl, Nat.add_mul, Nat.mul_assoc,
      Nat.mul_comm den]
  unfold roundHalfEven
  dsimp only
  split
  · next hc =>
    simp only [Bool.or_eq_true, decide_eq_true_eq, Bool.and_eq_true, beq_iff_eq] at hc
    rw [h2, h4]
    omega
  · next hc =>
    simp only [Bool.or_eq_true, decide_eq_true_eq, Bool.and_eq_true, beq_iff_eq, not_or] at hc
    rw [h1, h3]
    omega

end EchoLoad.Decimal
