/-!
# Amounts

How many round trips a session makes and how large a message is: always the same number, or a
number drawn evenly from a half-open range. A draw takes an arbitrary number from the source of
randomness; `draw_mem` and `draw_le_largest` bound it.
-/

namespace EchoLoad

inductive Amount where
  | fixed (n : Nat)
  /-- At least `min` and below `max`. -/
  | uniform (min max : Nat)
  deriving DecidableEq, Repr

namespace Amount

/-- The amount that a random number selects; an empty range gives its lower bound. -/
def draw (random : Nat) : Amount → Nat
  | fixed n => n
  | uniform min max => if min < max then min + random % (max - min) else min

/-- The largest amount that can be drawn from a range that is not empty. -/
def largest : Amount → Nat
  | fixed n => n
  | uniform _ max => max - 1

def fixed? : Amount → Option Nat
  | fixed n => some n
  | uniform _ _ => none

def isEmpty : Amount → Bool
  | fixed _ => false
  | uniform min max => max ≤ min

def text : Amount → String
  | fixed n => s!"Fixed({n})"
  | uniform min max => "Uniform \x7b min: " ++ toString min ++ ", max: " ++ toString max ++ " \x7d"

theorem draw_mem {min max : Nat} (h : min < max) (random : Nat) :
    min ≤ (uniform min max).draw random ∧ (uniform min max).draw random < max := by
  have := Nat.mod_lt random (Nat.sub_pos_of_lt h)
  simp only [draw, h, if_true]
  omega

theorem draw_le_largest {a : Amount} (h : a.isEmpty = false) (random : Nat) :
    a.draw random ≤ a.largest := by
  cases a with
  | fixed n => exact Nat.le_refl n
  | uniform min max =>
    have hlt : min < max := by simpa [isEmpty] using h
    have := draw_mem hlt random
    simp only [largest]
    omega

end Amount

end EchoLoad
