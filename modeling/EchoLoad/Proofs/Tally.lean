import EchoLoad.Tally
import Mathlib

/-!
# Totals as sums

`total_addAll_of_zero`: the total of reports that are added to an empty tally is their sum, cut off
at the largest total. The reports are counted (`reports_addAll`), and the target stays.
-/

namespace EchoLoad.Tally

@[simp] theorem target_addAll (t : Tally) (reports : List Nat) :
    (t.addAll reports).target = t.target := by
  induction reports generalizing t with
  | nil => rfl
  | cons n reports ih => exact ih (t.add n)

theorem reports_addAll (t : Tally) (reports : List Nat) :
    (t.addAll reports).reports = t.reports + reports.length := by
  induction reports generalizing t with
  | nil => rfl
  | cons n reports ih =>
    rw [List.length_cons, ← Nat.add_assoc, Nat.add_right_comm]
    exact ih (t.add n)

theorem addAll_append (t : Tally) (front back : List Nat) :
    t.addAll (front ++ back) = (t.addAll front).addAll back := List.foldl_append

theorem total_addAll_of_zero {t : Tally} (h : t.total = 0) (reports : List Nat) :
    (t.addAll reports).total = min reports.sum maxTotal := by
  have hle : t.total ≤ maxTotal := by
    rw [h]
    exact Nat.zero_le _
  rw [total_addAll hle, h, ← List.sum_eq_foldl]

/-- Whether the target is exceeded is a question about the sum alone. -/
theorem exceeded_addAll_iff {t : Tally} (h : t.total = 0) (reports : List Nat) :
    (t.addAll reports).exceeded = true ↔ t.target < min reports.sum maxTotal := by
  rw [exceeded, decide_eq_true_iff, total_addAll_of_zero h, target_addAll]

end EchoLoad.Tally
