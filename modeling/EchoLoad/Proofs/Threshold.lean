import EchoLoad.Proofs.Tally
import EchoLoad.Summary

/-!
# Where the target is crossed

An aggregator adds reports until its total exceeds the target (`Tally.aggregate`). Its total is cut
off at the largest one, and still it decides as the exact sum would: it stops at the first report
that takes the sum above the target (`aggregate_exact`). Only a target that no total can exceed is
never crossed.

In which order the reports come decides how many of them are added and what the total is in the end,
but not whether the target is crossed (`aggregate_any_order`).
-/

namespace EchoLoad.Tally

variable {t : Tally} {front reports : List Nat} {last : Nat}

/-- What is known of a run after so many reports. -/
theorem addAll_start (target : Nat) (messageSize : Option Nat) (reports : List Nat) :
    Tally.addAll { target, messageSize } reports =
      { target, messageSize, total := min reports.sum maxTotal, reports := reports.length } := by
  induction reports using List.reverseRecOn with
  | nil => rfl
  | append_singleton front n ih =>
    have htwice : min (min front.sum maxTotal + n) maxTotal = min (front.sum + n) maxTotal := by
      omega
    rw [addAll_append, ih, List.sum_append, List.sum_singleton, List.length_append, ← htwice]
    rfl

theorem not_exceeded_addAll_iff (h : t.total = 0) (reports : List Nat) :
    (t.addAll reports).exceeded = false ↔ maxTotal ≤ t.target ∨ reports.sum ≤ t.target := by
  rw [← Bool.not_eq_true, exceeded_addAll_iff h]
  omega

/-- Reports that leave the sum within the target are added, and the others are read after them. The
induction is on the last of them, as every front of theirs is within the target as well. -/
theorem aggregate_append (h : t.total = 0) (hfront : maxTotal ≤ t.target ∨ front.sum ≤ t.target)
    (rest : List Nat) : t.aggregate (front ++ rest) = (t.addAll front).aggregate rest := by
  induction front using List.reverseRecOn generalizing rest with
  | nil => rfl
  | append_singleton front n ih =>
    have hnext := (not_exceeded_addAll_iff h (front ++ [n])).mpr hfront
    rw [List.sum_append] at hfront
    rw [List.append_assoc, ih (by omega), List.singleton_append, aggregate]
    rw [addAll_append] at hnext ⊢
    exact if_neg (Bool.eq_false_iff.mp hnext)

theorem aggregate_of_within (h : t.total = 0)
    (hreports : maxTotal ≤ t.target ∨ reports.sum ≤ t.target) :
    t.aggregate reports = .closed (t.addAll reports) := by
  have happend := aggregate_append h hreports []
  rwa [List.append_nil] at happend

/-- The report that takes the sum above the target is the last one to be added. -/
theorem aggregate_of_crossing (h : t.total = 0) (htarget : t.target < maxTotal)
    (hfront : front.sum ≤ t.target) (hlast : t.target < (front ++ [last]).sum)
    (unread : List Nat) :
    t.aggregate (front ++ last :: unread) = .stopped (t.addAll (front ++ [last])) unread := by
  have hexceeded : (t.addAll (front ++ [last])).exceeded = true := by
    rw [exceeded_addAll_iff h]
    omega
  rw [aggregate_append h (.inr hfront), aggregate]
  rw [addAll_append] at hexceeded ⊢
  exact if_pos hexceeded

/-- If all reports together are above the target, then one of them crosses it. -/
theorem exists_crossing {target : Nat} (h : target < reports.sum) :
    ∃ front last unread, reports = front ++ last :: unread ∧ front.sum ≤ target ∧
      target < (front ++ [last]).sum := by
  induction reports using List.reverseRecOn with
  | nil => cases h
  | append_singleton reports n ih =>
    by_cases hbefore : target < reports.sum
    · obtain ⟨front, last, unread, rfl, hcrossing⟩ := ih hbefore
      exact ⟨front, last, unread ++ [n], List.append_assoc _ _ _, hcrossing⟩
    · exact ⟨reports, n, [], rfl, Nat.le_of_not_lt hbefore, h⟩

/-- Either the reports end within the target, or one of them crosses it. -/
theorem aggregate_cases (h : t.total = 0) (reports : List Nat) :
    ((maxTotal ≤ t.target ∨ reports.sum ≤ t.target) ∧
      t.aggregate reports = .closed (t.addAll reports)) ∨
    (t.target < maxTotal ∧ ∃ front last unread, reports = front ++ last :: unread ∧
      front.sum ≤ t.target ∧ t.target < (front ++ [last]).sum ∧
      t.aggregate reports = .stopped (t.addAll (front ++ [last])) unread) := by
  by_cases hwithin : maxTotal ≤ t.target ∨ reports.sum ≤ t.target
  · exact .inl ⟨hwithin, aggregate_of_within h hwithin⟩
  · have htarget : t.target < maxTotal := by omega
    have habove : t.target < reports.sum := by omega
    obtain ⟨front, last, unread, rfl, hfront, hlast⟩ := exists_crossing habove
    exact .inr ⟨htarget, front, last, unread, rfl, hfront, hlast,
      aggregate_of_crossing h htarget hfront hlast unread⟩

/-- The aggregator stops at the first report after which the exact sum exceeds the target, and leaves
the later ones unread; the total that it tells is this sum, cut off at the largest total. If there is
no such report, or if the target is the largest total, it has added all reports at the end. On the
way the total never becomes smaller. -/
theorem aggregate_exact (target : Nat) (messageSize : Option Nat) (reports : List Nat)
    (elapsed : Elapsed) :
    let start : Tally := { target, messageSize }
    (∀ tally unread, start.aggregate reports = .stopped tally unread ↔
      target < maxTotal ∧ ∃ front last, reports = front ++ last :: unread ∧
        front.sum ≤ target ∧ target < (front ++ [last]).sum ∧
        tally = { start with
          total := min (front ++ [last]).sum maxTotal, reports := front.length + 1 } ∧
        (Summary.ofTally tally elapsed).completed = min (front ++ [last]).sum maxTotal) ∧
    (∀ tally, start.aggregate reports = .closed tally ↔
      (maxTotal ≤ target ∨ reports.sum ≤ target) ∧
        tally = { start with total := min reports.sum maxTotal, reports := reports.length }) ∧
    ∀ front rest, reports = front ++ rest → maxTotal ≤ target ∨ front.sum ≤ target →
      start.aggregate reports = (start.addAll front).aggregate rest ∧
        ∀ next, (start.addAll front).total ≤ ((start.addAll front).add next).total := by
  intro start
  have hcases := aggregate_cases (t := start) rfl reports
  have htally := addAll_start target messageSize
  have hlength : ∀ (front : List Nat) (last : Nat), (front ++ [last]).length = front.length + 1 :=
    fun front last => List.length_append
  refine ⟨fun tally unread => ⟨fun h => ?_, ?_⟩, fun tally => ⟨fun h => ?_, ?_⟩, ?_⟩
  · rcases hcases with ⟨-, hclosed⟩ | ⟨htarget, front, last, rest, hreports, hfront, hlast, hstopped⟩
    · cases hclosed.symm.trans h
    · cases hstopped.symm.trans h
      refine ⟨htarget, front, last, hreports, hfront, hlast, ?_, ?_⟩
      · rw [htally, hlength]
      · rw [htally]
        rfl
  · rintro ⟨htarget, front, last, rfl, hfront, hlast, rfl, -⟩
    rw [aggregate_of_crossing (t := start) rfl htarget hfront hlast, htally, hlength]
  · rcases hcases with ⟨hwithin, hclosed⟩ | ⟨-, front, last, rest, -, -, -, hstopped⟩
    · cases hclosed.symm.trans h
      exact ⟨hwithin, htally reports⟩
    · cases hstopped.symm.trans h
  · rintro ⟨hwithin, rfl⟩
    rw [aggregate_of_within (t := start) rfl hwithin, htally]
  · rintro front rest rfl hfront
    refine ⟨aggregate_append rfl hfront rest, fun next => ?_⟩
    rw [total_add, htally]
    show min front.sum maxTotal ≤ min (min front.sum maxTotal + next) maxTotal
    omega

/-- A target just below the largest total: it is met by the second report and crossed by the third,
with which the sum passes the largest total. -/
theorem aggregate_exact_at_limit :
    let start : Tally := { target := maxTotal - 1, messageSize := none }
    let reports := [maxTotal - 2, 1, 7, 3]
    start.target < (reports.take 3).sum ∧ (reports.take 2).sum ≤ start.target ∧
      start.aggregate reports =
        .stopped { start with total := maxTotal, reports := 3 } [3] := by
  intro start reports
  obtain ⟨hstopped, -⟩ := aggregate_exact (maxTotal - 1) none reports ⟨0, 0⟩
  have hcrossed : start.target < (reports.take 3).sum := by decide
  have hmet : (reports.take 2).sum ≤ start.target := by decide
  refine ⟨hcrossed, hmet, (hstopped _ _).mpr ⟨by decide, reports.take 2, 7, rfl, hmet, hcrossed, ?_⟩⟩
  exact ⟨rfl, rfl⟩

/-! ## Any order -/

section Order

variable {orders : Multiset Nat} {order : List Nat}

/-- Where the target is crossed, the total is at most one report above it. -/
theorem stopped_of_lt (h : t.total = 0) (horder : (order : Multiset Nat) = orders)
    (hlt : t.target < min orders.sum maxTotal) :
    ∃ tally unread, t.aggregate order = .stopped tally unread ∧ t.target < tally.total ∧
      tally.total ≤ t.target + orders.sup ∧ tally.total ≤ min orders.sum maxTotal := by
  have hsum : order.sum = orders.sum := by rw [← horder, Multiset.sum_coe]
  rcases aggregate_cases h order with ⟨hwithin, -⟩ |
    ⟨htarget, front, last, unread, hreports, hfront, hlast, hstopped⟩
  · omega
  · have hmem : last ∈ orders := by
      rw [← horder, hreports, Multiset.mem_coe]
      exact List.mem_append_right front List.mem_cons_self
    have hlargest : last ≤ orders.sup := Multiset.le_sup hmem
    have hless : (front ++ [last]).sum ≤ orders.sum := by
      rw [← hsum, hreports]
      simp only [List.sum_append, List.sum_cons, List.sum_nil]
      omega
    have htotal := total_addAll_of_zero h (front ++ [last])
    have hstep : (front ++ [last]).sum = front.sum + last := by
      rw [List.sum_append, List.sum_singleton]
    refine ⟨_, unread, hstopped, ?_, ?_, ?_⟩
    all_goals
      rw [htotal]
      omega

end Order

/-- Two orders of the same reports either both cross the target or both do not. If they do not, then
the aggregator has the same total and the same number of reports in the end. If they do, then either
total is above the target, by no more than the largest report, and is not above the sum of all
reports. -/
theorem aggregate_any_order (target : Nat) (messageSize : Option Nat) (elapsed : Elapsed)
    (reports : Multiset Nat) {first second : List Nat} (hfirst : (first : Multiset Nat) = reports)
    (hsecond : (second : Multiset Nat) = reports) :
    let start : Tally := { target, messageSize }
    let completed := fun tally => (Summary.ofTally tally elapsed).completed
    (∃ x y left right, start.aggregate first = .stopped x left ∧
      start.aggregate second = .stopped y right ∧
      ∀ tally, tally = x ∨ tally = y → target < completed tally ∧
        completed tally ≤ target + reports.sup ∧ completed tally ≤ min reports.sum maxTotal) ∨
    ∃ x, start.aggregate first = .closed x ∧ start.aggregate second = .closed x ∧
      x.total = min reports.sum maxTotal ∧ x.reports = reports.card := by
  intro start completed
  by_cases hlt : target < min reports.sum maxTotal
  · obtain ⟨x, left, hx, hxabove⟩ := stopped_of_lt (t := start) rfl hfirst hlt
    obtain ⟨y, right, hy, hyabove⟩ := stopped_of_lt (t := start) rfl hsecond hlt
    refine .inl ⟨x, y, left, right, hx, hy, ?_⟩
    rintro tally (rfl | rfl)
    · exact hxabove
    · exact hyabove
  · have hclosed : ∀ order : List Nat, (order : Multiset Nat) = reports →
        start.aggregate order = .closed { start with
          total := min reports.sum maxTotal, reports := reports.card } := by
      rintro order rfl
      rw [Multiset.sum_coe] at hlt
      have hwithin : maxTotal ≤ start.target ∨ order.sum ≤ start.target := by
        show maxTotal ≤ target ∨ order.sum ≤ target
        omega
      rw [aggregate_of_within (t := start) rfl hwithin, addAll_start, Multiset.sum_coe,
        Multiset.coe_card]
    exact .inr ⟨_, hclosed first hfirst, hclosed second hsecond, rfl, rfl⟩

/-- Three reports in two orders: one order adds all of them, and the other stops before the last. -/
theorem aggregate_any_order_unread :
    let start : Tally := { target := 8, messageSize := none }
    (([3, 5, 4] : List Nat) : Multiset Nat) = {3, 4, 5} ∧
      (([5, 4, 3] : List Nat) : Multiset Nat) = {3, 4, 5} ∧
      start.aggregate [3, 5, 4] = .stopped { start with total := 12, reports := 3 } [] ∧
      start.aggregate [5, 4, 3] = .stopped { start with total := 9, reports := 2 } [3] ∧
      ∀ total, total = 12 ∨ total = 9 → 8 < total ∧ total ≤ 8 + 5 ∧ total ≤ 12 := by
  intro start
  have hfirst : (([3, 5, 4] : List Nat) : Multiset Nat) = {3, 4, 5} := by decide
  have hsecond : (([5, 4, 3] : List Nat) : Multiset Nat) = {3, 4, 5} := by decide
  have hx : start.aggregate [3, 5, 4] = .stopped { start with total := 12, reports := 3 } [] := by
    decide
  have hy : start.aggregate [5, 4, 3] = .stopped { start with total := 9, reports := 2 } [3] := by
    decide
  refine ⟨hfirst, hsecond, hx, hy, ?_⟩
  rcases aggregate_any_order 8 none ⟨0, 0⟩ _ hfirst hsecond with
    ⟨x, y, left, right, hx', hy', habove⟩ | ⟨x, hx', -⟩
  · cases hx.symm.trans hx'
    cases hy.symm.trans hy'
    rintro total (rfl | rfl)
    · exact habove _ (.inl rfl)
    · exact habove _ (.inr rfl)
  · cases hx.symm.trans hx'

end EchoLoad.Tally
