import EchoLoad.Proofs.Run.Accounting
import EchoLoad.Run.Play

/-!
# The total of a run whose sessions are all alike

If every session plans the same number of round trips, then every report is this number, and the
first report that brings the total above the target is the one after as many as the target holds.
So the total does not depend on which sessions report, in which order, and how many of them run at
once (`total_of_constant_count`).
-/

namespace EchoLoad.Run

variable {κ : Type} {s : Setting κ} {r : Run κ} {n : Nat}

/-- What is reported was planned. -/
theorem Trail.completed_of_posted {steps : List (Step κ)} (h : Trail s steps r) {report : Report}
    (hr : report ∈ posted steps) : ∃ i, s.workload.count i = report.completed := by
  obtain ⟨x, hx, hposted⟩ := List.mem_flatMap.mp hr
  obtain ⟨hreachable, hstep⟩ := h.mem hx
  obtain ⟨-, -, first, calls, last, hopened, -⟩ :=
    (made_of_step hstep).2.completed_of_posted hreachable.kept hposted
  obtain ⟨later, earlier, -, hplanned, -⟩ := hopened.dialed
  exact ⟨_, hplanned⟩

theorem sum_completed {reports : List Report} (h : ∀ report ∈ reports, report.completed = n) :
    (reports.map Report.completed).sum = reports.length * n := by
  rw [List.map_eq_replicate_iff.mpr h, List.sum_replicate_nat]

/-- A run that succeeds has a target below the largest total, and if every session plans `n` round
trips, its total is the first multiple of `n` above the target, cut off at the largest total. -/
theorem total_of_constant_count (hcount : ∀ i, s.workload.count i = n) (h : Reachable s r)
    {t : Tally} (hv : r.verdict = some (.ok t)) :
    s.config.targetTotal < maxTotal ∧
      (Summary.ofTally t s.elapsed).completed =
        min (n * (s.config.targetTotal / n + 1)) maxTotal := by
  obtain ⟨steps, htrail⟩ := h.trail
  have hledger := htrail.ledger
  obtain ⟨hstopped, rfl⟩ := hledger.verdict t hv
  obtain ⟨hbegins, hexceeded, front, last, hlast, hfront⟩ := hledger.stopped hstopped
  have hsame : ∀ report ∈ front ++ [last], report.completed = n := by
    intro report hr
    rw [← hlast] at hr
    obtain ⟨i, hi⟩ := htrail.completed_of_posted (hbegins.subset hr)
    exact hi.symm.trans (hcount i)
  have hsum : ((front ++ [last]).map Report.completed).sum = (front.length + 1) * n := by
    rw [sum_completed hsame, List.length_append, List.length_singleton]
  -- The last report takes the total above the target, and the others do not.
  rw [hledger.tally, hlast] at hexceeded
  have habove := (Tally.exceeded_addAll_iff rfl _).mp hexceeded
  have hbelow := mt (Tally.exceeded_addAll_iff rfl _).mpr (Bool.eq_false_iff.mp hfront)
  rw [sum_completed fun report hr => hsame report (List.mem_append_left _ hr)] at hbelow
  rw [hsum] at habove
  have htarget : s.tally.target = s.config.targetTotal := rfl
  rw [htarget] at habove hbelow
  have hquotient : s.config.targetTotal / n = front.length :=
    Nat.div_eq_of_lt_le (by omega) (by omega)
  refine ⟨by omega, ?_⟩
  calc r.tally.total
      _ = (s.tallyOf (front ++ [last])).total := by rw [hledger.tally, hlast]
      _ = min ((front.length + 1) * n) maxTotal := by
        rw [Setting.tallyOf, Tally.total_addAll_of_zero rfl, hsum]
      _ = min (n * (s.config.targetTotal / n + 1)) maxTotal := by rw [hquotient, Nat.mul_comm]

/-- The second report crosses the target. -/
theorem total_pair : ∃ r t, Reachable Setting.pair r ∧ r.verdict = some (.ok t) ∧
    (Summary.ofTally t ⟨0, 0⟩).completed = 6 := by
  have hbegin : Reachable Setting.pair _ := .begin (by rw [begin, check_pair]; rfl)
  have hplay := reachable_play hbegin 60 0
  obtain ⟨-, htotal⟩ := total_of_constant_count (n := 3) (t := ⟨5, some 5, 6, 2⟩) (fun _ => rfl)
    hplay (by rfl)
  exact ⟨_, _, hplay, by rfl, htotal⟩

end EchoLoad.Run
