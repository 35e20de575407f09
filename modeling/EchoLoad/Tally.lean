/-!
# Tallies

The aggregator adds up the counts that sessions report and stops as soon as the total exceeds the
target. Totals stay at the largest 64-bit number when they would pass it.

`total_addAll`: the total is the exact sum of the reports, cut off at that number.
-/

namespace EchoLoad

def maxTotal : Nat := 0xFFFFFFFFFFFFFFFF

/-- What the aggregator knows of a run. -/
structure Tally where
  target : Nat
  messageSize : Option Nat
  total : Nat := 0
  reports : Nat := 0
  deriving DecidableEq, Repr

namespace Tally

def add (t : Tally) (completed : Nat) : Tally :=
  { t with total := min (t.total + completed) maxTotal, reports := t.reports + 1 }

def exceeded (t : Tally) : Bool := t.total > t.target

def addAll (t : Tally) (reports : List Nat) : Tally := reports.foldl add t

/-- How the aggregation of a stream of reports ends. -/
inductive Aggregate where
  /-- The target is exceeded; later reports stay where they are. -/
  | stopped (tally : Tally) (unread : List Nat)
  /-- The reports end before that. -/
  | closed (tally : Tally)
  deriving DecidableEq, Repr

/-- Adds reports in their order until the target is exceeded. -/
def aggregate (t : Tally) : List Nat → Aggregate
  | [] => .closed t
  | report :: rest =>
    if (t.add report).exceeded then .stopped (t.add report) rest
    else (t.add report).aggregate rest

@[simp] theorem target_add (t : Tally) (n : Nat) : (t.add n).target = t.target := rfl

@[simp] theorem reports_add (t : Tally) (n : Nat) : (t.add n).reports = t.reports + 1 := rfl

@[simp] theorem total_add (t : Tally) (n : Nat) :
    (t.add n).total = min (t.total + n) maxTotal := rfl

theorem total_addAll {t : Tally} (h : t.total ≤ maxTotal) (reports : List Nat) :
    (t.addAll reports).total = min (reports.foldl (· + ·) t.total) maxTotal := by
  suffices hs : ∀ n, t.total = min n maxTotal →
      (t.addAll reports).total = min (reports.foldl (· + ·) n) maxTotal from
    hs _ (Nat.min_eq_left h).symm
  clear h
  induction reports generalizing t with
  | nil =>
    intro n hn
    exact hn
  | cons m ms ih =>
    intro n hn
    refine ih (n + m) ?_
    rw [total_add, hn]
    omega

end Tally

end EchoLoad
