import EchoLoad.Run.Basic

/-!
# Runs with their past

`Run.Trail s steps r` says that `steps`, in their order, lead from the beginning of a run to the
state `r`. Every reachable state has such a past (`Reachable.trail`). From it one can read which
reports have been put into the channel and which of them the aggregator has collected, both in their
order: `posted` and `collected`.
-/

namespace EchoLoad.Run

/-- One move that has been made. -/
structure Step (κ : Type) where
  before : Run κ
  move : Move
  after : Run κ

variable {κ : Type}

namespace Step

/-- The reports that have come into the channel. -/
def posted (x : Step κ) : List Report :=
  x.after.pool.shared.channel.queue.drop x.before.pool.shared.channel.queue.length

/-- The report that the aggregator has taken out of it. -/
def collected (x : Step κ) : List Report :=
  match x.move with
  | .collect => x.before.pool.shared.channel.queue.take 1
  | _ => []

end Step

/-- All reports that have come into the channel, the first one first. -/
def posted (steps : List (Step κ)) : List Report := steps.flatMap Step.posted

/-- All reports that the aggregator has taken out of it, the first one first. -/
def collected (steps : List (Step κ)) : List Report := steps.flatMap Step.collected

/-- The state `r` has come about by these steps. -/
inductive Trail (s : Setting κ) : List (Step κ) → Run κ → Prop where
  | begin {r : Run κ} (h : Run.begin s = .value r) : Trail s [] r
  | step {steps : List (Step κ)} {r r' : Run κ} (m : Move) (h : Trail s steps r)
      (hs : r.step? s m = some r') : Trail s (steps ++ [⟨r, m, r'⟩]) r'

variable {s : Setting κ} {r : Run κ} {steps : List (Step κ)}

theorem Trail.reachable (h : Trail s steps r) : Reachable s r := by
  induction h with
  | begin h => exact .begin h
  | step m _ hs ih => exact .step m ih hs

theorem Reachable.trail (h : Reachable s r) : ∃ steps, Trail s steps r := by
  induction h with
  | begin h => exact ⟨[], .begin h⟩
  | step m _ hs ih =>
    obtain ⟨steps, ht⟩ := ih
    exact ⟨_, .step m ht hs⟩

theorem Trail.mem (h : Trail s steps r) {x : Step κ} (hx : x ∈ steps) :
    Reachable s x.before ∧ x.before.step? s x.move = some x.after := by
  induction h with
  | begin => cases hx
  | step m ht hs ih =>
    rcases List.mem_append.mp hx with hx | hx
    · exact ih hx
    · rw [List.mem_singleton.mp hx]
      exact ⟨ht.reachable, hs⟩

theorem posted_append (steps : List (Step κ)) (x : Step κ) :
    posted (steps ++ [x]) = posted steps ++ x.posted := by
  rw [posted, List.flatMap_append, List.flatMap_singleton]
  rfl

theorem collected_append (steps : List (Step κ)) (x : Step κ) :
    collected (steps ++ [x]) = collected steps ++ x.collected := by
  rw [collected, List.flatMap_append, List.flatMap_singleton]
  rfl

end EchoLoad.Run
