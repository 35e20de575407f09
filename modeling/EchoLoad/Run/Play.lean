import EchoLoad.Run.Basic

/-!
# Playing a run

One order of the moves of a run: reports are collected at once, the driver looks at the signal first
and at ended sessions next, and a session acts until it has to wait before another one is admitted.
`reachable_play`: a run that is played is one of the reachable ones.
-/

namespace EchoLoad.Run

/-- The move that is made next. -/
def next? {κ : Type} (r : Run κ) : Option Move :=
  let shared := r.pool.shared
  if r.aggregator ≠ .collecting then some .stop
  else if !shared.channel.queue.isEmpty then some .collect
  else match r.pool.sessions.find? fun s => s.ending?.isSome with
    | some s => some (.join s.slot)
    | none => match r.pool.sessions.find? fun s => !s.isBlocked shared.channel with
      | some s => some (.act s.slot)
      | none => if shared.admission.free = 0 then none else some .launch

/-- A run after at most `moves` moves, and the most connections that were open at once. -/
def play {κ : Type} (s : Setting κ) : (moves : Nat) → Run κ → (peak : Nat) → Run κ × Nat
  | 0, r, peak => (r, peak)
  | moves + 1, r, peak =>
    let peak := max peak r.pool.openConnections
    match r.next?.bind (r.step? s) with
    | none => (r, peak)
    | some r' => play s moves r' peak

theorem reachable_play {κ : Type} {s : Setting κ} {r : Run κ} (h : Reachable s r)
    (moves peak : Nat) : Reachable s (play s moves r peak).1 := by
  induction moves generalizing r peak with
  | zero => exact h
  | succ moves ih =>
    unfold play
    dsimp only
    split
    · exact h
    · next r' hr =>
      obtain ⟨m, -, hm⟩ := Option.bind_eq_some_iff.1 hr
      exact ih (.step m h hm) _

end EchoLoad.Run
