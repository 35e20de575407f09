import EchoLoad.Proofs.Run.Ceiling
import EchoLoad.Proofs.Session.Senders

/-!
# Where the error of a run comes from

A configuration that is rejected is rejected before anything else. After that there is only one way
to an error: the driver learns that a session has failed, and returns the error of the dial, the
write or the read that has failed there, or that a session has panicked (`provenance`). What goes
wrong at a close, and lengths that do not match, are never returned.

The driver knows two more errors, that the reports have ended and that no more tokens are handed
out. It never gets that far: as long as it is there, the channel has a sender and the tokens are
handed out (`Reachable.attended`).
-/

namespace EchoLoad.Run

variable {κ : Type} {s : Setting κ} {r r' : Run κ}

/-- In every state of a run there is a sender to spare, and the tokens are handed out. -/
theorem Reachable.attended (h : Reachable s r) : r.pool.Attended :=
  (Live.running h).invariant (fun _ hp => Pool.attended_of_empty hp)
    fun _ _ hsound hc hattended => hattended.change hsound hc

/-- The reports do not end: the driver could still let a session in. -/
theorem Reachable.aggregator_ne_closed (h : Reachable s r) : r.aggregator ≠ .closed := by
  induction h with
  | begin h =>
    obtain ⟨pool, -, rfl⟩ := eq_of_begin h
    nofun
  | step m h hs ih =>
    obtain ⟨-, hm⟩ := made_of_step hs
    cases hm with
    | close _ _ hnone =>
      have hsenders := h.attended.senders
      rw [hnone] at hsenders
      cases hsenders
    | collect =>
      unfold Run.collect
      dsimp only
      split
      · nofun
      · exact ih
    | launch | refuse | act | stop | giveUp | leave | fail | panic => exact ih

/-- With an error the driver returns what it has learned of one of its sessions. -/
theorem Reachable.ending_of_error (h : Reachable s r) {e : Error}
    (hv : r.verdict = some (.error e)) :
    ∃ x ∈ r.pool.sessions, x.ending? = some (.failed e) ∨
      (e = .sessionPanicked ∧ x.ending? = some .panicked) := by
  cases h with
  | begin h =>
    obtain ⟨pool, -, rfl⟩ := eq_of_begin h
    cases hv
  | @step before _ m h hs =>
    obtain ⟨hnone, hm⟩ := made_of_step hs
    have hgoing : before.verdict ≠ some (.error e) := by
      rw [hnone]
      nofun
    cases hm with
    | launch | act | close | leave => exact absurd hv hgoing
    | collect =>
      unfold Run.collect at hv
      dsimp only at hv
      split at hv
      · exact absurd hv hgoing
      · exact absurd hv hgoing
    | stop => cases hv
    | refuse hclosed => cases hclosed.symm.trans h.attended.isOpen
    | giveUp hclosed => exact absurd hclosed h.aggregator_ne_closed
    | fail hx he =>
      cases hv
      exact ⟨_, (Pool.mem_of_session? hx).1, .inl he⟩
    | panic hx he =>
      cases hv
      exact ⟨_, (Pool.mem_of_session? hx).1, .inr ⟨rfl, he⟩⟩

theorem config_of_begin_error {e : Error} (h : begin s = .error e) :
    ∃ d, s.config.check s.reader = .error d ∧ e = .config d := by
  unfold begin at h
  split at h
  · next d hd =>
    cases h
    exact ⟨d, hd, rfl⟩
  · split at h <;> cases h

/-- Every state of a run has come from its beginning. -/
theorem Reachable.exists_begin (h : Reachable s r) : ∃ r₀, Run.begin s = .value r₀ := by
  induction h with
  | begin h => exact ⟨_, h⟩
  | step _ _ _ ih => exact ih

/-- An error that a run returns comes from its configuration, before any dial, or from a session
that was let in: it is the error of the dial, or of the write or the read that has failed there, as
it was and whatever came of the close; or it says that a session has panicked. No state is reached in
which the aggregator has run out of senders or tokens are no longer handed out, so letting a session
in brings no error, and neither does the end of the aggregator. -/
theorem provenance (s : Setting κ) :
    (∀ e, begin s = .error e →
      (∃ d, s.config.check s.reader = .error d ∧ e = .config d) ∧ ∀ r, ¬ Reachable s r) ∧
    ∀ r, Reachable s r →
      (∀ e, r.verdict = some (.error e) →
        (∃ slot < r.pool.shared.admission.admitted,
          Failed s.plan slot e r.pool.shared.trace) ∨
        (e = .sessionPanicked ∧ e.kind = .aborted ∧
          ∃ x ∈ r.pool.sessions, x.ending? = some .panicked)) ∧
      r.aggregator ≠ .closed ∧ r.pool.shared.admission.isOpen = true ∧
      (∀ r', r.step? s .launch = some r' → r'.verdict = none) ∧
      ∀ r', r.step? s .stop = some r' → r'.verdict = some (.ok r.tally) := by
  refine ⟨fun e he => ?_, fun r h => ⟨fun e hv => ?_, h.aggregator_ne_closed, h.attended.isOpen,
    fun r' hlaunch => ?_, fun r' hstop => ?_⟩⟩
  · refine ⟨config_of_begin_error he, fun r h => ?_⟩
    obtain ⟨r₀, hvalue⟩ := h.exists_begin
    cases hvalue.symm.trans he
  · obtain ⟨x, hx, he⟩ := h.ending_of_error hv
    have hsound := h.kept.sound
    rcases he with hfailed | ⟨rfl, hpanicked⟩
    · left
      have hstory := hsound.stories x hx
      rw [Session.phase_of_ending hfailed] at hstory
      exact ⟨x.slot, hsound.issued x hx, hstory⟩
    · exact .inr ⟨rfl, rfl, x, hx, hpanicked⟩
  · obtain ⟨hnone, hm⟩ := made_of_step hlaunch
    cases hm with
    | launch => exact hnone
    | refuse hclosed => cases hclosed.symm.trans h.attended.isOpen
  · obtain ⟨-, hm⟩ := made_of_step hstop
    cases hm with
    | stop => rfl
    | giveUp hclosed => exact absurd hclosed h.aggregator_ne_closed

/-- One session at a time, whose first write fails, and so does the close after it. -/
def Setting.failing : Setting Rehearsal :=
  { config := { concurrency := 1, targetTotal := 0, url := "ws://h/" }
    transport := Rehearsal.transport [{ failWriteAt := some 1, closeError := some "no close" }]
    workload := .constant 1 5
    elapsed := ⟨0, 0⟩ }

/-- The error of the write is returned, and that of the close is noted. -/
theorem provenance_failing : ∃ r e, Reachable Setting.failing r ∧ r.verdict = some (.error e) ∧
    e.text = "fail_write_at 1" ∧
    .closeFailed 0 (.reported .transport "no close") ∈ r.pool.shared.trace.events ∧
    ∃ slot < r.pool.shared.admission.admitted,
      Failed Setting.failing.plan slot e r.pool.shared.trace := by
  have hcheck : Setting.failing.config.check Setting.failing.reader = .ok () := by rfl
  have hbegin : Reachable Setting.failing _ := .begin (by rw [begin, hcheck]; rfl)
  have hdial : Reachable Setting.failing _ := .step (.act 0) (.step .launch hbegin rfl) rfl
  have hclose : Reachable Setting.failing _ := .step (.act 0) (.step (.act 0) hdial rfl) rfl
  have hjoin : Reachable Setting.failing _ := .step (.join 0) hclose rfl
  obtain ⟨hverdict, -⟩ := (provenance Setting.failing).2 _ hjoin
  rcases hverdict _ rfl with hfailed | ⟨hpanicked, -⟩
  · exact ⟨_, _, hjoin, rfl, rfl, List.mem_cons_of_mem _ List.mem_cons_self, hfailed⟩
  · cases hpanicked

end EchoLoad.Run
