import EchoLoad.Proofs.Run.Ceiling
import EchoLoad.Proofs.Session.Course

/-!
# The sessions of a run take their courses

What happens to a pool is an action of one session, or nothing that a session would see in the
trace. So every session of a pool takes a course as long as it is not dropped (`OnCourse.change`),
and what a course says of a session that has come to its end holds in a run, whatever the other
sessions, the driver and the aggregator do (`Live.onCourse`).
-/

namespace EchoLoad

variable {κ : Type}

namespace Pool

variable {plan : Plan κ} {p p' : Pool κ} {s s' t : Session κ} {sh' : Shared}

/-- Every session that has not been dropped has taken a course to where it is. -/
def OnCourse (plan : Plan κ) (p : Pool κ) : Prop :=
  ∀ s ∈ p.sessions, s.ending? = some .aborted ∨
    ∃ turns, Session.Course plan s.slot turns s p.shared

namespace OnCourse

/-- A session goes on with its course while another one acts. -/
theorem others (h : p.OnCourse plan) (ht : t ∈ p.sessions) {other : Nat} (hne : other ≠ t.slot)
    (hg : p.shared.trace.Grows other sh'.trace) :
    t.ending? = some .aborted ∨ ∃ turns, Session.Course plan t.slot turns t sh' := by
  rcases h t ht with haborted | ⟨turns, hcourse⟩
  · exact .inl haborted
  · exact .inr ⟨turns, hcourse.others hne hg⟩

/-- Nothing is called, and no session comes in. -/
theorem quiet (h : p.OnCourse plan) (hsub : p'.sessions ⊆ p.sessions)
    (hg : ∀ other, p.shared.trace.Grows other p'.shared.trace) : p'.OnCourse plan :=
  fun t ht => h.others (hsub ht) (Nat.succ_ne_self t.slot) (hg _)

theorem launch (h : p.OnCourse plan) (hsound : p.Sound plan) {slot : Nat}
    (hl : p.launch? = some (slot, p')) : p'.OnCourse plan := by
  have hsessions := fun s => mem_launch (s := s) hl
  obtain ⟨admission, -, rfl⟩ := eq_of_launch hl
  intro t ht
  rcases (hsessions t).mp ht with ht | rfl
  · exact h.others ht (Nat.succ_ne_self t.slot) (.refl _ _)
  · exact .inr ⟨[], .start hsound.counted (hsound.silent _ (Nat.le_refl _))⟩

theorem update (h : p.OnCourse plan) (hs : s ∈ p.sessions) (he : s.Evolves plan p.shared s' sh')
    (hs' : s'.ending? = some .aborted ∨ ∃ turns, Session.Course plan s.slot turns s' sh') :
    (p.update s' sh').OnCourse plan := by
  intro t ht
  rcases (mem_update hs he.slot).mp ht with rfl | ⟨ht, hne⟩
  · rw [he.slot]
    exact hs'
  · exact h.others ht hne.symm he.grows

theorem step (h : p.OnCourse plan) (hsound : p.Sound plan) {slot : Nat}
    (hstep : p.step? plan slot = some p') : p'.OnCourse plan := by
  obtain ⟨s, s', sh', hs, -, hact, rfl⟩ := session_of_step hstep
  refine h.update hs (Session.evolves_step hact (hsound.tokens s hs)) ?_
  rcases h s hs with haborted | ⟨turns, hcourse⟩
  · have hstuck : s.step plan p.shared = none := by
      unfold Session.step
      rw [Session.phase_of_ending haborted]
    cases hstuck.symm.trans hact
  · exact .inr ⟨_, hcourse.act hact⟩

theorem abort (h : p.OnCourse plan) (hsound : p.Sound plan) (slot : Nat) :
    (p.abort slot).OnCourse plan := by
  unfold Pool.abort
  split
  · exact h
  · next s hs =>
    obtain ⟨hmem, -⟩ := mem_of_session? hs
    refine h.update hmem (Session.evolves_abort plan s p.shared (hsound.tokens s hmem)) ?_
    split
    · exact h s hmem
    · exact .inl rfl
    · exact .inl rfl

theorem change (h : p.OnCourse plan) (hsound : p.Sound plan) (hc : Change plan p p') :
    p'.OnCourse plan := by
  cases hc with
  | launch hl => exact h.launch hsound hl
  | step hs => exact h.step hsound hs
  | abort slot => exact h.abort hsound slot
  | receive hr =>
    obtain ⟨channel, -, rfl⟩ := eq_of_receive hr
    exact h.quiet (List.Subset.refl _) fun _ => .refl _ _
  | dropReceiver => exact h.quiet (List.Subset.refl _) fun _ => .refl _ _
  | remove => exact h.quiet List.filter_sublist.subset fun _ => .refl _ _
  | note e => exact h.quiet (List.Subset.refl _) fun _ => (Trace.Grows.refl _ _).note e

end OnCourse

end Pool

namespace Run

variable {s : Setting κ} {r : Run κ}

/-- At all times, every session of a run that has not been dropped has taken a course. -/
theorem Live.onCourse (h : Live s r) : r.pool.OnCourse s.plan := by
  refine h.invariant (fun pool hp => ?_) fun _ _ hsound hc hcourse => hcourse.change hsound hc
  obtain rfl := Pool.eq_of_empty hp
  nofun

end Run

end EchoLoad
