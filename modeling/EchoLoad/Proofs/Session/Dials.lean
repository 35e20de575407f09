import EchoLoad.Proofs.Session.Senders

/-!
# No dial without a token

A session dials once, with its first action (`Action.dials`). So the dials that have been made and
the sessions that have yet to dial are together no more than the tokens that have been handed out
(`Pool.Admits`); they are less if a session was dropped before its dial.
-/

namespace EchoLoad

variable {κ : Type} {plan : Plan κ}

theorem Trips.dials_reply {transport : Transport κ} {workload : Workload}
    {slot written left : Nat} {conn : κ} {t t' : Trace} {progress : Progress κ}
    (h : reply transport workload slot written left conn t = (progress, t')) :
    t'.dials = t.dials := by
  unfold reply at h
  split at h
  · dsimp only at h
    split at h
    all_goals
      cases h
      rfl
  all_goals
    cases h
    rfl

theorem Trips.dials_step {transport : Transport κ} {workload : Workload} {slot : Nat}
    {trips : Trips κ} {t t' : Trace} {progress : Progress κ}
    (h : step transport workload slot trips t = (progress, t')) : t'.dials = t.dials := by
  unfold step at h
  split at h
  · split at h
    · cases h
      rfl
    split at h
    · cases h
      rfl
    dsimp only at h
    split at h
    · cases h
      rfl
    split at h
    all_goals
      cases h
      rfl
  · dsimp only at h
    split at h
    · cases h
      rfl
    · exact (dials_reply h).trans rfl
  · exact dials_reply h

namespace Phase

def isStarting : Phase κ → Bool
  | .starting => true
  | _ => false

theorem isStarting_afterClose (order : ReleaseOrder) (n : Nat) :
    (Phase.afterClose order n : Phase κ).isStarting = false := by
  cases order <;> rfl

theorem isStarting_afterRelease (order : ReleaseOrder) (n : Nat) :
    (Phase.afterRelease order n : Phase κ).isStarting = false := by
  cases order <;> rfl

theorem isStarting_afterDelivery (order : ReleaseOrder) (n : Nat) :
    (Phase.afterDelivery order n : Phase κ).isStarting = false := by
  cases order <;> rfl

theorem Advance.dials {slot : Nat} {phase phase' : Phase κ} {t t' : Trace}
    (h : Advance plan slot phase t phase' t') :
    t'.dials + phase'.isStarting.toNat = t.dials + phase.isStarting.toNat := by
  cases h with
  | dial => rfl
  | trade h | complete h | fail h => exact Trips.dials_step h
  | close | closeFailed =>
    rw [isStarting_afterClose]
    rfl

theorem Finish.dials {slot : Nat} {phase : Phase κ} {ending : Ending} {t t' : Trace}
    (h : Finish plan slot phase t ending t') : t'.dials = t.dials + phase.isStarting.toNat := by
  cases h with
  | tripsPanicked h => exact Trips.dials_step h
  | dialFailed | dialPanicked | closed | closeFailed | closePanicked | done => rfl

end Phase

namespace Session

variable {s s' : Session κ} {sh sh' : Shared}

theorem Attempt.dials (plan : Plan κ) {n : Nat} {sending : Channel.Sending × Channel}
    (h : s.Attempt n sh.channel sending) :
    (s.deliver plan n sending sh).2.trace.dials = sh.trace.dials ∧
      s.phase.isStarting = false ∧ (s.deliver plan n sending sh).1.phase.isStarting = false := by
  have hbefore : s.phase.isStarting = false := by
    rcases h.phase with hp | hp
    all_goals
      rw [hp]
      rfl
  obtain ⟨outcome, channel⟩ := sending
  cases outcome with
  | sent | dropped => exact ⟨rfl, hbefore, Phase.isStarting_afterDelivery _ n⟩
  | blocked => exact ⟨rfl, hbefore, rfl⟩

/-- A session dials with its first action, and never again. -/
theorem Action.dials (h : Action plan s sh s' sh') :
    sh'.trace.dials + s'.phase.isStarting.toNat =
      sh.trace.dials + s.phase.isStarting.toNat := by
  cases h with
  | advance h => exact h.dials
  | finish h => exact h.dials
  | @release n hp =>
    rw [hp, Phase.isStarting_afterRelease]
    rfl
  | deliver h =>
    obtain ⟨hdials, hbefore, hafter⟩ := h.dials plan
    rw [hdials, hbefore, hafter]

theorem dials_abort (s : Session κ) (sh : Shared) :
    (s.abort sh).2.trace.dials + (s.abort sh).1.phase.isStarting.toNat ≤
      sh.trace.dials + s.phase.isStarting.toNat := by
  unfold abort
  split
  · exact Nat.le_refl _
  · exact Nat.le_add_right _ _
  · exact Nat.le_add_right _ _

end Session

namespace Pool

variable {p p' : Pool κ} {s s' : Session κ} {sh' : Shared}

/-- The dials that have been made, and those that are yet to come from the sessions that are there, are
no more than the tokens that have been handed out. -/
def Admits (p : Pool κ) : Prop :=
  p.shared.trace.dials + (p.sessions.countP fun s => s.phase.isStarting) ≤
    p.shared.admission.admitted

namespace Admits

theorem dials_le (h : p.Admits) : p.shared.trace.dials ≤ p.shared.admission.admitted :=
  Nat.le_trans (Nat.le_add_right _ _) h

theorem update (h : p.Admits) (hsound : p.Sound plan) (hs : s ∈ p.sessions)
    (he : s.Evolves plan p.shared s' sh')
    (hd : sh'.trace.dials + s'.phase.isStarting.toNat ≤
      p.shared.trace.dials + s.phase.isStarting.toNat) : (p.update s' sh').Admits := by
  obtain ⟨front, back, hbefore, hafter⟩ := hsound.sessions_update hs he.slot sh'
  have hone : ∀ t : Session κ,
      (if t.phase.isStarting = true then 1 else 0) = t.phase.isStarting.toNat :=
    fun t => by cases t.phase.isStarting <;> rfl
  have hadmitted : sh'.admission.admitted = p.shared.admission.admitted := he.next
  unfold Admits at h ⊢
  rw [hbefore, List.countP_append, List.countP_cons, hone] at h
  rw [hafter, List.countP_append, List.countP_cons, hone]
  show sh'.trace.dials + _ ≤ sh'.admission.admitted
  omega

theorem change (h : p.Admits) (hsound : p.Sound plan) (hc : Change plan p p') : p'.Admits := by
  cases hc with
  | launch hl =>
    obtain ⟨admission, ha, rfl⟩ := eq_of_launch hl
    obtain ⟨-, -, rfl⟩ := Admission.eq_of_acquire ha
    unfold Admits at h ⊢
    rw [List.countP_append]
    exact Nat.succ_le_succ h
  | step hs =>
    obtain ⟨s, s', sh', hmem, -, hstep, rfl⟩ := session_of_step hs
    have haction := Session.action_of_step hstep
    exact h.update hsound hmem (haction.evolves (hsound.tokens s hmem))
      (Nat.le_of_eq haction.dials)
  | abort slot =>
    unfold Pool.abort
    split
    · exact h
    · next s hs =>
      obtain ⟨hmem, -⟩ := mem_of_session? hs
      exact h.update hsound hmem (Session.evolves_abort plan s p.shared (hsound.tokens s hmem))
        (Session.dials_abort s p.shared)
  | receive hr =>
    obtain ⟨channel, -, rfl⟩ := eq_of_receive hr
    exact h
  | @remove slot =>
    have hsub : (p.remove slot).sessions.Sublist p.sessions := List.filter_sublist
    have hless := hsub.countP_le (p := fun s => s.phase.isStarting)
    exact Nat.le_trans (Nat.add_le_add_left hless _) h
  | dropReceiver | note => exact h

end Admits

theorem admits_of_empty {concurrency capacity : Nat} (h : empty? concurrency capacity = some p) :
    p.Admits := by
  obtain rfl := eq_of_empty h
  exact Nat.le_refl _

end Pool

end EchoLoad
