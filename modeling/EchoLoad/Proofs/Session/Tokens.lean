import EchoLoad.Proofs.Admission
import EchoLoad.Proofs.Session.Story

/-!
# When a session holds its token

Whether a session holds its token can be read off its phase (`Phase.holds`): it does from its start
to the close of its connection, and after that as long as the plan asks for. So a connection that is
open always goes with a token (`Phase.holds_of_conn`).

`Session.Evolves` says what the actions of a session and its end from outside have in common: what
they do to its token, to the books of the admission and to the trace.
-/

namespace EchoLoad

variable {κ : Type}

/-- Whether a session holds its token in this phase. -/
def Phase.holds (order : ReleaseOrder) : Phase κ → Bool
  | .starting | .trading _ _ | .closing _ _ _ | .releasing _ => true
  | .delivering _ | .queued _ => match order with
    | .beforeReport => false
    | .afterReport => true
  | .finishing _ | .ended _ => false

/-- A connection is open only as long as the session holds its token. -/
theorem Phase.holds_of_conn {phase : Phase κ} (order : ReleaseOrder)
    (h : phase.conn?.isSome = true) : phase.holds order = true := by
  cases phase with
  | trading | closing => rfl
  | starting | releasing | delivering | queued | finishing | ended => cases h

theorem Phase.holds_afterRelease (order : ReleaseOrder) (n : Nat) :
    (Phase.afterRelease order n : Phase κ).holds order = false := by
  cases order <;> rfl

theorem Phase.holds_afterDelivery (order : ReleaseOrder) (n : Nat) :
    (Phase.afterDelivery order n : Phase κ).holds order =
      (Phase.delivering n : Phase κ).holds order := by
  cases order <;> rfl

theorem Phase.Advance.holds {plan : Plan κ} {slot : Nat} {phase phase' : Phase κ} {t t' : Trace}
    (h : Advance plan slot phase t phase' t') :
    phase'.holds plan.releaseOrder = phase.holds plan.releaseOrder := by
  cases h with
  | dial | trade | complete | fail => rfl
  | close | closeFailed =>
    unfold afterClose
    cases plan.releaseOrder <;> rfl

/-- What becomes of a session and of what it shares by its own action or by its end from outside: it
stays the same session, gives up its token when the phase says so and not otherwise, and adds to the
trace what its phase tells. -/
structure Session.Evolves (plan : Plan κ) (s : Session κ) (sh : Shared) (s' : Session κ)
    (sh' : Shared) : Prop where
  slot : s'.slot = s.slot
  tokens : s'.holdsToken = s'.phase.holds plan.releaseOrder
  admission : sh'.admission =
    if s'.holdsToken = s.holdsToken then sh.admission else sh.admission.release s.slot
  keeps : s'.holdsToken = true → s.holdsToken = true
  grows : sh.trace.Grows s.slot sh'.trace
  story : sh.trace.Counted → s.phase.Story plan s.slot sh.trace →
    s'.phase.Story plan s.slot sh'.trace

namespace Session.Evolves

variable {plan : Plan κ} {s s' : Session κ} {sh sh' : Shared}

theorem next (h : s.Evolves plan sh s' sh') : sh'.admission.next = sh.admission.next := by
  rw [h.admission]
  split
  · rfl
  · exact Admission.next_release _ _

theorem concurrency (h : s.Evolves plan sh s' sh') :
    sh'.admission.concurrency = sh.admission.concurrency := by
  rw [h.admission]
  split
  · rfl
  · exact Admission.concurrency_release _ _

theorem isOpen (h : s.Evolves plan sh s' sh') : sh'.admission.isOpen = sh.admission.isOpen := by
  rw [h.admission]
  split
  · rfl
  · exact Admission.isOpen_release _ _

theorem refl (h : s.holdsToken = s.phase.holds plan.releaseOrder) (sh : Shared) :
    s.Evolves plan sh s sh := ⟨rfl, h, (if_pos rfl).symm, id, .refl _ _, fun _ hs => hs⟩

theorem trans {s'' : Session κ} {sh'' : Shared} (h₁ : s.Evolves plan sh s' sh')
    (h₂ : s'.Evolves plan sh' s'' sh'') : s.Evolves plan sh s'' sh'' := by
  have hslot := h₁.slot
  have hgrows := h₂.grows
  have hstory := h₂.story
  rw [hslot] at hgrows hstory
  refine ⟨h₂.slot.trans hslot, h₂.tokens, ?_, fun htrue => h₁.keeps (h₂.keeps htrue),
    h₁.grows.trans hgrows,
    fun hcounted hs => hstory (h₁.grows.counted hcounted) (h₁.story hcounted hs)⟩
  -- The token is given back in the first part, in the second, or not at all.
  rw [h₂.admission, h₁.admission, hslot]
  by_cases hlater : s''.holdsToken = s'.holdsToken
  · rw [if_pos hlater, hlater]
  · have hfalse : s''.holdsToken ≠ true := fun htrue => hlater (htrue.trans (h₂.keeps htrue).symm)
    have htrue : s'.holdsToken = true := by
      cases hs : s'.holdsToken with
      | true => rfl
      | false => exact absurd ((Bool.eq_false_iff.mpr hfalse).trans hs.symm) hlater
    have hbefore := h₁.keeps htrue
    rw [if_neg hlater, if_pos (htrue.trans hbefore.symm), hbefore, if_neg hfalse]

end Session.Evolves

namespace Session

variable {plan : Plan κ} {s s' : Session κ} {sh sh' : Shared}

theorem admission_finish (s : Session κ) (ending : Ending) (sh : Shared) :
    (s.finish ending sh).2.admission =
      if (s.finish ending sh).1.holdsToken = s.holdsToken then sh.admission
      else sh.admission.release s.slot := by
  show (if s.holdsToken then _ else _) = if false = s.holdsToken then _ else _
  cases s.holdsToken <;> rfl

theorem Attempt.evolves {n : Nat} {sending : Channel.Sending × Channel}
    (h : s.Attempt n sh.channel sending) (ht : s.holdsToken = s.phase.holds plan.releaseOrder) :
    s.Evolves plan sh (s.deliver plan n sending sh).1 (s.deliver plan n sending sh).2 := by
  have hgrows := grows_deliver plan s n sending sh
  have hholds : s.holdsToken = (Phase.delivering n : Phase κ).holds plan.releaseOrder := by
    rw [ht]
    rcases h.phase with hp | hp
    · rw [hp]
    · rw [hp]
      rfl
  have hcompleted : s.phase.Story plan s.slot sh.trace → Completed plan s.slot n sh.trace := by
    rcases h.phase with hp | hp
    all_goals
      rw [hp]
      exact id
  have hnoted : ∀ e, s.phase.Story plan s.slot sh.trace →
      Completed plan s.slot n (sh.trace.note e) := fun e hs => (hcompleted hs).of_calls_eq rfl
  obtain ⟨outcome, channel⟩ := sending
  cases outcome with
  | sent =>
    exact ⟨rfl, hholds.trans (Phase.holds_afterDelivery _ n).symm, (if_pos rfl).symm, id, hgrows,
      fun _ hs => Phase.story_afterDelivery (hcompleted hs) _⟩
  | dropped =>
    exact ⟨rfl, hholds.trans (Phase.holds_afterDelivery _ n).symm, (if_pos rfl).symm, id, hgrows,
      fun _ hs => Phase.story_afterDelivery (hnoted _ hs) _⟩
  | blocked =>
    exact ⟨rfl, hholds, (if_pos rfl).symm, id, hgrows, fun _ hs => hcompleted hs⟩

theorem Action.evolves (h : Action plan s sh s' sh')
    (ht : s.holdsToken = s.phase.holds plan.releaseOrder) : s.Evolves plan sh s' sh' := by
  have hgrows := h.grows
  cases h with
  | @advance phase trace h =>
    exact ⟨rfl, ht.trans h.holds.symm, (if_pos rfl).symm, id, hgrows, h.story⟩
  | finish h =>
    exact ⟨rfl, rfl, admission_finish s _ _, nofun, hgrows, h.story⟩
  | @release n h =>
    rw [h] at ht
    refine ⟨rfl, (Phase.holds_afterRelease _ n).symm, ?_, nofun, hgrows, fun _ hs => ?_⟩
    · rw [ht]
      rfl
    · rw [h] at hs
      exact Phase.story_afterRelease hs _
  | deliver h => exact h.evolves ht

theorem evolves_step (h : s.step plan sh = some (s', sh'))
    (ht : s.holdsToken = s.phase.holds plan.releaseOrder) : s.Evolves plan sh s' sh' :=
  (action_of_step h).evolves ht

/-- A session that is dropped gives back its token like one that ends by itself. -/
theorem evolves_abort (plan : Plan κ) (s : Session κ) (sh : Shared)
    (ht : s.holdsToken = s.phase.holds plan.releaseOrder) :
    s.Evolves plan sh (s.abort sh).1 (s.abort sh).2 := by
  have hfinish : ∀ channel : Channel, s.Evolves plan sh
      (s.finish .aborted { sh with channel }).1 (s.finish .aborted { sh with channel }).2 :=
    fun channel => ⟨rfl, rfl, admission_finish s _ _, nofun, .refl _ _, fun _ _ => trivial⟩
  unfold abort
  split
  · exact ⟨rfl, ht, (if_pos rfl).symm, id, .refl _ _, fun _ hs => hs⟩
  · exact hfinish _
  · exact hfinish sh.channel

end Session

end EchoLoad
