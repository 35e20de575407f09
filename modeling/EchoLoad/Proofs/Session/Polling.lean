import EchoLoad.Proofs.Session.Delivery
import Mathlib.Logic.Relation

/-!
# What a poll of a session does

A session that is polled acts until it has to wait (`Session.run`), so a poll is a chain of actions
(`acts_run`), and what holds of actions and of chains of them holds of polls. There are two such
things. What a poll does to the token and to the trace is `Session.Evolves`. What it does to the
report of the session and to the channel is `Session.Tells`: the session puts its report into the
channel when it passes from having none behind it to having one behind it (`Phase.reported?`), and it
puts nothing else; if nobody receives, it puts nothing at all.

A session that waits, or has ended, is at rest (`Phase.rests`): it has its report behind it only if it
has come to its end with it. So one that is dropped at rest before its end has put no report
(`tells_abort`).
-/

namespace EchoLoad

variable {κ : Type}

/-! ## Reports -/

/-- The count that a session in this phase has reported, or would have reported if anybody had
received it. -/
def Phase.reported? (order : ReleaseOrder) : Phase κ → Option Nat
  | .releasing n => match order with
    | .beforeReport => none
    | .afterReport => some n
  | .finishing n | .ended (.finished n) => some n
  | _ => none

theorem Phase.reported_afterClose (order : ReleaseOrder) (n : Nat) :
    (Phase.afterClose order n : Phase κ).reported? order = none := by
  cases order <;> rfl

theorem Phase.reported_afterRelease (order : ReleaseOrder) (n : Nat) :
    (Phase.afterRelease order n : Phase κ).reported? order =
      (Phase.releasing n : Phase κ).reported? order := by
  cases order <;> rfl

theorem Phase.reported_afterDelivery (order : ReleaseOrder) (n : Nat) :
    (Phase.afterDelivery order n : Phase κ).reported? order = some n := by
  cases order <;> rfl

theorem Phase.Advance.reported {plan : Plan κ} {slot : Nat} {phase phase' : Phase κ} {t t' : Trace}
    (h : Advance plan slot phase t phase' t') :
    phase'.reported? plan.releaseOrder = phase.reported? plan.releaseOrder := by
  cases h with
  | dial | trade | complete | fail => rfl
  | close | closeFailed => exact reported_afterClose _ _

/-- A session ends with the report that it has behind it. -/
theorem Phase.Finish.reported {plan : Plan κ} {slot : Nat} {phase : Phase κ} {ending : Ending}
    {t t' : Trace} (h : Finish plan slot phase t ending t') :
    (Phase.ended ending : Phase κ).reported? plan.releaseOrder =
      phase.reported? plan.releaseOrder := by
  cases h <;> rfl

/-- What becomes of the report of a session between two phases; `put` is what goes into the channel
for it. -/
inductive Phase.Tells (order : ReleaseOrder) (slot : Nat) (isOpen : Bool) (phase phase' : Phase κ) :
    List Report → Prop where
  | nothing (h : phase'.reported? order = phase.reported? order) :
      Tells order slot isOpen phase phase' []
  | report {n : Nat} (hbefore : phase.reported? order = none)
      (hafter : phase'.reported? order = some n) :
      Tells order slot isOpen phase phase' (if isOpen then [⟨slot, n⟩] else [])

namespace Phase.Tells

variable {order : ReleaseOrder} {slot : Nat} {isOpen : Bool} {phase phase' phase'' : Phase κ}
  {put put₁ put₂ : List Report}

/-- What goes into the channel is the report of this session, which had none behind it. -/
theorem eq_of_mem (h : Tells order slot isOpen phase phase' put) {report : Report}
    (hr : report ∈ put) : put = [report] ∧ report.slot = slot ∧ isOpen = true ∧
      phase.reported? order = none ∧ phase'.reported? order = some report.completed := by
  cases h with
  | nothing => cases hr
  | report hbefore hafter =>
    cases isOpen with
    | false => cases hr
    | true =>
      cases List.mem_singleton.mp hr
      exact ⟨rfl, rfl, rfl, hbefore, hafter⟩

/-- A report that a session has behind it was behind it before, goes into the channel, or finds it
closed. -/
theorem cases_of_reported (h : Tells order slot isOpen phase phase' put) {n : Nat}
    (hn : phase'.reported? order = some n) : phase.reported? order = some n ∨
      ⟨slot, n⟩ ∈ put ∨ isOpen = false ∧ phase.reported? order = none := by
  cases h with
  | nothing heq => exact .inl (heq.symm.trans hn)
  | report hbefore hafter =>
    cases hafter.symm.trans hn
    cases isOpen with
    | false => exact .inr (.inr ⟨rfl, hbefore⟩)
    | true => exact .inr (.inl (List.mem_singleton_self _))

/-- What a session has behind it stays behind it. -/
theorem reported (h : Tells order slot isOpen phase phase' put) {n : Nat}
    (hn : phase.reported? order = some n) : phase'.reported? order = some n := by
  cases h with
  | nothing heq => exact heq.trans hn
  | report hbefore => cases hbefore.symm.trans hn

/-- A report is made once only. -/
theorem trans (h₁ : Tells order slot isOpen phase phase' put₁)
    (h₂ : Tells order slot isOpen phase' phase'' put₂) :
    Tells order slot isOpen phase phase'' (put₁ ++ put₂) := by
  cases h₁ with
  | nothing h₁ => cases h₂ with
    | nothing h₂ => exact .nothing (h₂.trans h₁)
    | report hbefore hafter => exact .report (h₁.symm.trans hbefore) hafter
  | report hbefore hafter => cases h₂ with
    | nothing h₂ =>
      rw [List.append_nil]
      exact .report hbefore (h₂.trans hafter)
    | report hbefore₂ => cases hafter.symm.trans hbefore₂

end Phase.Tells

/-- What a session does to the channel: it puts some reports into it, which are none or its own one. -/
structure Session.Tells (plan : Plan κ) (s : Session κ) (sh : Shared) (s' : Session κ) (sh' : Shared)
    (put : List Report) : Prop where
  slot : s'.slot = s.slot
  isOpen : sh'.channel.isOpen = sh.channel.isOpen
  queue : sh'.channel.queue = sh.channel.queue ++ put
  fits : ∀ places, sh.channel.Fits places → sh'.channel.Fits places
  report : Phase.Tells plan.releaseOrder s.slot sh.channel.isOpen s.phase s'.phase put

namespace Session

variable {plan : Plan κ} {s s' s'' : Session κ} {sh sh' sh'' : Shared} {put₁ put₂ : List Report}

theorem Tells.refl (plan : Plan κ) (s : Session κ) (sh : Shared) : s.Tells plan sh s sh [] :=
  ⟨rfl, rfl, (List.append_nil _).symm, fun _ h => h, .nothing rfl⟩

theorem Tells.trans (h₁ : s.Tells plan sh s' sh' put₁) (h₂ : s'.Tells plan sh' s'' sh'' put₂) :
    s.Tells plan sh s'' sh'' (put₁ ++ put₂) := by
  have hreport := h₂.report
  rw [h₁.slot, h₁.isOpen] at hreport
  refine ⟨h₂.slot.trans h₁.slot, h₂.isOpen.trans h₁.isOpen, ?_,
    fun places h => h₂.fits places (h₁.fits places h), h₁.report.trans hreport⟩
  rw [h₂.queue, h₁.queue, List.append_assoc]

/-- What has not touched the channel has put nothing into it. -/
theorem Tells.of_channel_eq (hslot : s'.slot = s.slot) (hc : sh'.channel = sh.channel)
    (h : s'.phase.reported? plan.releaseOrder = s.phase.reported? plan.releaseOrder) :
    s.Tells plan sh s' sh' [] := by
  refine ⟨hslot, by rw [hc], ?_, fun places hfits => ?_, .nothing h⟩
  · rw [hc, List.append_nil]
  · rw [hc]
    exact hfits

theorem tells_finish {ending : Ending}
    (h : (Phase.ended ending : Phase κ).reported? plan.releaseOrder =
      s.phase.reported? plan.releaseOrder) :
    s.Tells plan sh (s.finish ending sh).1 (s.finish ending sh).2 [] :=
  ⟨rfl, rfl, (List.append_nil _).symm, fun _ hfits => ⟨hfits.capacity, hfits.taken⟩, .nothing h⟩

theorem Attempt.fits {n : Nat} {c : Channel} {sending : Channel.Sending × Channel}
    (h : s.Attempt n c sending) {places : Nat} (hfits : c.Fits places) : sending.2.Fits places := by
  cases h with
  | first => exact hfits.send _
  | again => exact hfits.resume _

theorem Attempt.tells {n : Nat} {sending : Channel.Sending × Channel}
    (h : s.Attempt n sh.channel sending) :
    ∃ put, s.Tells plan sh (s.deliver plan n sending sh).1 (s.deliver plan n sending sh).2 put := by
  have hbefore : s.phase.reported? plan.releaseOrder = none := by
    rcases h.phase with hp | hp
    all_goals
      rw [hp]
      rfl
  have hafter := Phase.reported_afterDelivery (κ := κ) plan.releaseOrder n
  have hfits : ∀ places, sh.channel.Fits places → sending.2.Fits places := fun _ => h.fits
  cases h.sends with
  | sent hopen ho hq =>
    have hput : [⟨s.slot, n⟩] = if sh.channel.isOpen then [(⟨s.slot, n⟩ : Report)] else [] := by
      rw [hopen]
      rfl
    refine ⟨_, rfl, ho.trans hopen.symm, hq, hfits, ?_⟩
    rw [hput]
    exact .report hbefore hafter
  | dropped hopen =>
    have hput : [] = if sh.channel.isOpen then [(⟨s.slot, n⟩ : Report)] else [] := by
      rw [hopen]
      rfl
    refine ⟨_, rfl, rfl, (List.append_nil _).symm, hfits, ?_⟩
    rw [hput]
    exact .report hbefore hafter
  | blocked hopen ho hq =>
    exact ⟨_, rfl, ho.trans hopen.symm, hq.trans (List.append_nil _).symm, hfits,
      .nothing hbefore.symm⟩

theorem Action.tells (h : Action plan s sh s' sh') : ∃ put, s.Tells plan sh s' sh' put := by
  cases h with
  | advance h => exact ⟨[], .of_channel_eq rfl rfl h.reported⟩
  | @finish ending trace h =>
    have hfinish : s.Tells plan { sh with trace } (s.finish ending { sh with trace }).1
      (s.finish ending { sh with trace }).2 [] := tells_finish h.reported
    exact ⟨[], hfinish.slot, hfinish.isOpen, hfinish.queue, hfinish.fits, hfinish.report⟩
  | @release n hp =>
    refine ⟨[], .of_channel_eq rfl rfl ?_⟩
    rw [hp]
    exact Phase.reported_afterRelease _ n
  | deliver h => exact h.tells

/-! ## Chains of actions -/

/-- Actions of one session, with nothing else in between. -/
abbrev Acts (plan : Plan κ) : Session κ × Shared → Session κ × Shared → Prop :=
  Relation.ReflTransGen fun a b => a.1.step plan a.2 = some b

theorem acts_run (plan : Plan κ) (s : Session κ) (sh : Shared) :
    Acts plan (s, sh) (s.run plan sh) := by
  fun_induction Session.run plan s sh with
  | case1 => exact .refl
  | case2 s sh s' sh' hstep => exact .single hstep
  | case3 s sh s' sh' hstep _ ih => exact .head hstep ih

variable {a b : Session κ × Shared}

theorem Acts.evolves (h : Acts plan a b)
    (ht : a.1.holdsToken = a.1.phase.holds plan.releaseOrder) : a.1.Evolves plan a.2 b.1 b.2 := by
  induction h with
  | refl => exact .refl ht _
  | tail _ hstep ih => exact ih.trans (evolves_step hstep ih.tokens)

theorem Acts.tells (h : Acts plan a b) : ∃ put, a.1.Tells plan a.2 b.1 b.2 put := by
  induction h with
  | refl => exact ⟨[], .refl plan _ _⟩
  | tail _ hstep ih =>
    obtain ⟨put₁, h₁⟩ := ih
    obtain ⟨put₂, h₂⟩ := (action_of_step hstep).tells
    exact ⟨put₁ ++ put₂, h₁.trans h₂⟩

/-! ## Sessions at rest -/

end Session

/-- Whether a session may have to wait in this phase, or has ended. -/
def Phase.rests : Phase κ → Bool
  | .releasing _ | .delivering _ | .finishing _ => false
  | _ => true

/-- At rest, a report belongs to a session that has come to its end with it. -/
theorem Phase.eq_of_reported {order : ReleaseOrder} {phase : Phase κ} {n : Nat}
    (hr : phase.rests = true) (h : phase.reported? order = some n) : phase = .ended (.finished n) := by
  cases phase with
  | releasing | finishing => cases hr
  | starting | trading | closing | delivering | queued => cases h
  | ended ending => cases ending with
    | finished => cases h; rfl
    | failed | panicked | aborted => cases h

namespace Session

variable {plan : Plan κ} {s : Session κ} {sh : Shared}

theorem rests_of_stuck (h : s.step plan sh = none) : s.phase.rests = true := by
  cases hp : s.phase with
  | releasing | delivering | finishing =>
    unfold step at h
    rw [hp] at h
    cases h
  | starting | trading | closing | queued | ended => rfl

theorem rests_of_hasYielded (h : s.hasYielded = true) : s.phase.rests = true := by
  unfold hasYielded at h
  split at h
  · next hp =>
    rw [hp]
    rfl
  · cases h

theorem rests_run (plan : Plan κ) (s : Session κ) (sh : Shared) :
    (s.run plan sh).1.phase.rests = true := by
  fun_induction Session.run plan s sh with
  | case1 s sh hstuck => exact rests_of_stuck hstuck
  | case2 s sh s' sh' _ hyielded => exact rests_of_hasYielded hyielded
  | case3 _ _ _ _ _ _ ih => exact ih

/-- A session that has ended stays as it is. -/
theorem run_of_ended {ending : Ending} (h : s.phase = .ended ending) (plan : Plan κ) (sh : Shared) :
    s.run plan sh = (s, sh) := by
  have hstuck : s.step plan sh = none := by
    unfold step
    rw [h]
  rw [run]
  split
  · rfl
  · next hstep => cases hstuck.symm.trans hstep

theorem reported_of_ending {n : Nat} (h : s.ending? = some (.finished n)) (order : ReleaseOrder) :
    s.phase.reported? order = some n := by
  rw [phase_of_ending h]
  rfl

/-- A session that is dropped at rest has no report behind it unless it has ended before. -/
theorem reported_abort (order : ReleaseOrder) (hr : s.phase.rests = true) (sh : Shared) :
    (s.abort sh).1.phase.reported? order = s.phase.reported? order := by
  cases hreported : s.phase.reported? order with
  | some n =>
    have hp := Phase.eq_of_reported hr hreported
    rw [abort, hp]
    exact hreported
  | none =>
    unfold abort
    split
    · exact hreported
    · rfl
    · rfl

theorem rests_abort (s : Session κ) (sh : Shared) : (s.abort sh).1.phase.rests = true := by
  unfold abort
  split
  · next hp =>
    rw [hp]
    rfl
  · rfl
  · rfl

theorem tells_abort (plan : Plan κ) (hr : s.phase.rests = true) (sh : Shared) :
    s.Tells plan sh (s.abort sh).1 (s.abort sh).2 [] := by
  have hreported := reported_abort plan.releaseOrder hr sh
  unfold abort at hreported ⊢
  split at hreported
  · exact .refl plan s sh
  · have habandoned : s.Tells plan sh s { sh with channel := sh.channel.abandon s.slot } [] := by
      refine ⟨rfl, Channel.isOpen_abandon _ _, ?_, fun _ hfits => hfits.abandon _, .nothing rfl⟩
      exact (Channel.queue_abandon _ _).trans (List.append_nil _).symm
    exact habandoned.trans (tells_finish hreported)
  · exact tells_finish hreported

end Session

end EchoLoad
