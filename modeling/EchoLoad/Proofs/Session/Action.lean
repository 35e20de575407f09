import EchoLoad.Session.Basic

/-!
# What one action of a session can do

`Session.step` taken apart once, so that no proof about sessions has to follow its branches. There
are four kinds of actions (`Session.Action`): the session goes on with its work, it ends, it frees
its slot, or it tries to send its report. Only the last two touch what sessions compete for. The
work of a session up to the close of its connection is described by `Phase.Advance`, and the ways in
which a session ends by `Phase.Finish`; both speak of the phase and the trace alone.

`Session.action_of_step`: every action is of one of these kinds.
-/

namespace EchoLoad

/-- The trace after a session has drawn its round trips and dialed. -/
def Plan.dialed {κ : Type} (plan : Plan κ) (slot : Nat) (t : Trace) : Trace :=
  { t with countDraws := t.countDraws + 1, dials := t.dials + 1 }.call slot
    (.dial plan.url plan.origin)

/-- The session goes on with its work. -/
inductive Phase.Advance {κ : Type} (plan : Plan κ) (slot : Nat) :
    Phase κ → Trace → Phase κ → Trace → Prop where
  | dial {t : Trace} {conn : κ} {planned : Nat} (hplanned : plan.workload.count t.countDraws = planned)
      (h : plan.transport.dial t.dials plan.url plan.origin = .value conn) :
      Advance plan slot .starting t (.trading planned { conn, left := planned })
        (plan.dialed slot t)
  | trade {t t' : Trace} {planned : Nat} {trips trips' : Trips κ}
      (h : Trips.step plan.transport plan.workload slot trips t = (.going trips', t')) :
      Advance plan slot (.trading planned trips) t (.trading planned trips') t'
  | complete {t t' : Trace} {planned : Nat} {trips : Trips κ} {conn : κ}
      (h : Trips.step plan.transport plan.workload slot trips t = (.finished conn, t')) :
      Advance plan slot (.trading planned trips) t (.closing planned conn none) t'
  | fail {t t' : Trace} {planned : Nat} {trips : Trips κ} {e : Error} {conn : κ}
      (h : Trips.step plan.transport plan.workload slot trips t = (.failed e conn, t')) :
      Advance plan slot (.trading planned trips) t (.closing planned conn (some e)) t'
  | close {t : Trace} {planned : Nat} {conn : κ} (h : (plan.transport.close conn).1 = .value ()) :
      Advance plan slot (.closing planned conn none) t (.afterClose plan.releaseOrder planned)
        (t.call slot .close)
  | closeFailed {t : Trace} {planned : Nat} {conn : κ} {e : Error}
      (h : (plan.transport.close conn).1 = .error e) :
      Advance plan slot (.closing planned conn none) t (.afterClose plan.releaseOrder planned)
        ((t.call slot .close).note (.closeFailed slot e))

/-- The session ends. -/
inductive Phase.Finish {κ : Type} (plan : Plan κ) (slot : Nat) :
    Phase κ → Trace → Ending → Trace → Prop where
  | dialFailed {t : Trace} {e : Error}
      (h : plan.transport.dial t.dials plan.url plan.origin = .error e) :
      Finish plan slot .starting t (.failed e) (plan.dialed slot t)
  | dialPanicked {t : Trace}
      (h : plan.transport.dial t.dials plan.url plan.origin = .panicked) :
      Finish plan slot .starting t .panicked (plan.dialed slot t)
  | tripsPanicked {t t' : Trace} {planned : Nat} {trips : Trips κ}
      (h : Trips.step plan.transport plan.workload slot trips t = (.panicked, t')) :
      Finish plan slot (.trading planned trips) t .panicked t'
  | closed {t : Trace} {planned : Nat} {conn : κ} {failure : Error}
      (h : (plan.transport.close conn).1 = .value ()) :
      Finish plan slot (.closing planned conn (some failure)) t (.failed failure)
        (t.call slot .close)
  | closeFailed {t : Trace} {planned : Nat} {conn : κ} {failure e : Error}
      (h : (plan.transport.close conn).1 = .error e) :
      Finish plan slot (.closing planned conn (some failure)) t (.failed failure)
        ((t.call slot .close).note (.closeFailed slot e))
  | closePanicked {t : Trace} {planned : Nat} {conn : κ} {failure : Option Error}
      (h : (plan.transport.close conn).1 = .panicked) :
      Finish plan slot (.closing planned conn failure) t .panicked (t.call slot .close)
  | done {t : Trace} {n : Nat} :
      Finish plan slot (.finishing n) t (.finished n) (t.note (.sessionFinished slot n))

namespace Session

variable {κ : Type} {plan : Plan κ} {s s' : Session κ} {sh sh' : Shared}

theorem phase_of_ending {ending : Ending} (h : s.ending? = some ending) :
    s.phase = .ended ending := by
  unfold ending? at h
  split at h
  · next hp =>
    cases h
    exact hp
  · cases h

/-- The session is about to send its report, or finds the place that it has waited for; `sending` is
what the channel makes of it. -/
inductive Attempt (s : Session κ) (n : Nat) (c : Channel) : Channel.Sending × Channel → Prop where
  | first (h : s.phase = .delivering n) : Attempt s n c (c.send ⟨s.slot, n⟩)
  | again (h : s.phase = .queued n) (hb : s.isBlocked c = false) :
      Attempt s n c (c.resume ⟨s.slot, n⟩)

theorem Attempt.phase {n : Nat} {c : Channel} {sending : Channel.Sending × Channel}
    (h : s.Attempt n c sending) : s.phase = .delivering n ∨ s.phase = .queued n := by
  cases h with
  | first hp => exact .inl hp
  | again hp => exact .inr hp

/-- The four kinds of actions. -/
inductive Action (plan : Plan κ) (s : Session κ) (sh : Shared) : Session κ → Shared → Prop where
  | advance {phase : Phase κ} {trace : Trace}
      (h : Phase.Advance plan s.slot s.phase sh.trace phase trace) :
      Action plan s sh { s with phase } { sh with trace }
  | finish {ending : Ending} {trace : Trace}
      (h : Phase.Finish plan s.slot s.phase sh.trace ending trace) :
      Action plan s sh (s.finish ending { sh with trace }).1 (s.finish ending { sh with trace }).2
  | release {n : Nat} (h : s.phase = .releasing n) :
      Action plan s sh
        { s with holdsToken := false, phase := .afterRelease plan.releaseOrder n }
        { sh with admission := sh.admission.release s.slot }
  | deliver {n : Nat} {sending : Channel.Sending × Channel} (h : s.Attempt n sh.channel sending) :
      Action plan s sh (s.deliver plan n sending sh).1 (s.deliver plan n sending sh).2

theorem action_of_start (hp : s.phase = .starting) (h : s.start plan sh = some (s', sh')) :
    Action plan s sh s' sh' := by
  unfold start at h
  dsimp only at h
  split at h
  · next hd =>
    cases h
    exact .advance (hp ▸ .dial rfl hd)
  · next hd =>
    cases h
    exact .finish (hp ▸ .dialFailed hd)
  · cases h
  · next hd =>
    cases h
    exact .finish (hp ▸ .dialPanicked hd)

theorem action_of_trade {planned : Nat} {trips : Trips κ} (hp : s.phase = .trading planned trips)
    (h : s.trade plan planned trips sh = some (s', sh')) : Action plan s sh s' sh' := by
  unfold trade at h
  split at h
  · next ht =>
    cases h
    exact .advance (hp ▸ .trade ht)
  · next ht =>
    cases h
    exact .advance (hp ▸ .complete ht)
  · next ht =>
    cases h
    exact .advance (hp ▸ .fail ht)
  · next ht =>
    cases h
    exact .finish (hp ▸ .tripsPanicked ht)
  · cases h

theorem action_of_close {planned : Nat} {conn : κ} {failure : Option Error}
    (hp : s.phase = .closing planned conn failure)
    (h : s.close plan planned conn failure sh = some (s', sh')) : Action plan s sh s' sh' := by
  unfold close at h
  dsimp only at h
  split at h
  · next hc =>
    cases failure with
    | none =>
      cases h
      exact .advance (hp ▸ .close hc)
    | some e =>
      cases h
      exact .finish (hp ▸ .closed hc)
  · next hc =>
    cases failure with
    | none =>
      cases h
      exact .advance (hp ▸ .closeFailed hc)
    | some e =>
      cases h
      exact .finish (hp ▸ .closeFailed hc)
  · cases h
  · next hc =>
    cases h
    exact .finish (hp ▸ .closePanicked hc)

theorem action_of_deliver {n : Nat} {sending : Channel.Sending × Channel}
    (ha : s.Attempt n sh.channel sending)
    (h : some (s.deliver plan n sending sh) = some (s', sh')) : Action plan s sh s' sh' := by
  have hpair := Option.some.inj h
  have hs : (s.deliver plan n sending sh).1 = s' := congrArg Prod.fst hpair
  have hsh : (s.deliver plan n sending sh).2 = sh' := congrArg Prod.snd hpair
  rw [← hs, ← hsh]
  exact .deliver ha

/-- Every action is of one of the four kinds. -/
theorem action_of_step (h : s.step plan sh = some (s', sh')) : Action plan s sh s' sh' := by
  unfold step at h
  split at h
  · next hp => exact action_of_start hp h
  · next hp => exact action_of_trade hp h
  · next hp => exact action_of_close hp h
  · next hp =>
    cases h
    exact .release hp
  · next hp => exact action_of_deliver (.first hp) h
  · next hp =>
    split at h
    · cases h
    · next hb => exact action_of_deliver (.again hp (Bool.eq_false_iff.mpr hb)) h
  · next hp =>
    cases h
    exact .finish (hp ▸ .done)
  · cases h

end Session

end EchoLoad
