import EchoLoad.Admission
import EchoLoad.Channel
import EchoLoad.Session.Trips

/-!
# Sessions

A session owns one connection: it dials, makes its round trips, closes, and then frees its slot and
reports its count, in the order that the plan asks for. `Session.step` is one such action; between
two of them any other session may act.

`Session.run` goes on until the session has to wait. It ends because every step lowers
`Phase.rank` (`rank_step`).
-/

namespace EchoLoad

/-- What all sessions of a run have in common. -/
structure Plan (κ : Type) where
  transport : Transport κ
  workload : Workload
  url : String
  origin : String
  releaseOrder : ReleaseOrder

/-- What sessions share and change. -/
structure Shared where
  admission : Admission
  channel : Channel
  trace : Trace
  deriving DecidableEq, Repr

inductive Ending where
  | finished (completed : Nat)
  | failed (e : Error)
  | panicked
  | aborted
  deriving DecidableEq, Repr

inductive Phase (κ : Type) where
  | starting
  /-- Making `planned` round trips. -/
  | trading (planned : Nat) (trips : Trips κ)
  /-- About to close the connection, after all round trips or after a failure. -/
  | closing (planned : Nat) (conn : κ) (failure : Option Error)
  | releasing (completed : Nat)
  | delivering (completed : Nat)
  /-- Waiting for a place for the report. -/
  | queued (completed : Nat)
  | finishing (completed : Nat)
  | ended (ending : Ending)

namespace Phase

def conn? {κ : Type} : Phase κ → Option κ
  | trading _ trips => some trips.conn
  | closing _ conn _ => some conn
  | _ => none

def afterClose {κ : Type} (order : ReleaseOrder) (planned : Nat) : Phase κ :=
  match order with
  | .beforeReport => releasing planned
  | .afterReport => delivering planned

def afterRelease {κ : Type} (order : ReleaseOrder) (completed : Nat) : Phase κ :=
  match order with
  | .beforeReport => delivering completed
  | .afterReport => finishing completed

/-- What follows once the report has been sent or dropped. -/
def afterDelivery {κ : Type} (order : ReleaseOrder) (completed : Nat) : Phase κ :=
  match order with
  | .beforeReport => finishing completed
  | .afterReport => releasing completed

/-- How far the end is: first whether the session has started, then a bound on its steps. -/
def rank {κ : Type} (order : ReleaseOrder) : Phase κ → Nat × Nat
  | starting => (1, 0)
  | trading _ trips => (0, trips.remaining + 9)
  | closing _ _ _ => (0, 8)
  | releasing _ => match order with
    | .beforeReport => (0, 7)
    | .afterReport => (0, 2)
  | delivering _ => (0, 6)
  | queued _ => (0, 5)
  | finishing _ => (0, 1)
  | ended _ => (0, 0)

end Phase

structure Session (κ : Type) where
  slot : Nat
  holdsToken : Bool := true
  phase : Phase κ := .starting

namespace Session

/-- The session ends, and gives back its token if it still holds it. -/
def finish {κ : Type} (s : Session κ) (ending : Ending) (sh : Shared) : Session κ × Shared :=
  ( { s with holdsToken := false, phase := .ended ending },
    { sh with
      admission := if s.holdsToken then sh.admission.release s.slot else sh.admission
      channel := { sh.channel with senders := sh.channel.senders - 1 } } )

/-- Draws the number of round trips and dials. -/
def start {κ : Type} (plan : Plan κ) (s : Session κ) (sh : Shared) :
    Option (Session κ × Shared) :=
  let t := sh.trace
  let planned := plan.workload.count t.countDraws
  let trace := { t with countDraws := t.countDraws + 1, dials := t.dials + 1 }.call s.slot
    (.dial plan.url plan.origin)
  let sh := { sh with trace }
  match plan.transport.dial t.dials plan.url plan.origin with
  | .value conn =>
    some ({ s with phase := .trading planned { conn, left := planned } }, sh)
  | .error e => some (s.finish (.failed e) sh)
  | .waiting => none
  | .panicked => some (s.finish .panicked sh)

/-- Makes the next call of the round trips. -/
def trade {κ : Type} (plan : Plan κ) (s : Session κ) (planned : Nat) (trips : Trips κ)
    (sh : Shared) : Option (Session κ × Shared) :=
  match Trips.step plan.transport plan.workload s.slot trips sh.trace with
  | (.going trips, trace) =>
    some ({ s with phase := .trading planned trips }, { sh with trace })
  | (.finished conn, trace) =>
    some ({ s with phase := .closing planned conn none }, { sh with trace })
  | (.failed e conn, trace) =>
    some ({ s with phase := .closing planned conn (some e) }, { sh with trace })
  | (.panicked, trace) => some (s.finish .panicked { sh with trace })
  | (.stuck, _) => none

/-- Closes the connection. A failing close is noted and does no harm. -/
def close {κ : Type} (plan : Plan κ) (s : Session κ) (planned : Nat) (conn : κ)
    (failure : Option Error) (sh : Shared) : Option (Session κ × Shared) :=
  let trace := sh.trace.call s.slot .close
  let next (trace : Trace) : Option (Session κ × Shared) :=
    match failure with
    | some e => some (s.finish (.failed e) { sh with trace })
    | none =>
      some ({ s with phase := .afterClose plan.releaseOrder planned }, { sh with trace })
  match (plan.transport.close conn).1 with
  | .value () => next trace
  | .error e => next (trace.note (.closeFailed s.slot e))
  | .waiting => none
  | .panicked => some (s.finish .panicked { sh with trace })

/-- Goes on from an attempt to send the report. -/
def deliver {κ : Type} (plan : Plan κ) (s : Session κ) (completed : Nat)
    (sending : Channel.Sending × Channel) (sh : Shared) : Session κ × Shared :=
  let sh := { sh with channel := sending.2 }
  match sending.1 with
  | .sent => ({ s with phase := .afterDelivery plan.releaseOrder completed }, sh)
  | .dropped =>
    ( { s with phase := .afterDelivery plan.releaseOrder completed },
      { sh with trace := sh.trace.note (.reportDropped s.slot) } )
  | .blocked => ({ s with phase := .queued completed }, sh)

/-- Whether the session waits for a place that is not there yet. -/
def isBlocked {κ : Type} (s : Session κ) (c : Channel) : Bool :=
  match s.phase with
  | .queued _ => c.isOpen && !(s.slot ∈ c.reserved)
  | _ => false

/-- The next action of a session, if it can act. -/
def step {κ : Type} (plan : Plan κ) (s : Session κ) (sh : Shared) :
    Option (Session κ × Shared) :=
  match s.phase with
  | .starting => s.start plan sh
  | .trading planned trips => s.trade plan planned trips sh
  | .closing planned conn failure => s.close plan planned conn failure sh
  | .releasing completed =>
    some ( { s with holdsToken := false, phase := .afterRelease plan.releaseOrder completed },
      { sh with admission := sh.admission.release s.slot } )
  | .delivering completed =>
    some (s.deliver plan completed (sh.channel.send ⟨s.slot, completed⟩) sh)
  | .queued completed =>
    if s.isBlocked sh.channel then none
    else some (s.deliver plan completed (sh.channel.resume ⟨s.slot, completed⟩) sh)
  | .finishing completed =>
    let sh := { sh with trace := sh.trace.note (.sessionFinished s.slot completed) }
    some (s.finish (.finished completed) sh)
  | .ended _ => none

/-- Whether the session has just let the others go first. -/
def hasYielded {κ : Type} (s : Session κ) : Bool :=
  match s.phase with
  | .trading _ trips => match trips.stage with
    | .awaitReply _ => true
    | _ => false
  | _ => false

/-- Lowers the rank in the lexicographic order. -/
def Lower (a b : Nat × Nat) : Prop := Prod.Lex (· < ·) (· < ·) a b

theorem lower_of_snd {a b c : Nat} (h : b < c) : Lower (a, b) (a, c) := Prod.Lex.right a h

theorem rank_start {κ : Type} {plan : Plan κ} {s s' : Session κ} {sh sh' : Shared}
    (h : s.start plan sh = some (s', sh')) : (s'.phase.rank plan.releaseOrder).1 = 0 := by
  unfold start at h
  dsimp only at h
  split at h
  · cases h
    rfl
  · cases h
    rfl
  · cases h
  · cases h
    rfl

theorem rank_trade {κ : Type} {plan : Plan κ} {s s' : Session κ} {planned : Nat}
    {trips : Trips κ} {sh sh' : Shared} (h : s.trade plan planned trips sh = some (s', sh')) :
    Lower (s'.phase.rank plan.releaseOrder) (0, trips.remaining + 9) := by
  unfold trade at h
  split at h
  · next hs =>
    cases h
    have := Trips.remaining_step hs
    exact lower_of_snd (by omega)
  · cases h
    exact lower_of_snd (by omega)
  · cases h
    exact lower_of_snd (by omega)
  · cases h
    exact lower_of_snd (by omega)
  · cases h

theorem rank_afterClose {κ : Type} (order : ReleaseOrder) (n : Nat) :
    Lower ((Phase.afterClose order n : Phase κ).rank order) (0, 8) := by
  cases order <;> exact lower_of_snd (by decide)

theorem rank_close {κ : Type} {plan : Plan κ} {s s' : Session κ} {planned : Nat} {conn : κ}
    {failure : Option Error} {sh sh' : Shared}
    (h : s.close plan planned conn failure sh = some (s', sh')) :
    Lower (s'.phase.rank plan.releaseOrder) (0, 8) := by
  unfold close at h
  dsimp only at h
  split at h
  · cases failure with
    | none =>
      cases h
      exact rank_afterClose _ _
    | some e =>
      cases h
      exact lower_of_snd (by decide)
  · cases failure with
    | none =>
      cases h
      exact rank_afterClose _ _
    | some e =>
      cases h
      exact lower_of_snd (by decide)
  · cases h
  · cases h
    exact lower_of_snd (by decide)

theorem rank_afterDelivery {κ : Type} (order : ReleaseOrder) (n : Nat) :
    Lower ((Phase.afterDelivery order n : Phase κ).rank order) (0, 5) := by
  cases order <;> exact lower_of_snd (by decide)

theorem rank_deliver {κ : Type} {plan : Plan κ} {s : Session κ} {n : Nat}
    {sending : Channel.Sending × Channel} {sh : Shared} (h : sending.1 ≠ .blocked) :
    Lower ((s.deliver plan n sending sh).1.phase.rank plan.releaseOrder) (0, 5) := by
  obtain ⟨outcome, channel⟩ := sending
  cases outcome with
  | sent => exact rank_afterDelivery plan.releaseOrder n
  | dropped => exact rank_afterDelivery plan.releaseOrder n
  | blocked => exact absurd rfl h

theorem rank_deliver_of_send {κ : Type} {plan : Plan κ} {s : Session κ} {n : Nat}
    {sending : Channel.Sending × Channel} {sh : Shared} :
    Lower ((s.deliver plan n sending sh).1.phase.rank plan.releaseOrder) (0, 6) := by
  obtain ⟨outcome, channel⟩ := sending
  cases outcome with
  | blocked => exact lower_of_snd (by decide)
  | sent | dropped =>
    unfold deliver Phase.afterDelivery
    cases plan.releaseOrder <;> exact lower_of_snd (by decide)

theorem resume_ne_blocked {κ : Type} {s : Session κ} {c : Channel} {n : Nat}
    (hp : s.phase = .queued n) (h : ¬s.isBlocked c = true) :
    (c.resume ⟨s.slot, n⟩).1 ≠ .blocked := by
  simp only [isBlocked, hp, Bool.and_eq_true, Bool.not_eq_true', decide_eq_false_iff_not,
    not_and, Classical.not_not] at h
  unfold Channel.resume
  cases hc : c.isOpen with
  | false => simp
  | true => simp [h hc]

/-- Every action brings the session nearer to its end. -/
theorem rank_step {κ : Type} {plan : Plan κ} {s s' : Session κ} {sh sh' : Shared}
    (h : s.step plan sh = some (s', sh')) :
    Lower (s'.phase.rank plan.releaseOrder) (s.phase.rank plan.releaseOrder) := by
  unfold step at h
  split at h
  · next hp =>
    rw [hp]
    have h0 := rank_start h
    cases hr : s'.phase.rank plan.releaseOrder with
    | mk a b =>
      rw [hr] at h0
      exact Prod.Lex.left _ _ (by simp only at h0; omega)
  · next hp =>
    rw [hp]
    exact rank_trade h
  · next hp =>
    rw [hp]
    exact rank_close h
  · next hp =>
    rw [hp]
    cases h
    unfold Phase.afterRelease
    simp only [Phase.rank]
    cases plan.releaseOrder <;> exact lower_of_snd (by decide)
  · next n hp =>
    rw [hp, ← (Prod.mk.inj (Option.some.inj h)).1]
    exact rank_deliver_of_send
  · next n hp =>
    split at h
    · cases h
    · next hb =>
      rw [hp, ← (Prod.mk.inj (Option.some.inj h)).1]
      exact rank_deliver (resume_ne_blocked hp hb)
  · next hp =>
    rw [hp]
    cases h
    exact lower_of_snd (by decide)
  · cases h

/-- Acts until the session ends, waits for a place, or lets the others go first. -/
def run {κ : Type} (plan : Plan κ) (s : Session κ) (sh : Shared) : Session κ × Shared :=
  match _h : s.step plan sh with
  | none => (s, sh)
  | some (s', sh') => if s'.hasYielded then (s', sh') else run plan s' sh'
termination_by s.phase.rank plan.releaseOrder
decreasing_by exact rank_step _h

/-- The session is dropped where it is: its turn for a place and its token are given back. -/
def abort {κ : Type} (s : Session κ) (sh : Shared) : Session κ × Shared :=
  match s.phase with
  | .ended _ => (s, sh)
  | .queued _ => s.finish .aborted { sh with channel := sh.channel.abandon s.slot }
  | _ => s.finish .aborted sh

def ending? {κ : Type} (s : Session κ) : Option Ending :=
  match s.phase with
  | .ended ending => some ending
  | _ => none

end Session

end EchoLoad
