import EchoLoad.Session.Pool
import EchoLoad.Summary

/-!
# Runs

A run has three actors: the driver, which lets sessions in and waits for them; the sessions; and the
aggregator, which adds up their reports and gives the signal to stop. `Run.step?` is one move of one
actor. Nothing here says which move comes next: `Run.Reachable` allows any order.
-/

namespace EchoLoad

inductive Run.Aggregator where
  | collecting
  /-- The target has been exceeded. -/
  | stopped
  /-- All senders went away before. -/
  | closed
  deriving DecidableEq, Repr

structure Run (κ : Type) where
  pool : Pool κ
  tally : Tally
  aggregator : Run.Aggregator := .collecting
  /-- What the driver returns, once it does. -/
  verdict : Option (Except Error Tally) := none

namespace Run

inductive Move where
  | launch
  /-- The session in this slot acts. -/
  | act (slot : Nat)
  | collect
  | close
  /-- The driver sees that the aggregator has ended. -/
  | stop
  /-- The driver sees that the session in this slot has ended. -/
  | join (slot : Nat)
  deriving DecidableEq, Repr

def note {κ : Type} (r : Run κ) (e : Event) : Run κ :=
  let shared := r.pool.shared
  { r with pool := { r.pool with shared := { shared with trace := shared.trace.note e } } }

def conclude {κ : Type} (r : Run κ) (v : Except Error Tally) : Run κ :=
  { r with verdict := some v }

/-- What a run is about. -/
structure Setting (κ : Type) where
  config : Config
  transport : Transport κ
  workload : Workload
  /-- The time that has passed when the target is exceeded. -/
  elapsed : Elapsed
  /-- Reads the URL when the configuration is checked. -/
  reader : Url.Reader := Url.parse

def Setting.plan {κ : Type} (s : Setting κ) : Plan κ :=
  { transport := s.transport
    workload := s.workload
    url := s.config.url
    origin := s.config.origin
    releaseOrder := s.config.releaseOrder }

/-- The start of a run. The configuration is checked first; what it asks for beyond that may still
be more than can be set up. -/
def begin {κ : Type} (s : Setting κ) : Outcome (Run κ) :=
  match s.config.check s.reader with
  | .error d => .error (.config d)
  | .ok () => match Pool.empty? s.config.concurrency s.config.reportBuffer with
    | none => .panicked
    | some pool =>
      let tally : Tally := { target := s.config.targetTotal, messageSize := s.workload.fixedSize }
      .value ({ pool, tally : Run κ }.note (.runStarted s.config))

/-- The aggregator collects a report, and stops receiving if the target is exceeded by it. -/
def collect {κ : Type} (s : Setting κ) (r : Run κ) (report : Report) (pool : Pool κ) : Run κ :=
  let tally := r.tally.add report.completed
  if tally.exceeded then
    let summary := Summary.ofTally tally s.elapsed
    { r with pool := pool.dropReceiver, tally, aggregator := .stopped }.note
      (.targetExceeded summary.target summary.completed s.elapsed.milliseconds summary.text)
  else { r with pool, tally }

/-- The driver learns how a session has ended. -/
def join {κ : Type} (r : Run κ) (slot : Nat) : Ending → Option (Run κ)
  | .finished _ => some { r with pool := r.pool.remove slot }
  | .failed e => some ((r.note (.sessionFailed e)).conclude (.error e))
  | .panicked => some (r.conclude (.error .sessionPanicked))
  | .aborted => none

/-- One move, if it can be made. Nothing moves once the driver has returned. -/
def step? {κ : Type} (s : Setting κ) (r : Run κ) (m : Move) : Option (Run κ) :=
  if r.verdict.isSome then none
  else match m with
    | .launch =>
      if r.pool.shared.admission.isOpen then r.pool.launch?.map fun (_, pool) => { r with pool }
      else some (r.conclude (.error .admissionClosed))
    | .act slot => (r.pool.step? s.plan slot).map fun pool => { r with pool }
    | .collect =>
      if r.aggregator ≠ .collecting then none
      else r.pool.receive?.map fun (report, pool) => r.collect s report pool
    | .close =>
      let channel := r.pool.shared.channel
      if r.aggregator = .collecting ∧ channel.queue = [] ∧ channel.senders = 0 then
        some { r with aggregator := .closed }
      else none
    | .stop => match r.aggregator with
      | .collecting => none
      | .stopped =>
        let e := Event.runStopped r.pool.shared.admission.admitted r.pool.sessions.length
        some ((r.note e).conclude (.ok r.tally))
      | .closed =>
        some (r.conclude (.error (.reportsEnded r.tally.total r.tally.target)))
    | .join slot => (r.pool.session? slot).bind fun session =>
      session.ending?.bind (r.join slot)

/-- The states that a run can come to, whatever the order of the moves. -/
inductive Reachable {κ : Type} (s : Setting κ) : Run κ → Prop where
  | begin {r : Run κ} (h : Run.begin s = .value r) : Reachable s r
  | step {r r' : Run κ} (m : Move) (h : Reachable s r) (hs : r.step? s m = some r') :
    Reachable s r'

end Run

end EchoLoad
