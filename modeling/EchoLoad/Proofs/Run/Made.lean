import EchoLoad.Run.Basic

/-!
# What one move of a run can do

`Run.step?` taken apart once: `Run.Made s r m r'` lists the moves with what allows them and what
they lead to, and `made_of_step` says that there are no others. A move needs a driver that has not
returned yet. How a run begins is said by `eq_of_begin`.
-/

namespace EchoLoad.Run

variable {κ : Type}

/-- A run begins with an empty pool and with the news that it begins. -/
theorem eq_of_begin {s : Setting κ} {r : Run κ} (h : begin s = .value r) :
    ∃ pool : Pool κ, Pool.empty? s.config.concurrency s.config.reportBuffer = some pool ∧
      r = ({ pool, tally := { target := s.config.targetTotal
                              messageSize := s.workload.fixedSize } } : Run κ).note
        (.runStarted s.config) := by
  unfold begin at h
  split at h
  · cases h
  split at h
  · cases h
  next pool hp =>
    cases h
    exact ⟨pool, hp, rfl⟩

inductive Made (s : Setting κ) (r : Run κ) : Move → Run κ → Prop where
  | launch {slot : Nat} {pool : Pool κ} (h : r.pool.launch? = some (slot, pool)) :
      Made s r .launch { r with pool }
  | refuse (h : r.pool.shared.admission.isOpen = false) :
      Made s r .launch (r.conclude (.error .admissionClosed))
  | act {slot : Nat} {pool : Pool κ} (h : r.pool.step? s.plan slot = some pool) :
      Made s r (.act slot) { r with pool }
  | collect {report : Report} {pool : Pool κ} (ha : r.aggregator = .collecting)
      (h : r.pool.receive? = some (report, pool)) : Made s r .collect (r.collect s report pool)
  | close (ha : r.aggregator = .collecting) (hq : r.pool.shared.channel.queue = [])
      (hs : r.pool.shared.channel.senders = 0) : Made s r .close { r with aggregator := .closed }
  | stop (ha : r.aggregator = .stopped) :
      Made s r .stop ((r.note (.runStopped r.pool.shared.admission.admitted
        r.pool.sessions.length)).conclude (.ok r.tally))
  | giveUp (ha : r.aggregator = .closed) :
      Made s r .stop (r.conclude (.error (.reportsEnded r.tally.total r.tally.target)))
  | leave {slot n : Nat} {x : Session κ} (hx : r.pool.session? slot = some x)
      (he : x.ending? = some (.finished n)) :
      Made s r (.join slot) { r with pool := r.pool.remove slot }
  | fail {slot : Nat} {x : Session κ} {e : Error} (hx : r.pool.session? slot = some x)
      (he : x.ending? = some (.failed e)) :
      Made s r (.join slot) ((r.note (.sessionFailed e)).conclude (.error e))
  | panic {slot : Nat} {x : Session κ} (hx : r.pool.session? slot = some x)
      (he : x.ending? = some .panicked) :
      Made s r (.join slot) (r.conclude (.error .sessionPanicked))

theorem made_of_step {s : Setting κ} {r r' : Run κ} {m : Move} (h : r.step? s m = some r') :
    r.verdict = none ∧ Made s r m r' := by
  unfold step? at h
  split at h
  · cases h
  next hv =>
  refine ⟨by simpa using hv, ?_⟩
  cases m with
  | launch =>
    dsimp only at h
    split at h
    · obtain ⟨⟨slot, pool⟩, hl, heq⟩ := Option.map_eq_some_iff.mp h
      cases heq
      exact .launch hl
    · next hclosed =>
      cases h
      exact .refuse (Bool.eq_false_iff.mpr hclosed)
  | act slot =>
    obtain ⟨pool, hs, heq⟩ := Option.map_eq_some_iff.mp h
    cases heq
    exact .act hs
  | collect =>
    dsimp only at h
    split at h
    · cases h
    · next ha =>
      obtain ⟨⟨report, pool⟩, hr, heq⟩ := Option.map_eq_some_iff.mp h
      cases heq
      exact .collect (Classical.not_not.mp ha) hr
  | close =>
    dsimp only at h
    split at h
    · next hc =>
      cases h
      exact .close hc.1 hc.2.1 hc.2.2
    · cases h
  | stop =>
    dsimp only at h
    split at h
    · cases h
    · next ha =>
      cases h
      exact .stop ha
    · next ha =>
      cases h
      exact .giveUp ha
  | join slot =>
    obtain ⟨x, hx, h⟩ := Option.bind_eq_some_iff.mp h
    obtain ⟨ending, he, h⟩ := Option.bind_eq_some_iff.mp h
    cases ending with
    | finished n =>
      cases h
      exact .leave hx he
    | failed e =>
      cases h
      exact .fail hx he
    | panicked =>
      cases h
      exact .panic hx he
    | aborted => cases h

end EchoLoad.Run
