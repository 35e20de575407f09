import EchoLoad.Proofs.Session.Calls

/-!
# What the phase of a session tells about its calls

The phase of a session and the trace go together (`Phase.Story`): a session that is about to start
has called nothing; one that makes round trips has dialed and has made pairs of a write and a read,
all of which have succeeded; one that is past its close has made all the pairs that were planned for
it and has closed its connection (`Completed`); one that has failed shows which call has failed
(`Failed`). Every action of the session keeps this
(`Phase.Advance.story`, `Phase.Finish.story`), and so does every action of another one
(`Phase.Story.frame`).
-/

namespace EchoLoad

variable {κ : Type}

/-- The session in a slot has dialed with this outcome, has drawn `planned` round trips at the
position of this dial among all dials, and has made these calls since. -/
structure Dialed (plan : Plan κ) (slot planned : Nat) (outcome : Outcome κ) (calls : List Call)
    (t : Trace) : Prop where
  dialed : ∃ later earlier, t.calls = later ++ (slot, .dial plan.url plan.origin) :: earlier ∧
    plan.workload.count (Trace.dialsIn earlier) = planned ∧
    plan.transport.dial (Trace.dialsIn earlier) plan.url plan.origin = outcome
  calls : t.callsOf slot = calls ++ [.dial plan.url plan.origin]

abbrev Opened (plan : Plan κ) (slot planned : Nat) (conn : κ) : List Call → Trace → Prop :=
  Dialed plan slot planned (.value conn)

/-- So many pairs of a write and a read, newest first, lead from the connection `first` to `last`
without an error. -/
inductive Traded (plan : Plan κ) (first : κ) : List Call → Nat → κ → Prop where
  | none : Traded plan first [] 0 first
  | pair {calls : List Call} {n written got : Nat} {message : Bytes} {conn conn' last : κ}
      (h : Traded plan first calls n conn)
      (hw : plan.transport.write conn message = (.value written, conn'))
      (hr : plan.transport.read conn' plan.workload.readBuffer = (.value got, last)) :
      Traded plan first (.read plan.workload.readBuffer :: .write message :: calls) (n + 1) last

/-- After so many pairs a write or a read has failed. -/
inductive Broken (plan : Plan κ) (first : κ) (n : Nat) (e : Error) : List Call → κ → Prop where
  | write {calls : List Call} {message : Bytes} {conn last : κ} (h : Traded plan first calls n conn)
      (hw : plan.transport.write conn message = (.error e, last)) :
      Broken plan first n e (.write message :: calls) last
  | read {calls : List Call} {written : Nat} {message : Bytes} {conn conn' last : κ}
      (h : Traded plan first calls n conn)
      (hw : plan.transport.write conn message = (.value written, conn'))
      (hr : plan.transport.read conn' plan.workload.readBuffer = (.error e, last)) :
      Broken plan first n e (.read plan.workload.readBuffer :: .write message :: calls) last

/-- The session in a slot has made all of its round trips, `n` in number and none with an error, and
has then closed its connection, with or without an error. -/
def Completed (plan : Plan κ) (slot n : Nat) (t : Trace) : Prop :=
  ∃ first calls last, Opened plan slot n first (.close :: calls) t ∧ Traded plan first calls n last ∧
    ((plan.transport.close last).1 = .value () ∨ ∃ e, (plan.transport.close last).1 = .error e)

/-- The session in a slot has got no connection, or has failed before it had made all of its round
trips and has then closed its connection, with or without an error. -/
def Failed (plan : Plan κ) (slot : Nat) (e : Error) (t : Trace) : Prop :=
  (∃ planned, Dialed plan slot planned (.error e) [] t) ∨
    ∃ planned first calls n last, n < planned ∧
      Opened plan slot planned first (.close :: calls) t ∧ Broken plan first n e calls last ∧
      ((plan.transport.close last).1 = .value () ∨ ∃ e', (plan.transport.close last).1 = .error e')

/-- Where a session stands that makes round trips. -/
inductive Trips.Story (plan : Plan κ) (slot planned : Nat) (t : Trace) : Trips κ → Prop where
  | write {first conn : κ} {calls : List Call} {n left : Nat}
      (ho : Opened plan slot planned first calls t) (h : Traded plan first calls n conn)
      (hn : n + left = planned) : Story plan slot planned t ⟨conn, left, .write⟩
  | read {first conn conn' : κ} {calls : List Call} {n left written : Nat} {message : Bytes}
      (ho : Opened plan slot planned first (.write message :: calls) t)
      (h : Traded plan first calls n conn)
      (hw : plan.transport.write conn message = (.value written, conn'))
      (hn : n + 1 + left = planned) : Story plan slot planned t ⟨conn', left, .read written⟩
  | awaitReply {first conn conn' : κ} {calls : List Call} {n left written : Nat} {message : Bytes}
      (ho : Opened plan slot planned first
        (.read plan.workload.readBuffer :: .write message :: calls) t)
      (h : Traded plan first calls n conn)
      (hw : plan.transport.write conn message = (.value written, conn'))
      (hn : n + 1 + left = planned) : Story plan slot planned t ⟨conn', left, .awaitReply written⟩

/-- What the calls of a session have been when it is in a phase. -/
def Phase.Story (plan : Plan κ) (slot : Nat) (t : Trace) : Phase κ → Prop
  | .starting => t.callsOf slot = []
  | .trading planned trips => trips.Story plan slot planned t
  | .closing planned conn none => ∃ first calls, Opened plan slot planned first calls t ∧
      Traded plan first calls planned conn
  | .closing planned conn (some e) => ∃ first calls n, n < planned ∧
      Opened plan slot planned first calls t ∧ Broken plan first n e calls conn
  | .releasing n | .delivering n | .queued n | .finishing n | .ended (.finished n) =>
      Completed plan slot n t
  | .ended (.failed e) => Failed plan slot e t
  | .ended .panicked | .ended .aborted => True

/-! ## Actions of the session itself -/

namespace Dialed

variable {plan : Plan κ} {slot planned : Nat} {outcome : Outcome κ} {calls : List Call} {t : Trace}

theorem call (h : Dialed plan slot planned outcome calls t) (c : Call) :
    Dialed plan slot planned outcome (c :: calls) (t.call slot c) := by
  obtain ⟨later, earlier, hcalls, hplanned, hdial⟩ := h.dialed
  refine ⟨⟨(slot, c) :: later, earlier, ?_, hplanned, hdial⟩, ?_⟩
  · show (slot, c) :: t.calls = _
    rw [hcalls, List.cons_append]
  · rw [Trace.callsOf_call, h.calls, List.cons_append]

/-- What is noted or drawn is no call. -/
theorem of_calls_eq {t' : Trace} (h : Dialed plan slot planned outcome calls t)
    (ht : t'.calls = t.calls) : Dialed plan slot planned outcome calls t' := by
  have hcalls : t'.callsOf slot = t.callsOf slot := by rw [Trace.callsOf, ht, Trace.callsOf]
  exact ⟨ht ▸ h.dialed, hcalls.trans h.calls⟩

theorem frame {other : Nat} {t' : Trace} (h : Dialed plan slot planned outcome calls t)
    (hg : t.Grows other t') (hne : other ≠ slot) : Dialed plan slot planned outcome calls t' := by
  obtain ⟨later, earlier, hcalls, hplanned, hdial⟩ := h.dialed
  obtain ⟨more, hmore⟩ := hg.calls
  refine ⟨⟨more.map (other, ·) ++ later, earlier, ?_, hplanned, hdial⟩, ?_⟩
  · rw [hmore, hcalls, List.append_assoc]
  · rw [hg.callsOf_of_ne hne, h.calls]

end Dialed

theorem Completed.of_calls_eq {plan : Plan κ} {slot n : Nat} {t t' : Trace}
    (h : Completed plan slot n t) (ht : t'.calls = t.calls) : Completed plan slot n t' := by
  obtain ⟨first, calls, last, ho, hrest⟩ := h
  exact ⟨first, calls, last, ho.of_calls_eq ht, hrest⟩

theorem dialed_of_dial {plan : Plan κ} {slot planned : Nat} {outcome : Outcome κ} {t : Trace}
    (hc : t.Counted) (hnone : t.callsOf slot = [])
    (hplanned : plan.workload.count t.countDraws = planned)
    (hd : plan.transport.dial t.dials plan.url plan.origin = outcome) :
    Dialed plan slot planned outcome [] (plan.dialed slot t) := by
  rw [hc.draws] at hplanned
  rw [hc.dials] at hd
  refine ⟨⟨[], t.calls, rfl, hplanned, hd⟩, ?_⟩
  rw [Plan.dialed, Trace.callsOf_call]
  exact congrArg _ hnone

/-- Where a session stands after a step of its round trips. -/
def Trips.Progress.Story (plan : Plan κ) (slot planned : Nat) (t : Trace) : Progress κ → Prop
  | .going trips => (Phase.trading planned trips).Story plan slot t
  | .finished conn => (Phase.closing planned conn none).Story plan slot t
  | .failed e conn => (Phase.closing planned conn (some e)).Story plan slot t
  | .panicked | .stuck => True

theorem Trips.story_reply {plan : Plan κ} {slot planned n left written : Nat} {first conn conn' : κ}
    {calls : List Call} {message : Bytes} {t t' : Trace} {progress : Progress κ}
    (ho : Opened plan slot planned first
      (.read plan.workload.readBuffer :: .write message :: calls) t)
    (ht : Traded plan first calls n conn)
    (hw : plan.transport.write conn message = (.value written, conn'))
    (hn : n + 1 + left = planned)
    (h : reply plan.transport plan.workload slot written left conn' t = (progress, t')) :
    progress.Story plan slot planned t' := by
  unfold reply at h
  split at h
  · next hr =>
    cases h
    refine .write (ho.of_calls_eq ?_) (.pair ht hw hr) hn
    split <;> rfl
  · next hr =>
    cases h
    exact ⟨first, _, n, by omega, ho, .read ht hw hr⟩
  · cases h
    trivial
  · cases h
    trivial

theorem Trips.Story.step {plan : Plan κ} {slot planned : Nat} {trips : Trips κ} {t t' : Trace}
    {progress : Progress κ} (hs : trips.Story plan slot planned t)
    (h : Trips.step plan.transport plan.workload slot trips t = (progress, t')) :
    progress.Story plan slot planned t' := by
  cases hs with
  | @write first conn calls n left ho ht hn =>
    unfold Trips.step at h
    dsimp only at h
    split at h
    · cases h
      trivial
    split at h
    · cases h
      rw [Nat.add_zero] at hn
      subst hn
      exact ⟨_, _, ho, ht⟩
    split at h
    · cases h
      trivial
    have hsized : Opened plan slot planned first calls { t with sizeDraws := t.sizeDraws + 1 } :=
      ho.of_calls_eq rfl
    split at h
    · next hw =>
      cases h
      exact .read (hsized.call _) ht hw (by omega)
    · next hw =>
      cases h
      exact ⟨_, _, _, by omega, hsized.call _, .write ht hw⟩
    · cases h
      trivial
    · cases h
      trivial
  | read ho ht hw hn =>
    unfold Trips.step at h
    dsimp only at h
    split at h
    · cases h
      exact .awaitReply (ho.call _) ht hw hn
    · exact story_reply (ho.call _) ht hw hn h
  | awaitReply ho ht hw hn => exact story_reply ho ht hw hn h

theorem Phase.story_afterClose {plan : Plan κ} {slot n : Nat} {t : Trace}
    (h : Completed plan slot n t) (order : ReleaseOrder) :
    (Phase.afterClose order n).Story plan slot t := by
  cases order <;> exact h

theorem Phase.story_afterRelease {plan : Plan κ} {slot n : Nat} {t : Trace}
    (h : Completed plan slot n t) (order : ReleaseOrder) :
    (Phase.afterRelease order n).Story plan slot t := by
  cases order <;> exact h

theorem Phase.story_afterDelivery {plan : Plan κ} {slot n : Nat} {t : Trace}
    (h : Completed plan slot n t) (order : ReleaseOrder) :
    (Phase.afterDelivery order n).Story plan slot t := by
  cases order <;> exact h

theorem Phase.Advance.story {plan : Plan κ} {slot : Nat} {phase phase' : Phase κ} {t t' : Trace}
    (ha : Advance plan slot phase t phase' t') (hc : t.Counted) (h : phase.Story plan slot t) :
    phase'.Story plan slot t' := by
  cases ha with
  | dial hplanned hd =>
    have ho := dialed_of_dial hc h hplanned hd
    exact .write ho .none (Nat.zero_add _)
  | trade hs => exact h.step hs
  | complete hs => exact h.step hs
  | fail hs => exact h.step hs
  | close hclose =>
    obtain ⟨first, calls, ho, ht⟩ := h
    exact story_afterClose ⟨first, calls, _, ho.call _, ht, .inl hclose⟩ _
  | closeFailed hclose =>
    obtain ⟨first, calls, ho, ht⟩ := h
    have hcompleted : Completed plan slot _ (t.call slot .close) :=
      ⟨first, calls, _, ho.call _, ht, .inr ⟨_, hclose⟩⟩
    apply story_afterClose
    exact hcompleted.of_calls_eq rfl

/-- A session that is done has had its story before, and one that fails has come to the end of it. A
panic leaves nothing to be told. -/
theorem Phase.Finish.story {plan : Plan κ} {slot : Nat} {phase : Phase κ} {ending : Ending}
    {t t' : Trace} (hf : Finish plan slot phase t ending t') (hc : t.Counted)
    (h : phase.Story plan slot t) : (Phase.ended ending).Story plan slot t' := by
  cases hf with
  | done => exact Completed.of_calls_eq h rfl
  | dialFailed hd => exact .inl ⟨_, dialed_of_dial hc h rfl hd⟩
  | closed hclose =>
    obtain ⟨first, calls, n, hn, ho, hb⟩ := h
    exact .inr ⟨_, first, calls, n, _, hn, ho.call _, hb, .inl hclose⟩
  | closeFailed hclose =>
    obtain ⟨first, calls, n, hn, ho, hb⟩ := h
    refine .inr ⟨_, first, calls, n, _, hn, ?_, hb, .inr ⟨_, hclose⟩⟩
    exact (ho.call .close).of_calls_eq rfl
  | dialPanicked | tripsPanicked | closePanicked => trivial

/-! ## Actions of other sessions -/

theorem Completed.frame {plan : Plan κ} {slot other n : Nat} {t t' : Trace}
    (h : Completed plan slot n t) (hg : t.Grows other t') (hne : other ≠ slot) :
    Completed plan slot n t' := by
  obtain ⟨first, calls, last, ho, hrest⟩ := h
  exact ⟨first, calls, last, ho.frame hg hne, hrest⟩

theorem Failed.frame {plan : Plan κ} {slot other : Nat} {e : Error} {t t' : Trace}
    (h : Failed plan slot e t) (hg : t.Grows other t') (hne : other ≠ slot) :
    Failed plan slot e t' := by
  rcases h with ⟨planned, hd⟩ | ⟨planned, first, calls, n, last, hn, ho, hrest⟩
  · exact .inl ⟨planned, hd.frame hg hne⟩
  · exact .inr ⟨planned, first, calls, n, last, hn, ho.frame hg hne, hrest⟩

theorem Phase.Story.frame {plan : Plan κ} {slot other : Nat} {phase : Phase κ} {t t' : Trace}
    (h : phase.Story plan slot t) (hg : t.Grows other t') (hne : other ≠ slot) :
    phase.Story plan slot t' := by
  cases phase with
  | starting => exact (hg.callsOf_of_ne hne).trans h
  | trading planned trips =>
    cases h with
    | write ho ht hn => exact .write (ho.frame hg hne) ht hn
    | read ho ht hw hn => exact .read (ho.frame hg hne) ht hw hn
    | awaitReply ho ht hw hn => exact .awaitReply (ho.frame hg hne) ht hw hn
  | closing planned conn failure =>
    cases failure with
    | none =>
      obtain ⟨first, calls, ho, ht⟩ := h
      exact ⟨first, calls, ho.frame hg hne, ht⟩
    | some e =>
      obtain ⟨first, calls, n, hn, ho, hb⟩ := h
      exact ⟨first, calls, n, hn, ho.frame hg hne, hb⟩
  | releasing n | delivering n | queued n | finishing n => exact Completed.frame h hg hne
  | ended ending =>
    cases ending with
    | finished n => exact Completed.frame h hg hne
    | failed e => exact Failed.frame h hg hne
    | panicked | aborted => trivial

/-! ## Open connections -/

/-- The session has dialed, and has neither closed its connection nor come to its end, which would
have dropped it. -/
def Session.IsOpen (s : Session κ) (t : Trace) : Prop :=
  (∃ c ∈ t.callsOf s.slot, c.isDial = true) ∧ .close ∉ t.callsOf s.slot ∧ s.ending? = none

instance (s : Session κ) (t : Trace) : Decidable (s.IsOpen t) :=
  inferInstanceAs (Decidable (_ ∧ _ ∧ _))

theorem Traded.close_notMem {plan : Plan κ} {first last : κ} {calls : List Call} {n : Nat}
    (h : Traded plan first calls n last) : .close ∉ calls := by
  induction h with
  | none => exact List.not_mem_nil
  | pair _ _ _ ih => simpa using ih

theorem Broken.close_notMem {plan : Plan κ} {first last : κ} {calls : List Call} {n : Nat}
    {e : Error} (h : Broken plan first n e calls last) : .close ∉ calls := by
  cases h with
  | write h => simpa using h.close_notMem
  | read h => simpa using h.close_notMem

theorem Opened.isOpen {plan : Plan κ} {s : Session κ} {planned : Nat} {conn : κ}
    {calls : List Call} {t : Trace} (h : Opened plan s.slot planned conn calls t)
    (hc : .close ∉ calls) (he : s.ending? = none) : s.IsOpen t := by
  refine ⟨⟨.dial plan.url plan.origin, ?_, rfl⟩, ?_, he⟩
  · rw [h.calls]
    exact List.mem_append_right _ (List.mem_singleton_self _)
  · rw [h.calls]
    simpa using hc

/-- The calls of a session show whether its connection is open. -/
theorem Phase.Story.isOpen_iff {plan : Plan κ} {s : Session κ} {t : Trace}
    (h : s.phase.Story plan s.slot t) : s.IsOpen t ↔ s.phase.conn?.isSome = true := by
  have hclosed : ∀ n, Completed plan s.slot n t → ¬ s.IsOpen t := by
    rintro n ⟨first, calls, last, ho, -⟩ hopen
    refine hopen.2.1 ?_
    rw [ho.calls]
    exact List.mem_cons_self
  have hended : ∀ {ending}, s.phase = .ended ending → ¬ s.IsOpen t := by
    intro ending hp hopen
    have he := hopen.2.2
    rw [Session.ending?, hp] at he
    cases he
  cases hp : s.phase with
  | starting =>
    rw [hp] at h
    refine ⟨?_, nofun⟩
    rintro ⟨⟨c, hc, -⟩, -⟩
    rw [show t.callsOf s.slot = [] from h] at hc
    cases hc
  | trading planned trips =>
    rw [hp] at h
    have he : s.ending? = none := by rw [Session.ending?, hp]
    refine ⟨fun _ => rfl, fun _ => ?_⟩
    cases h with
    | write ho ht hn => exact ho.isOpen ht.close_notMem he
    | read ho ht hw hn => exact ho.isOpen (by simpa using ht.close_notMem) he
    | awaitReply ho ht hw hn => exact ho.isOpen (by simpa using ht.close_notMem) he
  | closing planned conn failure =>
    rw [hp] at h
    have he : s.ending? = none := by rw [Session.ending?, hp]
    refine ⟨fun _ => rfl, fun _ => ?_⟩
    cases failure with
    | none =>
      obtain ⟨first, calls, ho, ht⟩ := h
      exact ho.isOpen ht.close_notMem he
    | some e =>
      obtain ⟨first, calls, n, -, ho, hb⟩ := h
      exact ho.isOpen hb.close_notMem he
  | releasing n | delivering n | queued n | finishing n =>
    rw [hp] at h
    exact ⟨fun hopen => absurd hopen (hclosed n h), nofun⟩
  | ended ending => exact ⟨fun hopen => absurd hopen (hended hp), nofun⟩

end EchoLoad
