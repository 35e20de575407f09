import EchoLoad.Proofs.Session.Commands
import EchoLoad.Rehearsal
import Mathlib.Data.List.Permutation

/-!
# No token is leaked, and no report is lost or doubled

Whatever commands a pool is given, the tokens in use are those of the sessions that hold one, and the
reports in its channel are those of the sessions that have come to their end: one for each, put by
itself and with its own count, none for a session that has failed or was dropped before, and none lost
before the receiver is (`reconciled`).

Two things are carried along from command to command. `Pool.Settled` says whose the reports are, and
`Pool.Flow` says where they are: up to the drop of the receiver every report that has gone into the
channel has come out of it or is still in it.
-/

namespace EchoLoad.Pool

variable {κ : Type}

/-- The receiver had been dropped before the session in a slot came to its end. -/
def Unheard (plan : Plan κ) (p : Pool κ) (cs : List Command) (slot : Nat) : Prop :=
  ∃ front back, cs = front ++ .poll slot :: back ∧ .hangUp ∈ front ∧
    ∃ s ∈ (p.after plan front).sessions, s.slot = slot ∧ s.ending? = none

/-- The reports that have been sent come from different sessions, each of which has its report behind
it; and what a session has behind it has been sent, unless nobody would have heard it. -/
structure Settled (order : ReleaseOrder) (unheard : Nat → Prop) (sent : List Report) (p : Pool κ) :
    Prop where
  distinct : (sent.map Report.slot).Nodup
  author : ∀ report ∈ sent, ∃ s ∈ p.sessions, s.slot = report.slot ∧
    s.phase.reported? order = some report.completed
  told : ∀ s ∈ p.sessions, ∀ n, s.phase.reported? order = some n →
    ⟨s.slot, n⟩ ∈ sent ∨ unheard s.slot

/-- What has gone into the channel up to the state `p` of a pool, and what has become of it. -/
structure Flow (cs : List Command) (sent got : List Report) (p : Pool κ) : Prop where
  isOpen : p.shared.channel.isOpen = true ↔ .hangUp ∉ cs
  conserved : .hangUp ∉ cs → sent = got ++ p.shared.channel.queue
  ordered : got ++ p.shared.channel.queue <+: sent

variable {plan : Plan κ} {p p' p₀ : Pool κ} {c : Command} {cs : List Command}
  {added removed sent got : List Report} {concurrency capacity : Nat} {unheard unheard' : Nat → Prop}

/-! ## Whose the reports are -/

namespace Settled

theorem mono (h : p.Settled plan.releaseOrder unheard sent) (hsessions : p'.sessions = p.sessions)
    (hunheard : ∀ slot, unheard slot → unheard' slot) :
    p'.Settled plan.releaseOrder unheard' sent := by
  refine ⟨h.distinct, ?_, ?_⟩
  · rw [hsessions]
    exact h.author
  · rw [hsessions]
    exact fun s hs n hn => (h.told s hs n hn).imp_right (hunheard _)

theorem launch (h : p.Settled plan.releaseOrder unheard sent) {slot : Nat}
    (hl : p.launch? = some (slot, p')) : p'.Settled plan.releaseOrder unheard sent := by
  have hsessions := fun s => mem_launch (s := s) hl
  refine ⟨h.distinct, fun report hr => ?_, fun s hs n hn => ?_⟩
  · obtain ⟨s, hs, hrest⟩ := h.author report hr
    exact ⟨s, (hsessions s).mpr (.inl hs), hrest⟩
  · rcases (hsessions s).mp hs with hs | rfl
    · exact h.told s hs n hn
    · cases hn

/-- A session acts, or is dropped. What it has to tell goes into the channel, if anybody hears it. -/
theorem act (h : p.Settled plan.releaseOrder unheard sent) (hsound : p.Sound plan)
    {s s' : Session κ} {sh' : Shared} (hs : s ∈ p.sessions) (ht : s.Tells plan p.shared s' sh' added)
    (hunheard : p.shared.channel.isOpen = false → s.phase.reported? plan.releaseOrder = none →
      s'.phase.reported? plan.releaseOrder ≠ none → unheard s.slot) :
    (p.update s' sh').Settled plan.releaseOrder unheard (sent ++ added) := by
  have hmem : ∀ {t : Session κ}, t ∈ (p.update s' sh').sessions ↔
      t = s' ∨ t ∈ p.sessions ∧ t.slot ≠ s.slot := mem_update hs ht.slot
  refine ⟨?_, fun report hr => ?_, fun t hmem' n hn => ?_⟩
  · -- A session that puts its report has had none behind it, so none of the old ones is its own.
    have hput : (added.map Report.slot).Nodup := by
      cases added with
      | nil => exact List.nodup_nil
      | cons report rest =>
        rw [(ht.report.eq_of_mem List.mem_cons_self).1]
        exact List.nodup_singleton _
    rw [List.map_append, List.nodup_append]
    refine ⟨h.distinct, hput, ?_⟩
    rintro slot hslot₁ _ hslot₂ rfl
    obtain ⟨old, hold, rfl⟩ := List.mem_map.mp hslot₁
    obtain ⟨new, hnew, heq⟩ := List.mem_map.mp hslot₂
    obtain ⟨-, hslot, -, hnone, -⟩ := ht.report.eq_of_mem hnew
    obtain ⟨t, ht', htslot, hn⟩ := h.author old hold
    have hsame : t.slot = s.slot := by rw [htslot, ← heq, hslot]
    rw [hsound.eq_of_slot_eq hs ht' hsame, hnone] at hn
    cases hn
  · rcases List.mem_append.mp hr with hr | hr
    · obtain ⟨t, ht', hslot, hn⟩ := h.author report hr
      by_cases heq : t.slot = s.slot
      · obtain rfl := hsound.eq_of_slot_eq hs ht' heq
        exact ⟨s', hmem.mpr (.inl rfl), ht.slot.trans hslot, ht.report.reported hn⟩
      · exact ⟨t, hmem.mpr (.inr ⟨ht', heq⟩), hslot, hn⟩
    · obtain ⟨-, hslot, -, -, hn⟩ := ht.report.eq_of_mem hr
      exact ⟨s', hmem.mpr (.inl rfl), ht.slot.trans hslot.symm, hn⟩
  · rcases hmem.mp hmem' with rfl | ⟨hmem', -⟩
    · rw [ht.slot]
      rcases ht.report.cases_of_reported hn with hbefore | hput | ⟨hclosed, hnone⟩
      · exact (h.told s hs n hbefore).imp_left (List.mem_append_left _)
      · exact .inl (List.mem_append_right _ hput)
      · refine .inr (hunheard hclosed hnone ?_)
        rw [hn]
        nofun
    · exact (h.told t hmem' n hn).imp_left (List.mem_append_left _)

end Settled

/-! ## Where the reports are -/

theorem Flow.of_performed (h : p.Flow cs sent got) (hp : Performed plan p c added removed p') :
    p'.Flow (cs ++ [c]) (sent ++ added) (got ++ removed) := by
  by_cases hc : c = .hangUp
  · subst hc
    obtain ⟨rfl, rfl, rfl⟩ := hp.eq_of_hangUp
    have hmem : Command.hangUp ∈ cs ++ [.hangUp] := List.mem_concat_self
    refine ⟨⟨nofun, fun hnot => absurd hmem hnot⟩, fun hnot => absurd hmem hnot, ?_⟩
    rw [List.append_nil, List.append_nil]
    show got ++ [] <+: sent
    rw [List.append_nil]
    exact (List.prefix_append _ _).trans h.ordered
  · obtain ⟨hqueue, hopen⟩ := hp.queue hc
    have hmem : Command.hangUp ∉ cs ++ [c] ↔ .hangUp ∉ cs := by simp [Ne.symm hc]
    have hmoved : got ++ removed ++ p'.shared.channel.queue =
        got ++ p.shared.channel.queue ++ added := by
      rw [List.append_assoc, ← hqueue, List.append_assoc]
    have hconserved : .hangUp ∉ cs → sent ++ added = got ++ removed ++ p'.shared.channel.queue := by
      intro hnot
      rw [hmoved, ← h.conserved hnot]
    refine ⟨?_, fun hnot => hconserved (hmem.mp hnot), ?_⟩
    · rw [hopen, hmem]
      exact h.isOpen
    · by_cases hnot : .hangUp ∈ cs
      · -- Nobody receives, so nothing is put.
        have hput : added = [] := by
          rw [List.eq_nil_iff_forall_not_mem]
          intro report hr
          exact h.isOpen.mp (hp.eq_of_mem hr).2.2 hnot
        rw [hmoved, hput, List.append_nil, List.append_nil]
        exact h.ordered
      · refine ⟨[], ?_⟩
        rw [List.append_nil, hconserved hnot]

/-! ## Commands in turn -/

theorem Unheard.append {slot : Nat} (h : p₀.Unheard plan cs slot) (c : Command) :
    p₀.Unheard plan (cs ++ [c]) slot := by
  obtain ⟨front, back, rfl, hrest⟩ := h
  refine ⟨front, back ++ [c], ?_, hrest⟩
  rw [List.append_assoc, List.cons_append]

theorem Settled.of_performed
    (h : (p₀.after plan cs).Settled plan.releaseOrder (p₀.Unheard plan cs) sent)
    (hsteady : (p₀.after plan cs).Steady plan concurrency capacity)
    (hflow : (p₀.after plan cs).Flow cs sent got)
    (hp : Performed plan (p₀.after plan cs) c added removed p') :
    p'.Settled plan.releaseOrder (p₀.Unheard plan (cs ++ [c])) (sent ++ added) := by
  have hmono := h.mono rfl fun slot hslot => hslot.append c
  cases hp with
  | idle =>
    rw [List.append_nil]
    exact hmono
  | start hl =>
    rw [List.append_nil]
    exact hmono.launch hl
  | @act _ s s' _ _ hs hc _ ht _ hended =>
    refine hmono.act hsteady.sound hs ht fun hclosed hbefore hafter => ?_
    have hpoll : c = .poll s.slot := by
      rcases hc with hc | ⟨-, heq⟩
      · exact hc
      · exact absurd (heq.trans hbefore) hafter
    have hgoing : s.ending? = none := by
      unfold Session.ending?
      split
      · next hp =>
        rw [hended _ hp] at hafter
        exact absurd hbefore hafter
      · rfl
    have hhungUp : .hangUp ∈ cs := by
      by_cases hmem : .hangUp ∈ cs
      · exact hmem
      · cases hclosed.symm.trans (hflow.isOpen.mpr hmem)
    exact ⟨cs, [], by rw [hpoll], hhungUp, s, hs, rfl, hgoing⟩
  | receive hr =>
    obtain ⟨channel, -, rfl⟩ := eq_of_receive hr
    rw [List.append_nil]
    exact hmono.mono rfl fun _ => id
  | hangUp =>
    rw [List.append_nil]
    exact hmono.mono rfl fun _ => id

theorem books_after (plan : Plan κ) (h : empty? concurrency capacity = some p₀)
    (cs : List Command) :
    (p₀.after plan cs).Steady plan concurrency capacity ∧
      (p₀.after plan cs).Flow cs (p₀.posted plan cs) (p₀.received plan cs) ∧
      (p₀.after plan cs).Settled plan.releaseOrder (p₀.Unheard plan cs) (p₀.posted plan cs) := by
  induction cs using List.reverseRecOn with
  | nil =>
    obtain ⟨hsteady, hsessions, hqueue, hopen⟩ := steady_of_empty plan h
    refine ⟨hsteady, ⟨⟨fun _ => List.not_mem_nil, fun _ => hopen⟩, fun _ => hqueue.symm, ?_⟩,
      List.nodup_nil, nofun, ?_⟩
    · exact hqueue ▸ List.prefix_rfl
    · intro s hs
      rw [after, List.foldl_nil, hsessions] at hs
      cases hs
  | append_singleton cs c ih =>
    obtain ⟨hsteady, hflow, hsettled⟩ := ih
    have hp := hsteady.performed c
    rw [after_append_singleton, posted_append_singleton, received_append_singleton]
    exact ⟨hsteady.of_performed hp, hflow.of_performed hp, hsettled.of_performed hsteady hflow hp⟩

/-- What the tokens and the reports of a pool that has been set up empty as `p₀` come to once it has
carried out the commands `cs` and is `p`. -/
structure Reconciled (plan : Plan κ) (concurrency capacity : Nat) (p₀ : Pool κ) (cs : List Command)
    (p : Pool κ) : Prop where
  /-- All sessions that have been started are in the pool, -/
  started : p.sessions.map Session.slot = List.range p.shared.admission.admitted
  /-- and there are as many tokens in use as sessions among them that hold one, -/
  inUse : p.shared.admission.inUse = p.sessions.countP Session.holdsToken
  ceiling : p.shared.admission.inUse ≤ concurrency
  /-- none once all of them have ended. -/
  idle : (∀ s ∈ p.sessions, s.ending? ≠ none) → p.shared.admission.inUse = 0
  /-- No session puts two reports into the channel. -/
  distinct : ((p₀.posted plan cs).map Report.slot).Nodup
  /-- A report is put by a poll of its own session, -/
  poll : ∀ c, ∀ report ∈ p.put plan c, c = .poll report.slot ∧ p.put plan c = [report]
  /-- which has come to its end and has made as many round trips as it reports and as were planned. -/
  author : ∀ report ∈ p₀.posted plan cs, ∃ s ∈ p.sessions, s.slot = report.slot ∧
    s.ending? = some (.finished report.completed) ∧
    Completed plan report.slot report.completed p.shared.trace
  /-- A session that has come to its end has put its report unless nobody received any more, -/
  finished : ∀ s ∈ p.sessions, ∀ n, s.ending? = some (.finished n) →
    ⟨s.slot, n⟩ ∈ p₀.posted plan cs ∨ p₀.Unheard plan cs s.slot
  /-- and one that has failed, has been dropped before its end, or is still going has put none. -/
  unfinished : ∀ s ∈ p.sessions, (∀ n, s.ending? ≠ some (.finished n)) →
    s.slot ∉ (p₀.posted plan cs).map Report.slot
  places : p.shared.channel.queue.length ≤ capacity
  /-- Until the receiver is dropped, what has been put has been received or waits to be, -/
  conserved : .hangUp ∉ cs →
    p₀.posted plan cs = p₀.received plan cs ++ p.shared.channel.queue
  /-- and it is received in the order in which it was put. -/
  ordered : p₀.received plan cs <+: p₀.posted plan cs

theorem Steady.ending_of_reported (h : p.Steady plan concurrency capacity) {s : Session κ}
    (hs : s ∈ p.sessions) {order : ReleaseOrder} {n : Nat}
    (hn : s.phase.reported? order = some n) : s.ending? = some (.finished n) := by
  rw [Session.ending?, Phase.eq_of_reported (h.rests s hs) hn]

/-- Whatever commands are given, in whatever order: no token is leaked, and no report is lost or doubled
before the receiver is dropped. -/
theorem reconciled (plan : Plan κ) (h : empty? concurrency capacity = some p₀)
    (cs : List Command) : Reconciled plan concurrency capacity p₀ cs (p₀.after plan cs) := by
  obtain ⟨hsteady, hflow, hsettled⟩ := books_after plan h cs
  have hsound := hsteady.sound
  have hceiling : (p₀.after plan cs).shared.admission.inUse ≤ concurrency := by
    rw [hsound.balanced.inUse_eq, ← hsteady.ceiling]
    exact hsound.balanced.length_held_le
  refine
    { started := hsteady.started
      inUse := hsound.inUse_eq
      ceiling := hceiling
      idle := fun hended => ?_
      distinct := hsettled.distinct
      poll := fun c report hr => ?_
      author := fun report hr => ?_
      finished := fun s hs n hn => ?_
      unfinished := fun s hs hnot hmem => ?_
      places := Nat.le_trans (Nat.le_add_right _ _) hsteady.fits.taken
      conserved := hflow.conserved
      ordered := (List.prefix_append _ _).trans hflow.ordered }
  · rw [hsound.inUse_eq, List.countP_eq_zero]
    intro s hs
    obtain ⟨ending, he⟩ := Option.ne_none_iff_exists'.mp (hended s hs)
    exact Bool.eq_false_iff.mp (hsound.holdsToken_of_ending hs he)
  · obtain ⟨hpoll, hput, -⟩ := (hsteady.performed c).eq_of_mem hr
    exact ⟨hpoll, hput⟩
  · obtain ⟨s, hs, hslot, hn⟩ := hsettled.author report hr
    have hstory := hsound.stories s hs
    rw [Phase.eq_of_reported (hsteady.rests s hs) hn, hslot] at hstory
    exact ⟨s, hs, hslot, hsteady.ending_of_reported hs hn, hstory⟩
  · exact hsettled.told s hs n (Session.reported_of_ending hn _)
  · obtain ⟨report, hr, hslot⟩ := List.mem_map.mp hmem
    obtain ⟨t, ht, htslot, hn⟩ := hsettled.author report hr
    rw [hsound.eq_of_slot_eq hs ht (htslot.trans hslot)] at hn
    exact hnot _ (hsteady.ending_of_reported hs hn)

/-- One round trip for each session, and tokens that are freed after the report. -/
def rehearsed : Plan Rehearsal :=
  { transport := Rehearsal.transport []
    workload := .constant 1 5
    url := "ws://h/"
    origin := ""
    releaseOrder := .afterReport }

/-- The second of two sessions finds no place for its report, waits, and is dropped just when a place
is kept for it. -/
theorem reconciled_waiting_session_dropped :
    let cs : List Command := [.start, .start, .poll 0, .poll 1, .receive, .abort 1]
    ∃ p₀ : Pool Rehearsal, empty? 2 1 = some p₀ ∧
      (p₀.after rehearsed cs).sessions.map Session.ending? =
        [some (.finished 1), some .aborted] ∧
      p₀.received rehearsed cs = [⟨0, 1⟩] ∧
      Reconciled rehearsed 2 1 p₀ cs (p₀.after rehearsed cs) := by
  intro cs
  refine ⟨_, rfl, ?_, ?_, reconciled rehearsed rfl cs⟩
  · cbv
  · cbv

end EchoLoad.Pool
