import EchoLoad.Proofs.Run.Accounting
import EchoLoad.Proofs.Run.Progress
import EchoLoad.Proofs.Session.Course
import EchoLoad.Proofs.Session.Dials
import EchoLoad.Proofs.Session.Retention

/-!
# What the release order guarantees

In a pool that is driven from outside, tokens that are freed after the report are kept as
`Pool.Retained` says, and tokens that are freed before it are available as `Pool.Yielded` says. For a
run the first of these means that it cannot run ahead of its aggregator: as long as this collects,
every token is held, or its session has failed, or its report has been put, and only as many reports
can wait as there are places (`Reachable.admitted_le`). No session dials without a token.

In a run the sessions that have come to their end are taken away, so that one cannot look them up in
the pool as in `Pool.Retained`. `Pool.Covered` is what is left of it.
-/

namespace EchoLoad

variable {κ : Type}

namespace Pool

variable {plan : Plan κ} {p p' : Pool κ} {sent : List Report} {order : ReleaseOrder}

/-- As long as somebody receives, a session that has its report behind it has put it, and so has one
that is no longer there. No session has been dropped. -/
structure Covered (order : ReleaseOrder) (sent : List Report) (p : Pool κ) : Prop where
  undropped : ∀ s ∈ p.sessions, s.phase ≠ .ended .aborted
  told : p.shared.channel.isOpen = true → ∀ s ∈ p.sessions, ∀ n,
    s.phase.reported? order = some n → s.slot ∈ sent.map Report.slot
  gone : p.shared.channel.isOpen = true → ∀ slot < p.shared.admission.next,
    (∃ s ∈ p.sessions, s.slot = slot) ∨ slot ∈ sent.map Report.slot

namespace Covered

theorem of_empty {concurrency capacity : Nat} (h : empty? concurrency capacity = some p) :
    p.Covered order [] := by
  obtain rfl := eq_of_empty h
  exact ⟨nofun, nofun, nofun⟩

/-- The sessions and the tokens are what they were. -/
theorem quiet (h : p.Covered order sent) (hsessions : p'.sessions = p.sessions)
    (hnext : p'.shared.admission.next = p.shared.admission.next)
    (hopen : p'.shared.channel.isOpen = true → p.shared.channel.isOpen = true) :
    p'.Covered order sent := by
  refine ⟨?_, fun htrue => ?_, fun htrue => ?_⟩
  · rw [hsessions]
    exact h.undropped
  · rw [hsessions]
    exact h.told (hopen htrue)
  · rw [hsessions, hnext]
    exact h.gone (hopen htrue)

theorem launch (h : p.Covered order sent) {slot : Nat} (hl : p.launch? = some (slot, p')) :
    p'.Covered order sent := by
  have hsessions := fun s => mem_launch (s := s) hl
  obtain ⟨admission, ha, rfl⟩ := eq_of_launch hl
  obtain ⟨-, rfl, rfl⟩ := Admission.eq_of_acquire ha
  refine ⟨fun s hs => ?_, fun hopen s hs n hn => ?_, fun hopen slot hslot => ?_⟩
  · rcases (hsessions s).mp hs with hs | rfl
    · exact h.undropped s hs
    · nofun
  · rcases (hsessions s).mp hs with hs | rfl
    · exact h.told hopen s hs n hn
    · cases hn
  · rcases Nat.lt_succ_iff_lt_or_eq.mp hslot with hslot | rfl
    · refine (h.gone hopen slot hslot).imp_left ?_
      rintro ⟨s, hs, heq⟩
      exact ⟨s, (hsessions s).mpr (.inl hs), heq⟩
    · exact .inl ⟨_, (hsessions _).mpr (.inr rfl), rfl⟩

/-- A session that comes to have its report behind it puts it. -/
theorem step (h : p.Covered plan.releaseOrder sent) (hsound : p.Sound plan) {slot : Nat}
    (hs : p.step? plan slot = some p') :
    ∃ put, p'.shared.channel.queue = p.shared.channel.queue ++ put ∧
      p'.Covered plan.releaseOrder (sent ++ put) := by
  obtain ⟨s, s', sh', hmem, -, hstep, rfl⟩ := session_of_step hs
  have haction := Session.action_of_step hstep
  have hnext := (haction.evolves (hsound.tokens s hmem)).next
  obtain ⟨put, htells⟩ := haction.tells
  have hsessions : ∀ {t : Session κ}, t ∈ (p.update s' sh').sessions ↔
      t = s' ∨ t ∈ p.sessions ∧ t.slot ≠ s.slot := mem_update hmem htells.slot
  have hfront : ∀ {slot : Nat}, slot ∈ sent.map Report.slot →
      slot ∈ (sent ++ put).map Report.slot := by
    intro slot hslot
    rw [List.map_append]
    exact List.mem_append_left _ hslot
  have hopen : (p.update s' sh').shared.channel.isOpen = true → p.shared.channel.isOpen = true :=
    htells.isOpen.symm.trans
  refine ⟨put, htells.queue, fun t ht => ?_, fun htrue t ht n hn => ?_, fun htrue slot hslot => ?_⟩
  · rcases hsessions.mp ht with rfl | ⟨ht, -⟩
    · exact haction.not_aborted
    · exact h.undropped t ht
  · rcases hsessions.mp ht with rfl | ⟨ht, -⟩
    · rw [htells.slot]
      rcases htells.report.cases_of_reported hn with hbefore | hput | ⟨hclosed, -⟩
      · exact hfront (h.told (hopen htrue) s hmem n hbefore)
      · exact List.mem_map.mpr ⟨_, List.mem_append_right _ hput, rfl⟩
      · cases (hopen htrue).symm.trans hclosed
    · exact hfront (h.told (hopen htrue) t ht n hn)
  · have hslot : slot < p.shared.admission.next := hnext ▸ hslot
    rcases h.gone (hopen htrue) slot hslot with ⟨t, ht, rfl⟩ | hput
    · by_cases heq : t.slot = s.slot
      · exact .inl ⟨s', hsessions.mpr (.inl rfl), htells.slot.trans heq.symm⟩
      · exact .inl ⟨t, hsessions.mpr (.inr ⟨ht, heq⟩), rfl⟩
    · exact .inr (hfront hput)

/-- A session that has come to its end is taken away. -/
theorem remove (h : p.Covered order sent) {slot n : Nat} {s : Session κ}
    (hs : p.session? slot = some s) (he : s.ending? = some (.finished n)) :
    (p.remove slot).Covered order sent := by
  obtain ⟨hmem, rfl⟩ := mem_of_session? hs
  have hsub : (p.remove s.slot).sessions ⊆ p.sessions := List.filter_sublist.subset
  refine ⟨fun t ht => h.undropped t (hsub ht), fun hopen t ht => h.told hopen t (hsub ht),
    fun hopen slot hslot => ?_⟩
  by_cases heq : slot = s.slot
  · rw [heq]
    exact .inr (h.told hopen s hmem n (Session.reported_of_ending he order))
  · refine (h.gone hopen slot hslot).imp_left ?_
    rintro ⟨t, ht, rfl⟩
    exact ⟨t, List.mem_filter.mpr ⟨ht, by simpa using heq⟩, rfl⟩

/-- A session that reports first and has given up its token has put its report or has failed. -/
theorem mem_of_not_held (h : p.Covered .afterReport sent) (hsound : p.Sound plan)
    (horder : plan.releaseOrder = .afterReport) (hopen : p.shared.channel.isOpen = true)
    {slot : Nat} (hslot : slot < p.shared.admission.next)
    (hfree : slot ∉ p.shared.admission.held) :
    slot ∈ sent.map Report.slot ++ p.slotsOf (fun s => s.ending?.any Ending.isFailure) := by
  rw [List.mem_append]
  rcases h.gone hopen slot hslot with ⟨s, hs, rfl⟩ | hput
  · have hholds : s.phase.holds .afterReport = false := by
      rw [← horder, ← hsound.tokens s hs, Bool.eq_false_iff]
      exact fun hholds => hfree (hsound.slot_mem_held hs hholds)
    have htold := h.told hopen s hs
    have hundropped := h.undropped s hs
    cases hp : s.phase with
    | starting | trading | closing | releasing | delivering | queued =>
      rw [hp] at hholds
      cases hholds
    | finishing n =>
      rw [hp] at htold
      exact .inl (htold n rfl)
    | ended ending =>
      rw [hp] at htold hundropped
      cases ending with
      | finished n => exact .inl (htold n rfl)
      | aborted => exact absurd rfl hundropped
      | failed | panicked =>
        exact .inr (mem_slotsOf hs (by simp [Session.ending?, hp, Ending.isFailure]))
  · exact .inl hput

end Covered

end Pool

namespace Run

variable {s : Setting κ} {r : Run κ}

/-- The channel stays open as long as the aggregator has not stopped. -/
theorem Reachable.isOpen (h : Reachable s r) (ha : r.aggregator ≠ .stopped) :
    r.pool.shared.channel.isOpen = true := by
  induction h with
  | begin h =>
    obtain ⟨pool, hp, rfl⟩ := eq_of_begin h
    obtain rfl := Pool.eq_of_empty hp
    rfl
  | step m h hs ih =>
    obtain ⟨-, hm⟩ := made_of_step hs
    cases hm with
    | launch hl =>
      obtain ⟨admission, -, rfl⟩ := Pool.eq_of_launch hl
      exact ih ha
    | act hact =>
      obtain ⟨put, -, hopen, -⟩ := Pool.put_of_step h.kept.sound hact
      exact hopen.trans (ih ha)
    | collect hcollecting hr =>
      obtain ⟨channel, hchannel, rfl⟩ := Pool.eq_of_receive hr
      obtain ⟨-, hopen⟩ := Channel.eq_cons_of_receive hchannel
      unfold Run.collect at ha ⊢
      dsimp only at ha ⊢
      split at ha
      · exact absurd rfl ha
      · next hgo =>
        rw [if_neg hgo]
        exact hopen.trans (ih ha)
    | close hcollecting => exact ih (by rw [hcollecting]; nofun)
    | stop hstopped => exact absurd hstopped ha
    | refuse | giveUp | leave | fail | panic => exact ih ha

theorem covered_collect {order : ReleaseOrder} {sent : List Report} {report : Report}
    {pool : Pool κ} (h : r.pool.Covered order sent) (hr : r.pool.receive? = some (report, pool)) :
    (r.collect s report pool).pool.Covered order sent := by
  obtain ⟨channel, hchannel, rfl⟩ := Pool.eq_of_receive hr
  obtain ⟨-, hopen⟩ := Channel.eq_cons_of_receive hchannel
  unfold Run.collect
  dsimp only
  split
  · exact h.quiet rfl rfl nofun
  · exact h.quiet rfl rfl hopen.symm.trans

theorem Trail.covered {steps : List (Step κ)} (h : Trail s steps r) :
    r.pool.Covered s.config.releaseOrder (Run.posted steps) := by
  induction h with
  | begin h =>
    obtain ⟨pool, hp, rfl⟩ := eq_of_begin h
    exact (Pool.Covered.of_empty hp).quiet rfl rfl id
  | @step steps before after m ht hs ih =>
    obtain ⟨-, hm⟩ := made_of_step hs
    rw [posted_append]
    have hquiet : after.pool.Covered s.config.releaseOrder (Run.posted steps) →
        after.pool.shared.channel.queue = before.pool.shared.channel.queue →
        after.pool.Covered s.config.releaseOrder
          (Run.posted steps ++ (Step.mk before m after).posted) := by
      intro h hq
      rw [Step.posted_of_same hq, List.append_nil]
      exact h
    cases hm with
    | launch hl =>
      refine hquiet (ih.launch hl) ?_
      obtain ⟨admission, -, rfl⟩ := Pool.eq_of_launch hl
      rfl
    | act hact =>
      obtain ⟨put, hq, hcovered⟩ := Pool.Covered.step ih ht.reachable.kept.sound hact
      rw [Step.posted_of_queue hq]
      exact hcovered
    | collect _ hr =>
      rw [(Step.posted_of_collect hr).1, List.append_nil]
      exact covered_collect ih hr
    | leave hx he => exact hquiet (ih.remove hx he) rfl
    | stop | fail => exact hquiet (ih.quiet rfl rfl id) rfl
    | refuse | close | giveUp | panic => exact hquiet ih rfl

/-- As long as the aggregator collects, the driver has handed out no more tokens than the ceiling allows
and as there are reports that have been collected or can wait, and sessions that have failed. -/
theorem Reachable.admitted_le (h : Reachable s r) (horder : s.config.releaseOrder = .afterReport)
    (ha : r.aggregator = .collecting) :
    r.pool.shared.admission.admitted ≤ s.config.concurrency + s.config.reportBuffer +
      r.tally.reports + r.pool.sessions.countP (fun x => x.ending?.any Ending.isFailure) := by
  have hgoing : r.aggregator ≠ .stopped := by
    rw [ha]
    nofun
  obtain ⟨steps, htrail⟩ := h.trail
  have hledger := htrail.ledger
  obtain ⟨hposted, -⟩ := hledger.going hgoing
  have hcovered := htrail.covered
  rw [horder] at hcovered
  have hsound := h.kept.sound
  have hle := hsound.balanced.next_le fun slot hslot =>
    (Decidable.em (slot ∈ r.pool.shared.admission.held)).imp_right
      (hcovered.mem_of_not_held hsound horder (h.isOpen hgoing) hslot)
  have hreports : r.tally.reports = (Run.collected steps).length := by
    rw [hledger.tally, Setting.tallyOf, Tally.reports_addAll, List.length_map]
    exact Nat.zero_add _
  have htaken := (Live.running h).lined.fits.taken
  rw [List.length_append, List.length_map, Pool.length_slotsOf, hposted, List.length_append,
    h.kept.concurrency] at hle
  show r.pool.shared.admission.next ≤ _
  omega

theorem Live.admits (h : Live s r) : r.pool.Admits :=
  h.invariant (fun _ hp => Pool.admits_of_empty hp) fun _ _ hsound hc hp => hp.change hsound hc

/-- Whatever commands a pool is given, the release order has the effect on its tokens that is said
above; and in every state of a run that frees tokens after the report and still collects, the dials
that have been made are no more than the ceiling, the places and the reports that have been collected
allow, as long as no session has failed. -/
theorem release_order (κ : Type) :
    (∀ (plan : Plan κ) (concurrency capacity : Nat) (p₀ : Pool κ),
      Pool.empty? concurrency capacity = some p₀ → ∀ cs : List Pool.Command,
        (plan.releaseOrder = .afterReport →
          Pool.Retained plan concurrency p₀ cs (p₀.after plan cs)) ∧
        (plan.releaseOrder = .beforeReport → Pool.Yielded concurrency (p₀.after plan cs))) ∧
    ∀ (s : Setting κ) (r : Run κ), s.config.releaseOrder = .afterReport → Reachable s r →
      r.aggregator = .collecting →
      r.pool.shared.trace.dials ≤ s.config.concurrency + s.config.reportBuffer + r.tally.reports +
        r.pool.sessions.countP (fun x => x.ending?.any Ending.isFailure) := by
  constructor
  · intro plan concurrency capacity p₀ h cs
    exact ⟨fun horder => Pool.retained h horder cs, fun horder => Pool.yielded h horder cs⟩
  · intro s r horder h ha
    exact Nat.le_trans (Live.running h).admits.dials_le (h.admitted_le horder ha)

/-- Two tokens and one place. If sessions report first, the second one waits for a place and keeps its
token, so that there is no fourth; if they free their slots first, it waits without one. A run with one
token and one place dials twice before the first report is collected. -/
theorem release_order_full_channel :
    let cs : List Pool.Command := [.start, .start, .poll 0, .poll 1, .start, .start]
    let freeing := { Pool.rehearsed with releaseOrder := .beforeReport }
    ∃ p₀ r, Pool.empty? 2 1 = some p₀ ∧
      (p₀.after Pool.rehearsed cs).shared.admission.admitted = 3 ∧
      Pool.Retained Pool.rehearsed 2 p₀ cs (p₀.after Pool.rehearsed cs) ∧
      (p₀.after freeing cs).shared.admission.admitted = 4 ∧
      Pool.Yielded 2 (p₀.after freeing cs) ∧
      Reachable Setting.narrow r ∧ r.aggregator = .collecting ∧ r.tally.reports = 0 ∧
      r.pool.shared.trace.dials = 2 ∧
      r.pool.shared.trace.dials ≤ 1 + 1 + r.tally.reports +
        r.pool.sessions.countP (fun x => x.ending?.any Ending.isFailure) := by
  intro cs freeing
  have hbegin : Reachable Setting.narrow _ := .begin (by rw [begin, check_narrow]; rfl)
  have hmoves := hbegin.moves (.launch :: List.replicate 8 (.act 0) ++ [.launch, .act 1]) rfl
  obtain ⟨hpools, hruns⟩ := release_order Rehearsal
  refine ⟨_, _, rfl, ?_, (hpools Pool.rehearsed 2 1 _ rfl cs).1 rfl, ?_,
    (hpools freeing 2 1 _ rfl cs).2 rfl, hmoves, rfl, rfl, rfl, hruns _ _ rfl hmoves rfl⟩
  · cbv
  · cbv

end Run

end EchoLoad
