import EchoLoad.Proofs.Run.Ceiling
import EchoLoad.Proofs.Run.Trail
import EchoLoad.Proofs.Session.Delivery
import EchoLoad.Proofs.Tally

/-!
# The books of a run

A run that succeeds has counted the reports of different sessions, each of which had made all of its
round trips and closed its connection before it reported; it has counted them in the order in which
they came into the channel, without a gap; and it has stopped at the first of them that brought the
total above the target (`accounting`).

`Ledger` is what every state of a run says about the reports up to it. As long as the aggregator
collects, they are those it has collected and those that wait in the channel (`Ledger.step`).
-/

namespace EchoLoad.Run

variable {κ : Type} {s : Setting κ} {r r' : Run κ} {posted collected : List Report}

/-- The tally of a run at its beginning. -/
def Setting.tally (s : Setting κ) : Tally :=
  { target := s.config.targetTotal, messageSize := s.workload.fixedSize }

/-- The tally after some reports. -/
def Setting.tallyOf (s : Setting κ) (reports : List Report) : Tally :=
  s.tally.addAll (reports.map Report.completed)

theorem tallyOf_append (s : Setting κ) (reports : List Report) (report : Report) :
    s.tallyOf (reports ++ [report]) = (s.tallyOf reports).add report.completed := by
  rw [Setting.tallyOf, List.map_append, Tally.addAll_append]
  rfl

/-- What a state of a run says about the reports that have been posted and collected. -/
structure Ledger (s : Setting κ) (posted collected : List Report) (r : Run κ) : Prop where
  sessions : r.pool.Posted s.plan posted
  tally : r.tally = s.tallyOf collected
  going : r.aggregator ≠ .stopped → posted = collected ++ r.pool.shared.channel.queue ∧
    r.tally.exceeded = false
  stopped : r.aggregator = .stopped → collected <+: posted ∧ r.tally.exceeded = true ∧
    ∃ front last, collected = front ++ [last] ∧ (s.tallyOf front).exceeded = false
  verdict : ∀ t, r.verdict = some (.ok t) → r.aggregator = .stopped ∧ t = r.tally

theorem ledger_of_begin (h : begin s = .value r) : Ledger s [] [] r := by
  obtain ⟨pool, hp, rfl⟩ := eq_of_begin h
  obtain rfl := Pool.eq_of_empty hp
  exact ⟨.nil _ _, rfl, fun _ => ⟨rfl, rfl⟩, nofun, nofun⟩

namespace Ledger

/-- A move that neither posts nor collects. -/
theorem quiet (h : Ledger s posted collected r) (hp : r'.pool.Posted s.plan posted)
    (hq : r'.pool.shared.channel.queue = r.pool.shared.channel.queue) (ht : r'.tally = r.tally)
    (ha : r'.aggregator = .stopped ↔ r.aggregator = .stopped)
    (hv : ∀ t, r'.verdict = some (.ok t) → r.aggregator = .stopped ∧ t = r.tally) :
    Ledger s posted collected r' := by
  refine ⟨hp, ht.trans h.tally, fun hgoing => ?_, fun hstopped => ?_, fun t hverdict => ?_⟩
  · rw [hq, ht]
    exact h.going (mt ha.mpr hgoing)
  · rw [ht]
    exact h.stopped (ha.mp hstopped)
  · obtain ⟨hstopped, rfl⟩ := hv t hverdict
    exact ⟨ha.mpr hstopped, ht.symm⟩

theorem act (h : Ledger s posted collected r) {put : List Report} {pool : Pool κ}
    (hp : pool.Posted s.plan (posted ++ put))
    (hq : pool.shared.channel.queue = r.pool.shared.channel.queue ++ put) :
    Ledger s (posted ++ put) collected { r with pool } := by
  refine ⟨hp, h.tally, fun hgoing => ?_, fun hstopped => ?_, h.verdict⟩
  · obtain ⟨hposted, hexceeded⟩ := h.going hgoing
    refine ⟨?_, hexceeded⟩
    rw [hq, hposted, List.append_assoc]
  · obtain ⟨hbegins, hrest⟩ := h.stopped hstopped
    exact ⟨hbegins.trans (List.prefix_append _ _), hrest⟩

/-- The aggregator takes the next report, and stops if the target is exceeded by it. -/
theorem collect (h : Ledger s posted collected r) (ha : r.aggregator = .collecting)
    (hv : r.verdict = none) {report : Report} {pool : Pool κ}
    (hr : r.pool.receive? = some (report, pool)) :
    Ledger s posted (collected ++ [report]) (r.collect s report pool) := by
  obtain ⟨channel, hchannel, rfl⟩ := Pool.eq_of_receive hr
  obtain ⟨hposted, hexceeded⟩ := h.going (by rw [ha]; nofun)
  obtain ⟨hqueue, -⟩ := Channel.eq_cons_of_receive hchannel
  have hall : posted = collected ++ [report] ++ channel.queue := by
    rw [hposted, hqueue, List.append_assoc]
    rfl
  have htally : r.tally.add report.completed = s.tallyOf (collected ++ [report]) := by
    rw [tallyOf_append, h.tally]
  have hverdict : ∀ t, r.verdict ≠ some (.ok t) := by
    rw [hv]
    nofun
  rw [h.tally] at hexceeded
  unfold Run.collect
  dsimp only
  split
  · next hstop =>
    refine ⟨h.sessions.mono (List.Subset.refl _) (Nat.le_refl _), htally, fun hne => absurd rfl hne,
      fun _ => ⟨?_, hstop, collected, report, rfl, hexceeded⟩, fun t hsome => absurd hsome (hverdict t)⟩
    rw [hall]
    exact List.prefix_append _ _
  · next hgo =>
    refine ⟨h.sessions.mono (List.Subset.refl _) (Nat.le_refl _), htally,
      fun _ => ⟨hall, Bool.eq_false_iff.mpr hgo⟩, fun hstopped => ?_,
      fun t hsome => absurd hsome (hverdict t)⟩
    exact absurd (ha.symm.trans hstopped) (by decide)

end Ledger

theorem Step.posted_of_queue {m : Move} {put : List Report}
    (hq : r'.pool.shared.channel.queue = r.pool.shared.channel.queue ++ put) :
    (Step.mk r m r').posted = put := by
  show r'.pool.shared.channel.queue.drop r.pool.shared.channel.queue.length = put
  rw [hq, List.drop_left]

theorem Step.posted_of_same {m : Move}
    (hq : r'.pool.shared.channel.queue = r.pool.shared.channel.queue) :
    (Step.mk r m r').posted = [] := posted_of_queue (hq.trans (List.append_nil _).symm)

/-- The aggregator only takes from the queue, and what it takes is the head. -/
theorem Step.posted_of_collect {report : Report} {pool : Pool κ}
    (hr : r.pool.receive? = some (report, pool)) :
    (Step.mk r .collect (r.collect s report pool)).posted = [] ∧
      (Step.mk r .collect (r.collect s report pool)).collected = [report] := by
  obtain ⟨channel, hchannel, rfl⟩ := Pool.eq_of_receive hr
  obtain ⟨hqueue, -⟩ := Channel.eq_cons_of_receive hchannel
  have hless : ∀ queue : List Report, queue.length ≤ channel.queue.length →
      queue.drop r.pool.shared.channel.queue.length = [] := by
    intro queue hle
    rw [hqueue, List.length_cons]
    exact List.drop_eq_nil_of_le (Nat.le_succ_of_le hle)
  constructor
  · show ((r.collect s report _).pool.shared.channel.queue).drop _ = []
    unfold Run.collect
    dsimp only
    split
    · exact hless [] (Nat.zero_le _)
    · exact hless channel.queue (Nat.le_refl _)
  · show r.pool.shared.channel.queue.take 1 = [report]
    rw [hqueue]
    rfl

theorem Ledger.posted_note (h : Ledger s posted collected r) (e : Event) :
    (r.note e).pool.Posted s.plan posted :=
  h.sessions.mono (List.Subset.refl _) (Nat.le_refl _)

theorem Ledger.made (hk : Kept s r.pool) (h : Ledger s posted collected r) (hv : r.verdict = none)
    {m : Move} (hm : Made s r m r') :
    Ledger s (posted ++ (Step.mk r m r').posted) (collected ++ (Step.mk r m r').collected) r' := by
  have hquiet : Ledger s posted collected r' →
      r'.pool.shared.channel.queue = r.pool.shared.channel.queue →
      Ledger s (posted ++ (Step.mk r m r').posted) (collected ++ []) r' := by
    intro h hq
    rw [Step.posted_of_same hq, List.append_nil, List.append_nil]
    exact h
  cases hm with
  | launch hl =>
    refine hquiet (h.quiet (h.sessions.launch hl) ?_ rfl .rfl h.verdict) ?_
    all_goals
      obtain ⟨admission, -, rfl⟩ := Pool.eq_of_launch hl
      rfl
  | act hs =>
    obtain ⟨put, hq, -, -, hposted⟩ := Pool.put_of_step hk.sound hs
    rw [Step.posted_of_queue hq]
    show Ledger s (posted ++ put) (collected ++ []) _
    rw [List.append_nil]
    exact h.act (hposted _ h.sessions) hq
  | collect ha hr =>
    obtain ⟨hposted, hcollected⟩ := Step.posted_of_collect hr
    rw [hposted, hcollected, List.append_nil]
    exact h.collect ha hv hr
  | close ha =>
    have hstopped : Aggregator.closed = .stopped ↔ r.aggregator = .stopped := by
      rw [ha]
      exact ⟨nofun, nofun⟩
    exact hquiet (h.quiet h.sessions rfl rfl hstopped h.verdict) rfl
  | stop ha =>
    refine hquiet (h.quiet (h.posted_note _) rfl rfl .rfl ?_) rfl
    rintro t ⟨⟩
    exact ⟨ha, rfl⟩
  | refuse => exact hquiet (h.quiet h.sessions rfl rfl .rfl nofun) rfl
  | giveUp => exact hquiet (h.quiet h.sessions rfl rfl .rfl nofun) rfl
  | @leave slot =>
    have hsub : (r.pool.remove slot).sessions ⊆ r.pool.sessions := List.filter_sublist.subset
    exact hquiet (h.quiet (h.sessions.mono hsub (Nat.le_refl _)) rfl rfl .rfl h.verdict) rfl
  | fail => exact hquiet (h.quiet (h.posted_note _) rfl rfl .rfl nofun) rfl
  | panic => exact hquiet (h.quiet h.sessions rfl rfl .rfl nofun) rfl

theorem Trail.ledger {steps : List (Step κ)} (h : Trail s steps r) :
    Ledger s (Run.posted steps) (Run.collected steps) r := by
  induction h with
  | begin h => exact ledger_of_begin h
  | step m ht hs ih =>
    obtain ⟨hv, hm⟩ := made_of_step hs
    rw [posted_append, collected_append]
    exact ih.made ht.reachable.kept hv hm

/-- A report is posted by its own session, once this has completed what it reports. -/
theorem Made.completed_of_posted (hk : Kept s r.pool) {m : Move} (hm : Made s r m r') {report : Report}
    (hr : report ∈ (Step.mk r m r').posted) :
    (Step.mk r m r').posted = [report] ∧ m = .act report.slot ∧
      Completed s.plan report.slot report.completed r.pool.shared.trace := by
  have hnone : ∀ {b : Prop}, r'.pool.shared.channel.queue = r.pool.shared.channel.queue → b := by
    intro b hq
    rw [Step.posted_of_same hq] at hr
    cases hr
  cases hm with
  | launch hl =>
    refine hnone ?_
    obtain ⟨admission, -, rfl⟩ := Pool.eq_of_launch hl
    rfl
  | act hs =>
    obtain ⟨put, hq, -, hput, -⟩ := Pool.put_of_step hk.sound hs
    rw [Step.posted_of_queue hq] at hr ⊢
    obtain ⟨hsingle, hslot, hcompleted⟩ := hput report hr
    exact ⟨hsingle, congrArg Move.act hslot.symm, hcompleted⟩
  | collect _ hc =>
    rw [(Step.posted_of_collect hc).1] at hr
    cases hr
  | refuse | close | stop | giveUp | leave | fail | panic => exact hnone rfl

/-- A run that succeeds has counted the reports of different sessions, at least one, as they were
posted, from the first one on and without a gap. Each of them was posted by a session that had by
then made as many round trips as it reports and as were planned for it, none with an error, and had
closed its connection. The total that is returned is the sum of these reports, cut off at the
largest total. It exceeds the target, and without the last of them it does not. -/
theorem accounting {steps : List (Step κ)} (h : Trail s steps r) {t : Tally}
    (hv : r.verdict = some (.ok t)) :
    let reports := Run.collected steps
    let total := (Summary.ofTally t s.elapsed).completed
    reports ≠ [] ∧ (reports.map Report.slot).Nodup ∧
      (∀ report ∈ reports, ∃ x ∈ steps, x.move = .act report.slot ∧ x.posted = [report] ∧
        Completed s.plan report.slot report.completed x.before.pool.shared.trace) ∧
      reports <+: Run.posted steps ∧
      total = min (reports.map Report.completed).sum maxTotal ∧ s.config.targetTotal < total ∧
      (reports.dropLast.map Report.completed).sum ≤ s.config.targetTotal := by
  have hledger := h.ledger
  obtain ⟨hstopped, rfl⟩ := hledger.verdict t hv
  obtain ⟨hbegins, hexceeded, front, last, hlast, hfront⟩ := hledger.stopped hstopped
  have htotal : r.tally.total = min ((Run.collected steps).map Report.completed).sum maxTotal := by
    rw [hledger.tally]
    exact Tally.total_addAll_of_zero rfl _
  have htarget : s.config.targetTotal < r.tally.total := by
    rw [htotal]
    rw [hledger.tally] at hexceeded
    exact (Tally.exceeded_addAll_iff rfl _).mp hexceeded
  refine ⟨?_, ?_, ?_, hbegins, htotal, htarget, ?_⟩
  · rw [hlast]
    exact List.append_ne_nil_of_right_ne_nil _ (List.cons_ne_nil _ _)
  · exact hledger.sessions.distinct.sublist (hbegins.sublist.map _)
  · intro report hr
    obtain ⟨x, hx, hposted⟩ := List.mem_flatMap.mp (hbegins.subset hr)
    obtain ⟨hreachable, hstep⟩ := h.mem hx
    obtain ⟨hsingle, hmove, hcompleted⟩ :=
      (made_of_step hstep).2.completed_of_posted hreachable.kept hposted
    exact ⟨x, hx, hmove, hsingle, hcompleted⟩
  · have hbelow := mt (Tally.exceeded_addAll_iff rfl _).mpr (Bool.eq_false_iff.mp hfront)
    rw [hlast, List.dropLast_concat]
    rw [htotal] at htarget
    show _ ≤ s.tally.target
    have hsame : s.tally.target = s.config.targetTotal := rfl
    omega

/-- Two sessions at a time, one round trip each, and a target of one. -/
def Setting.brief : Setting Rehearsal :=
  { Setting.pair with
    config := { Setting.pair.config with targetTotal := 1 }
    workload := .constant 1 5 }

/-- The sessions take turns, the second one reports first, and the report of the first one ends the
run. -/
theorem accounting_brief : ∃ steps r t, Trail Setting.brief steps r ∧ r.verdict = some (.ok t) ∧
    Run.collected steps = [⟨1, 1⟩, ⟨0, 1⟩] ∧
    ((Run.collected steps).map Report.slot).Nodup ∧ Run.collected steps <+: Run.posted steps ∧
    1 < (Summary.ofTally t ⟨0, 0⟩).completed ∧
    ((Run.collected steps).dropLast.map Report.completed).sum ≤ 1 := by
  have hcheck : Setting.brief.config.check Setting.brief.reader = .ok () := by rfl
  have hbegin : Trail Setting.brief _ _ := .begin (by rw [begin, hcheck]; rfl)
  have hlaunch := Trail.step .launch (Trail.step .launch hbegin rfl) rfl
  have hdial := Trail.step (.act 1) (Trail.step (.act 0) hlaunch rfl) rfl
  have hwrite := Trail.step (.act 1) (Trail.step (.act 0) hdial rfl) rfl
  have hread := Trail.step (.act 1) (Trail.step (.act 0) hwrite rfl) rfl
  have hdone := Trail.step (.act 1) (Trail.step (.act 0) hread rfl) rfl
  have hclose := Trail.step (.act 1) (Trail.step (.act 0) hdone rfl) rfl
  have hreport := Trail.step (.act 0) (Trail.step (.act 1) hclose rfl) rfl
  have hstop := Trail.step .stop (Trail.step .collect (Trail.step .collect hreport rfl) rfl) rfl
  obtain ⟨-, hdistinct, -, hbegins, -, htarget, hbelow⟩ := accounting hstop rfl
  exact ⟨_, _, _, hstop, rfl, rfl, hdistinct, hbegins, htarget, hbelow⟩

end EchoLoad.Run
