import EchoLoad.Proofs.Channel
import EchoLoad.Proofs.Session.Soundness

/-!
# Every session reports at most once

A session that is past its attempt to send (`Phase.delivered`) never sends again, and only one that
is about to send puts its report into the channel: its own slot with the number of round trips that
it has completed (`Session.Puts`). So the reports that have ever been put come from different
sessions (`Pool.Posted`), whatever happens to the pool (`Posted.step`, `Posted.mono`).
-/

namespace EchoLoad

variable {κ : Type} {plan : Plan κ}

/-- Whether the report of a session in this phase has been sent or will never be. -/
def Phase.delivered (order : ReleaseOrder) : Phase κ → Bool
  | .finishing _ | .ended _ => true
  | .releasing _ => match order with
    | .beforeReport => false
    | .afterReport => true
  | _ => false

theorem Phase.delivered_afterDelivery (order : ReleaseOrder) (n : Nat) :
    (Phase.afterDelivery order n : Phase κ).delivered order = true := by
  cases order <;> rfl

theorem Phase.delivered_afterRelease {order : ReleaseOrder} {n : Nat}
    (h : (Phase.releasing n : Phase κ).delivered order = true) :
    (Phase.afterRelease order n : Phase κ).delivered order = true := by
  cases order with
  | beforeReport => cases h
  | afterReport => rfl

/-- A session that goes on with its work has its report before it. -/
theorem Phase.Advance.not_delivered {slot : Nat} {phase phase' : Phase κ} {t t' : Trace}
    (h : Advance plan slot phase t phase' t') : phase.delivered plan.releaseOrder = false := by
  cases h <;> rfl

namespace Session

variable {s s' : Session κ} {sh sh' : Shared}

/-- An action puts some reports into the channel: none, or the one report of the session, which it
then has behind it. -/
structure Puts (plan : Plan κ) (s : Session κ) (sh : Shared) (s' : Session κ) (sh' : Shared)
    (put : List Report) : Prop where
  queue : sh'.channel.queue = sh.channel.queue ++ put
  isOpen : sh'.channel.isOpen = sh.channel.isOpen
  slot : s'.slot = s.slot
  stays : s.phase.delivered plan.releaseOrder = true → s'.phase.delivered plan.releaseOrder = true
  report : ∀ report ∈ put, put = [report] ∧ report.slot = s.slot ∧
    (s.phase = .delivering report.completed ∨ s.phase = .queued report.completed) ∧
    s'.phase.delivered plan.releaseOrder = true

theorem Attempt.sends {n : Nat} {c : Channel} {sending : Channel.Sending × Channel}
    (h : s.Attempt n c sending) : c.Sends ⟨s.slot, n⟩ sending := by
  cases h with
  | first => exact Channel.sends_send c _
  | again => exact Channel.sends_resume c _

theorem Attempt.puts {n : Nat} {sending : Channel.Sending × Channel}
    (h : s.Attempt n sh.channel sending) :
    ∃ put, Puts plan s sh (s.deliver plan n sending sh).1 (s.deliver plan n sending sh).2 put := by
  have hbefore : s.phase.delivered plan.releaseOrder = false := by
    rcases h.phase with hp | hp
    all_goals
      rw [hp]
      rfl
  have hstays : ∀ {b : Bool}, s.phase.delivered plan.releaseOrder = true → b = true :=
    fun htrue => absurd (hbefore.symm.trans htrue) (by decide)
  have hphase := h.phase
  cases h.sends with
  | sent hopen ho hq =>
    refine ⟨[⟨s.slot, n⟩], hq, ho.trans hopen.symm, rfl, hstays, ?_⟩
    intro report hreport
    cases List.mem_singleton.mp hreport
    exact ⟨rfl, rfl, hphase, Phase.delivered_afterDelivery _ n⟩
  | dropped => exact ⟨[], (List.append_nil _).symm, rfl, rfl, hstays, nofun⟩
  | blocked hopen ho hq =>
    exact ⟨[], hq.trans (List.append_nil _).symm, ho.trans hopen.symm, rfl, hstays, nofun⟩

theorem Action.puts (h : Action plan s sh s' sh') : ∃ put, Puts plan s sh s' sh' put := by
  cases h with
  | advance h =>
    have hstays : ∀ {b : Bool}, s.phase.delivered plan.releaseOrder = true → b = true :=
      fun htrue => absurd (h.not_delivered.symm.trans htrue) (by decide)
    exact ⟨[], (List.append_nil _).symm, rfl, rfl, hstays, nofun⟩
  | finish => exact ⟨[], (List.append_nil _).symm, rfl, rfl, fun _ => rfl, nofun⟩
  | @release n hp =>
    refine ⟨[], (List.append_nil _).symm, rfl, rfl, ?_, nofun⟩
    rw [hp]
    exact Phase.delivered_afterRelease
  | deliver h => exact h.puts

end Session

namespace Pool

variable {p p' : Pool κ} {sent : List Report}

/-- The reports that have been put are from different sessions, none of which has its report still
before it. -/
structure Posted (plan : Plan κ) (p : Pool κ) (sent : List Report) : Prop where
  distinct : (sent.map Report.slot).Nodup
  issued : ∀ report ∈ sent, report.slot < p.shared.admission.next
  undelivered : ∀ s ∈ p.sessions, s.phase.delivered plan.releaseOrder = false →
    s.slot ∉ sent.map Report.slot

namespace Posted

theorem nil (plan : Plan κ) (p : Pool κ) : p.Posted plan [] :=
  ⟨List.nodup_nil, nofun, fun _ _ _ => List.not_mem_nil⟩

theorem mono (h : p.Posted plan sent) (hsub : p'.sessions ⊆ p.sessions)
    (hnext : p.shared.admission.next ≤ p'.shared.admission.next) : p'.Posted plan sent :=
  ⟨h.distinct, fun report hr => Nat.lt_of_lt_of_le (h.issued report hr) hnext,
    fun s hs => h.undelivered s (hsub hs)⟩

theorem launch (h : p.Posted plan sent) {slot : Nat} (hl : p.launch? = some (slot, p')) :
    p'.Posted plan sent := by
  have hsessions := fun s => mem_launch (s := s) hl
  obtain ⟨admission, ha, rfl⟩ := eq_of_launch hl
  obtain ⟨-, rfl, rfl⟩ := Admission.eq_of_acquire ha
  refine ⟨h.distinct, fun report hr => Nat.lt_succ_of_lt (h.issued report hr), ?_⟩
  intro s hs hdelivered hmem
  rcases (hsessions s).mp hs with hs | rfl
  · exact h.undelivered s hs hdelivered hmem
  · obtain ⟨report, hr, heq⟩ := List.mem_map.mp hmem
    exact Nat.ne_of_lt (h.issued report hr) heq

theorem update (h : p.Posted plan sent) (hsound : p.Sound plan) {s s' : Session κ} {sh' : Shared}
    (hs : s ∈ p.sessions) (hnext : sh'.admission.next = p.shared.admission.next)
    {put : List Report} (hp : s.Puts plan p.shared s' sh' put) :
    (p.update s' sh').Posted plan (sent ++ put) := by
  have hnew : ∀ report ∈ put, report.slot ∉ sent.map Report.slot := by
    intro report hr
    obtain ⟨-, hslot, hphase, -⟩ := hp.report report hr
    rw [hslot]
    refine h.undelivered s hs ?_
    rcases hphase with hphase | hphase
    all_goals
      rw [hphase]
      rfl
  have hput : (put.map Report.slot).Nodup := by
    cases put with
    | nil => exact List.nodup_nil
    | cons report rest =>
      rw [(hp.report report List.mem_cons_self).1]
      exact List.nodup_singleton _
  refine ⟨?_, ?_, ?_⟩
  · rw [List.map_append, List.nodup_append]
    refine ⟨h.distinct, hput, ?_⟩
    rintro slot hslot _ hmem rfl
    obtain ⟨report, hr, rfl⟩ := List.mem_map.mp hmem
    exact hnew report hr hslot
  · intro report hr
    show report.slot < sh'.admission.next
    rw [hnext]
    rcases List.mem_append.mp hr with hr | hr
    · exact h.issued report hr
    · rw [(hp.report report hr).2.1]
      exact hsound.issued s hs
  · intro t ht hdelivered hmem
    rw [List.map_append, List.mem_append] at hmem
    rcases (mem_update hs hp.slot).mp ht with rfl | ⟨ht, hne⟩
    · have hbefore : s.phase.delivered plan.releaseOrder = false := by
        cases hd : s.phase.delivered plan.releaseOrder with
        | false => rfl
        | true => exact (hp.stays hd).symm.trans hdelivered
      rcases hmem with hmem | hmem
      · rw [hp.slot] at hmem
        exact h.undelivered s hs hbefore hmem
      · obtain ⟨report, hr, -⟩ := List.mem_map.mp hmem
        have hafter := (hp.report report hr).2.2.2
        exact absurd (hdelivered.symm.trans hafter) (by decide)
    · rcases hmem with hmem | hmem
      · exact h.undelivered t ht hdelivered hmem
      · obtain ⟨report, hr, heq⟩ := List.mem_map.mp hmem
        exact hne (heq.symm.trans (hp.report report hr).2.1)

end Posted

/-- What an action of a session puts into the channel: nothing, or the report of a session that has
completed as many round trips as it reports. -/
theorem put_of_step (h : p.Sound plan) {slot : Nat} (hs : p.step? plan slot = some p') :
    ∃ put, p'.shared.channel.queue = p.shared.channel.queue ++ put ∧
      p'.shared.channel.isOpen = p.shared.channel.isOpen ∧
      (∀ report ∈ put, put = [report] ∧ report.slot = slot ∧
        Completed plan report.slot report.completed p.shared.trace) ∧
      ∀ sent, p.Posted plan sent → p'.Posted plan (sent ++ put) := by
  obtain ⟨s, s', sh', hmem, rfl, hstep, rfl⟩ := session_of_step hs
  have haction := Session.action_of_step hstep
  obtain ⟨put, hput⟩ := haction.puts
  refine ⟨put, hput.queue, hput.isOpen, ?_, ?_⟩
  · intro report hr
    obtain ⟨hsingle, hslot, hphase, -⟩ := hput.report report hr
    have hstory := h.stories s hmem
    rw [hslot]
    rcases hphase with hphase | hphase
    all_goals
      rw [hphase] at hstory
      exact ⟨hsingle, rfl, hstory⟩
  · intro sent hposted
    exact hposted.update h hmem (haction.evolves (h.tokens s hmem)).next hput

end Pool

end EchoLoad
