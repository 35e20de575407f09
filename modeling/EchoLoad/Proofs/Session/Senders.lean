import EchoLoad.Proofs.Channel
import EchoLoad.Proofs.Session.Soundness

/-!
# Who can still send

A session that is under way has a sender of the channel, and lets go of it when it ends, by itself
or from outside (`Action.senders`, `senders_abort`). One more sender belongs to the driver. So there
are always as many senders as sessions under way and one more (`Pool.Attended`), and the channel
does not run dry as long as the driver is there to let sessions in. Nothing that happens to a pool
stops its tokens from being handed out either.
-/

namespace EchoLoad

variable {κ : Type} {plan : Plan κ}

namespace Phase

def underWay : Phase κ → Bool
  | .ended _ => false
  | _ => true

theorem underWay_afterClose (order : ReleaseOrder) (n : Nat) :
    (Phase.afterClose order n : Phase κ).underWay = true := by
  cases order <;> rfl

theorem underWay_afterRelease (order : ReleaseOrder) (n : Nat) :
    (Phase.afterRelease order n : Phase κ).underWay = true := by
  cases order <;> rfl

theorem underWay_afterDelivery (order : ReleaseOrder) (n : Nat) :
    (Phase.afterDelivery order n : Phase κ).underWay = true := by
  cases order <;> rfl

theorem Advance.underWay {slot : Nat} {phase phase' : Phase κ} {t t' : Trace}
    (h : Advance plan slot phase t phase' t') :
    phase.underWay = true ∧ phase'.underWay = true := by
  cases h with
  | dial | trade | complete | fail => exact ⟨rfl, rfl⟩
  | close | closeFailed => exact ⟨rfl, underWay_afterClose _ _⟩

theorem Finish.underWay {slot : Nat} {phase : Phase κ} {ending : Ending} {t t' : Trace}
    (h : Finish plan slot phase t ending t') : phase.underWay = true := by
  cases h <;> rfl

end Phase

namespace Session

variable {s s' : Session κ} {sh sh' : Shared}

/-- An attempt to send leaves the sender with the session. -/
theorem Attempt.senders (plan : Plan κ) {n : Nat} {sending : Channel.Sending × Channel}
    (h : s.Attempt n sh.channel sending) :
    s.phase.underWay = true ∧ (s.deliver plan n sending sh).1.phase.underWay = true ∧
      (s.deliver plan n sending sh).2.channel.senders = sh.channel.senders := by
  have hbefore : s.phase.underWay = true := by
    rcases h.phase with hp | hp
    all_goals
      rw [hp]
      rfl
  have hsenders : sending.2.senders = sh.channel.senders := by
    cases h with
    | first => exact Channel.senders_send _ _
    | again => exact Channel.senders_resume _ _
  obtain ⟨outcome, channel⟩ := sending
  cases outcome with
  | sent | dropped => exact ⟨hbefore, Phase.underWay_afterDelivery _ n, hsenders⟩
  | blocked => exact ⟨hbefore, rfl, hsenders⟩

/-- An action takes away a sender if it ends the session, and otherwise none. -/
theorem Action.senders (h : Action plan s sh s' sh') (hpos : 0 < sh.channel.senders) :
    sh'.channel.senders + s.phase.underWay.toNat =
      sh.channel.senders + s'.phase.underWay.toNat := by
  cases h with
  | advance h =>
    obtain ⟨hbefore, hafter⟩ := h.underWay
    simp only [hbefore, hafter]
  | finish h =>
    rw [h.underWay]
    exact Nat.sub_add_cancel hpos
  | @release n hp =>
    rw [hp]
    exact congrArg _ (congrArg Bool.toNat (Phase.underWay_afterRelease _ n).symm)
  | deliver h =>
    obtain ⟨hbefore, hafter, hsenders⟩ := h.senders plan
    rw [hbefore, hafter, hsenders]

theorem senders_abort (s : Session κ) (sh : Shared) (hpos : 0 < sh.channel.senders) :
    (s.abort sh).2.channel.senders + s.phase.underWay.toNat =
      sh.channel.senders + (s.abort sh).1.phase.underWay.toNat := by
  have hfinish : ∀ channel : Channel, channel.senders = sh.channel.senders →
      channel.senders - 1 + true.toNat = sh.channel.senders + false.toNat := by
    intro channel hsenders
    rw [hsenders]
    exact Nat.sub_add_cancel hpos
  unfold abort
  split
  · rfl
  · next hp =>
    rw [hp]
    exact hfinish _ (Channel.senders_abandon _ _)
  · next hended _ =>
    have hbefore : s.phase.underWay = true := by
      cases hp : s.phase with
      | ended ending => exact absurd hp (hended ending)
      | _ => rfl
    rw [hbefore]
    exact hfinish _ rfl

end Session

namespace Pool

variable {p p' : Pool κ} {s s' : Session κ} {sh' : Shared}

/-- Tokens are still handed out, and there is a sender for every session under way and one more. -/
structure Attended (p : Pool κ) : Prop where
  isOpen : p.shared.admission.isOpen = true
  senders : p.shared.channel.senders = (p.sessions.countP fun s => s.phase.underWay) + 1

/-- A session that is put back takes the place of the one in its slot, and only of this one. -/
theorem Sound.sessions_update (h : p.Sound plan) (hs : s ∈ p.sessions) (hslot : s'.slot = s.slot)
    (sh' : Shared) : ∃ front back, p.sessions = front ++ s :: back ∧
      (p.update s' sh').sessions = front ++ s' :: back := by
  obtain ⟨front, back, hsplit⟩ := List.append_of_mem hs
  -- No other session is in this slot, so putting the session back leaves all others as they are.
  have hothers : ∀ part ⊆ p.sessions, s ∉ part →
      part.map (fun t => if t.slot = s'.slot then s' else t) = part := by
    intro part hsub hnot
    have hsame : ∀ t ∈ part, (if t.slot = s'.slot then s' else t) = id t := by
      intro t ht
      refine if_neg fun heq => hnot ?_
      rw [h.eq_of_slot_eq hs (hsub ht) (heq.trans hslot)] at ht
      exact ht
    rw [List.map_congr_left hsame, List.map_id]
  have hdistinct := h.distinct.of_map
  rw [hsplit, List.nodup_middle, List.nodup_cons, List.mem_append, not_or] at hdistinct
  obtain ⟨⟨hfront, hback⟩, -⟩ := hdistinct
  refine ⟨front, back, hsplit, ?_⟩
  show p.sessions.map _ = _
  rw [hsplit, List.map_append, List.map_cons, if_pos hslot.symm, hothers front ?_ hfront,
    hothers back ?_ hback]
  · rw [hsplit]
    exact List.subset_append_of_subset_right _ (List.subset_cons_self _ _)
  · rw [hsplit]
    exact List.subset_append_left _ _

/-- A session has changed, and the senders with it. -/
theorem Attended.update (h : p.Attended) (hsound : p.Sound plan) (hs : s ∈ p.sessions)
    (he : s.Evolves plan p.shared s' sh')
    (hsenders : sh'.channel.senders + s.phase.underWay.toNat =
      p.shared.channel.senders + s'.phase.underWay.toNat) : (p.update s' sh').Attended := by
  refine ⟨he.isOpen.trans h.isOpen, ?_⟩
  obtain ⟨front, back, hbefore, hafter⟩ := hsound.sessions_update hs he.slot sh'
  have hcount := h.senders
  have hone : ∀ t : Session κ, (if t.phase.underWay = true then 1 else 0) = t.phase.underWay.toNat :=
    fun t => by cases t.phase.underWay <;> rfl
  rw [hbefore, List.countP_append, List.countP_cons, hone] at hcount
  rw [hafter, List.countP_append, List.countP_cons, hone]
  show sh'.channel.senders = _
  omega

/-- A session that has ended has no sender any more, so it can be taken away. -/
theorem Attended.remove (h : p.Attended) (hsound : p.Sound plan) {slot : Nat} {ending : Ending}
    (hs : p.session? slot = some s) (he : s.ending? = some ending) :
    (p.remove slot).Attended := by
  obtain ⟨hmem, hslot⟩ := mem_of_session? hs
  have hended : s.phase.underWay = false := by
    rw [Session.phase_of_ending he]
    rfl
  refine ⟨h.isOpen, h.senders.trans (congrArg (· + 1) ?_)⟩
  show _ = (p.sessions.filter _).countP _
  rw [List.countP_filter]
  refine List.countP_congr fun t ht => ?_
  rw [Bool.and_eq_true, bne_iff_ne]
  constructor
  · intro hunder
    refine ⟨hunder, fun heq => ?_⟩
    rw [hsound.eq_of_slot_eq hmem ht (heq.trans hslot.symm), hended] at hunder
    cases hunder
  · exact And.left

theorem attended_of_empty {concurrency capacity : Nat}
    (h : empty? concurrency capacity = some p) : p.Attended := by
  obtain rfl := eq_of_empty h
  exact ⟨rfl, rfl⟩

/-- Whatever happens to a pool, the tokens are handed out and there is a sender to spare. -/
theorem Attended.change (h : p.Attended) (hsound : p.Sound plan) (hc : Change plan p p') :
    p'.Attended := by
  have hpos : 0 < p.shared.channel.senders := by
    rw [h.senders]
    exact Nat.succ_pos _
  cases hc with
  | launch hl =>
    obtain ⟨admission, ha, rfl⟩ := eq_of_launch hl
    obtain ⟨-, -, rfl⟩ := Admission.eq_of_acquire ha
    refine ⟨h.isOpen, ?_⟩
    show p.shared.channel.senders + 1 = _
    rw [List.countP_append, h.senders]
    rfl
  | step hs =>
    obtain ⟨s, s', sh', hmem, -, hstep, rfl⟩ := session_of_step hs
    have haction := Session.action_of_step hstep
    exact h.update hsound hmem (haction.evolves (hsound.tokens s hmem)) (haction.senders hpos)
  | abort slot =>
    unfold Pool.abort
    split
    · exact h
    · next s hs =>
      obtain ⟨hmem, -⟩ := mem_of_session? hs
      exact h.update hsound hmem (Session.evolves_abort plan s p.shared (hsound.tokens s hmem))
        (Session.senders_abort s p.shared hpos)
  | receive hr =>
    obtain ⟨channel, hc, rfl⟩ := eq_of_receive hr
    exact ⟨h.isOpen, (Channel.senders_of_receive hc).trans h.senders⟩
  | dropReceiver => exact ⟨h.isOpen, h.senders⟩
  | remove hs he => exact h.remove hsound hs he
  | note e => exact ⟨h.isOpen, h.senders⟩

end Pool

end EchoLoad
