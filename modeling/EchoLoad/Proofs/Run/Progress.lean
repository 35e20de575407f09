import EchoLoad.Proofs.Config
import EchoLoad.Proofs.Run.Provenance
import EchoLoad.Proofs.Session.Line

/-!
# No deadlock

As long as the driver has not returned, somebody can go on (`no_deadlock`): the driver, the
aggregator or a session. All that is asked for is that the calls of the transport return.

The driver waits for the aggregator, for a token, or for a session to end; a session waits for a
place in the channel only, and the aggregator for a report. If the aggregator has ended, the driver
sees it; if there is a report, the aggregator takes it; if there is a token, the driver lets a
session in. If there is none of these, then some session holds a token, as there is at least one,
and this session has not ended. It can go on unless it waits for a place, and then every place is
kept for a session that can.
-/

namespace EchoLoad

/-- Every call of the transport returns, though it may fail. -/
structure Transport.Returns {κ : Type} (t : Transport κ) : Prop where
  dial : ∀ n url origin, t.dial n url origin ≠ .waiting
  write : ∀ conn message, (t.write conn message).1 ≠ .waiting
  read : ∀ conn room, (t.read conn room).1 ≠ .waiting
  close : ∀ conn, (t.close conn).1 ≠ .waiting

/-- A rehearsed call always returns. -/
theorem Rehearsal.returns_transport (scripts : List Script) : (transport scripts).Returns where
  dial n url origin := by
    show dial _ ≠ .waiting
    unfold dial
    split <;> nofun
  write r message := by
    show (write r message).1 ≠ .waiting
    unfold write
    dsimp only
    split
    · nofun
    split <;> nofun
  read r room := by
    show (read r room).1 ≠ .waiting
    unfold read
    dsimp only
    split <;> nofun
  close r := by
    show (close r).1 ≠ .waiting
    unfold close
    split <;> nofun

section Sessions

variable {κ : Type} {plan : Plan κ} {s : Session κ} {sh : Shared}

theorem Trips.reply_ne_stuck {transport : Transport κ} (h : transport.Returns)
    (workload : Workload) (slot written left : Nat) (conn : κ) (t : Trace) :
    (reply transport workload slot written left conn t).1 ≠ .stuck := by
  have hread := h.read conn workload.readBuffer
  unfold reply
  split
  · nofun
  · nofun
  · next hr =>
    rw [hr] at hread
    exact absurd rfl hread
  · nofun

theorem Trips.step_ne_stuck {transport : Transport κ} (h : transport.Returns)
    (workload : Workload) (slot : Nat) (trips : Trips κ) (t : Trace) :
    (step transport workload slot trips t).1 ≠ .stuck := by
  unfold step
  split
  · split
    · nofun
    split
    · nofun
    dsimp only
    split
    · nofun
    · have hwrite := h.write trips.conn (List.replicate (workload.size t.sizeDraws) filler)
      split
      · nofun
      · nofun
      · next hw =>
        rw [hw] at hwrite
        exact absurd rfl hwrite
      · nofun
  · dsimp only
    split
    · nofun
    · exact reply_ne_stuck h _ _ _ _ _ _
  · exact reply_ne_stuck h _ _ _ _ _ _

namespace Session

theorem start_isSome (h : plan.transport.Returns) (s : Session κ) (sh : Shared) :
    (s.start plan sh).isSome = true := by
  unfold start
  dsimp only
  split
  · rfl
  · rfl
  · next hd => exact absurd hd (h.dial _ _ _)
  · rfl

theorem trade_isSome (h : plan.transport.Returns) (s : Session κ) (planned : Nat)
    (trips : Trips κ) (sh : Shared) : (s.trade plan planned trips sh).isSome = true := by
  have hstep := Trips.step_ne_stuck h plan.workload s.slot trips sh.trace
  unfold trade
  split
  all_goals first
    | rfl
    | next hs =>
      rw [hs] at hstep
      exact absurd rfl hstep

theorem close_isSome (h : plan.transport.Returns) (s : Session κ) (planned : Nat) (conn : κ)
    (failure : Option Error) (sh : Shared) :
    (s.close plan planned conn failure sh).isSome = true := by
  unfold close
  dsimp only
  split
  · cases failure <;> rfl
  · cases failure <;> rfl
  · next hc => exact absurd hc (h.close conn)
  · rfl

/-- A session that has not ended and does not wait for a place can go on. -/
theorem step_isSome (h : plan.transport.Returns) (hended : s.ending? = none)
    (hb : s.isBlocked sh.channel = false) : (s.step plan sh).isSome = true := by
  unfold step
  split
  · exact start_isSome h s sh
  · exact trade_isSome h s _ _ sh
  · exact close_isSome h s _ _ _ sh
  · rfl
  · rfl
  · rw [if_neg (Bool.eq_false_iff.mp hb)]
    rfl
  · rfl
  · next hp =>
    rw [ending?, hp] at hended
    cases hended

end Session

end Sessions

namespace Pool

variable {κ : Type} {plan : Plan κ} {p : Pool κ} {s : Session κ}

theorem Sound.session?_eq (h : p.Sound plan) (hs : s ∈ p.sessions) :
    p.session? s.slot = some s := by
  have hfound : (p.session? s.slot).isSome = true :=
    List.find?_isSome.mpr ⟨s, hs, beq_self_eq_true s.slot⟩
  obtain ⟨t, ht⟩ := Option.isSome_iff_exists.mp hfound
  obtain ⟨hmem, hslot⟩ := mem_of_session? ht
  rw [ht, h.eq_of_slot_eq hs hmem hslot]

end Pool

namespace Run

variable {κ : Type} {s : Setting κ} {r : Run κ}

theorem Reachable.checked (h : Reachable s r) : s.config.check s.reader = .ok () := by
  induction h with
  | begin h =>
    unfold Run.begin at h
    split at h
    · cases h
    · next hc => exact hc
  | step _ _ _ ih => exact ih

theorem Live.lined (h : Live s r) : r.pool.Lined s.config.reportBuffer :=
  h.invariant (fun _ hp => Pool.lined_of_empty hp) fun _ _ hsound hc hp => hp.change hsound hc

/-- A session that can go on makes a move of the run. -/
theorem step_isSome_of_act (ht : s.transport.Returns) (hk : Kept s r.pool) (hv : r.verdict = none)
    {x : Session κ} (hx : x ∈ r.pool.sessions) (hended : x.ending? = none)
    (hb : x.isBlocked r.pool.shared.channel = false) :
    (r.step? s (.act x.slot)).isSome = true := by
  have hstep : (x.step s.plan r.pool.shared).isSome = true := Session.step_isSome ht hended hb
  obtain ⟨⟨x', sh'⟩, hstep⟩ := Option.isSome_iff_exists.mp hstep
  have hact : r.pool.step? s.plan x.slot = some (r.pool.update x' sh') := by
    rw [Pool.step?, hk.sound.session?_eq hx]
    show (x.step s.plan r.pool.shared >>= _) = _
    rw [hstep]
    rfl
  simp [step?, hv, hact]

/-- If all tokens are handed out and no report waits to be received, then some session can go on. -/
theorem Live.exists_going (h : Live s r) (hchecked : s.config.check s.reader = .ok ())
    (hqueue : r.pool.shared.channel.queue = []) (hfree : r.pool.shared.admission.free = 0) :
    ∃ x ∈ r.pool.sessions, x.ending? = none ∧ x.isBlocked r.pool.shared.channel = false := by
  obtain ⟨⟨hconcurrency, -⟩, hplaces, -⟩ := Config.check_eq_ok_iff.mp hchecked
  have hsound := h.kept.sound
  have hbalance := hsound.balanced.balance
  rw [hfree, Nat.zero_add, h.kept.concurrency] at hbalance
  obtain ⟨slot, hheld⟩ := List.exists_mem_of_length_pos (hbalance ▸ hconcurrency)
  obtain ⟨x, hx, -, hholds⟩ := (hsound.held slot).mp hheld
  cases hb : x.isBlocked r.pool.shared.channel with
  | false =>
    have hended : x.ending? = none := by
      cases he : x.ending? with
      | none => rfl
      | some ending => exact absurd hholds (Bool.eq_false_iff.mp (hsound.holdsToken_of_ending hx he))
    exact ⟨x, hx, hended, hb⟩
  | true =>
    obtain ⟨y, hy, hqueued, hb⟩ := h.lined.exists_unblocked hplaces hqueue hx hb
    refine ⟨y, hy, ?_, hb⟩
    unfold Session.ending?
    split
    · next hp =>
      rw [hp] at hqueued
      cases hqueued
    · rfl

/-- As long as the driver has not returned, the driver, the aggregator or a session can make a move. -/
theorem no_deadlock (ht : s.transport.Returns) (h : Reachable s r) (hv : r.verdict = none) :
    ∃ m, (r.step? s m).isSome = true := by
  have hlive := Live.running h
  have hattended := h.attended
  cases ha : r.aggregator with
  | stopped => exact ⟨.stop, by simp [step?, hv, ha]⟩
  | closed => exact ⟨.stop, by simp [step?, hv, ha]⟩
  | collecting =>
  cases hqueue : r.pool.shared.channel.queue with
  | cons report rest =>
    exact ⟨.collect, by simp [step?, hv, ha, Pool.receive?, Channel.receive?, hqueue]⟩
  | nil =>
  by_cases hfree : r.pool.shared.admission.free = 0
  · obtain ⟨x, hx, hended, hb⟩ := hlive.exists_going h.checked hqueue hfree
    exact ⟨_, step_isSome_of_act ht hlive.kept hv hx hended hb⟩
  · exact ⟨.launch, by simp [step?, hv, hattended.isOpen, Pool.launch?, Admission.acquire?, hfree]⟩

/-- One session at a time and one place for a report, and tokens that are freed after the report. -/
def Setting.narrow : Setting Rehearsal :=
  { config := { concurrency := 1, reportBuffer := 1, targetTotal := 5, url := "ws://h/",
                releaseOrder := .afterReport }
    transport := Rehearsal.transport []
    workload := .constant 1 5
    elapsed := ⟨0, 0⟩ }

theorem check_narrow : Setting.narrow.config.check Setting.narrow.reader = .ok () := by rfl

/-- What can be come to by moves in turn. -/
theorem Reachable.moves (h : Reachable s r) (moves : List Move) {r' : Run κ}
    (hm : moves.foldlM (step? s) r = some r') : Reachable s r' := by
  induction moves generalizing r with
  | nil =>
    cases hm
    exact h
  | cons m moves ih =>
    rw [List.foldlM_cons] at hm
    obtain ⟨r'', hstep, hrest⟩ := Option.bind_eq_some_iff.mp hm
    exact ih (.step m h hstep) hrest

/-- The one session there can be holds the token and has waited for a place; the report before it has
been collected, so that the place is kept for it. The channel is empty and no token is free. -/
theorem no_deadlock_narrow : ∃ r, Reachable Setting.narrow r ∧ r.verdict = none ∧
    r.pool.shared.admission.free = 0 ∧ r.pool.shared.channel.queue = [] ∧
    r.pool.shared.channel.reserved = [1] ∧ ∃ m, (r.step? Setting.narrow m).isSome = true := by
  have hbegin : Reachable Setting.narrow _ := .begin (by rw [begin, check_narrow]; rfl)
  have hmoves := hbegin.moves (.launch :: List.replicate 8 (.act 0) ++
    .join 0 :: .launch :: List.replicate 6 (.act 1) ++ [.collect]) rfl
  exact ⟨_, hmoves, rfl, rfl, rfl, rfl, no_deadlock (Rehearsal.returns_transport []) hmoves rfl⟩

end Run

end EchoLoad
