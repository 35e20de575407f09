import EchoLoad.Proofs.Run.Accounting
import EchoLoad.Proofs.Session.Messages
import EchoLoad.Proofs.Workload

/-!
# The workload of a configuration

A configuration that has been checked has a workload, and what the workload says of itself is true
(`workload_of_checked`): its draws lie in the ranges of the configuration, the largest size is one
that can be drawn, the buffer for the replies takes every message, and a fixed size is the size of
all messages. A run relies on the last of these when it shows a rate in bytes: the tally hands the
fixed size through to the summary (`Live.messageSize`), and all that has been written until then was
drawn (`Live.drawn`).
-/

namespace EchoLoad

variable {κ : Type}

@[simp] theorem Tally.messageSize_addAll (t : Tally) (reports : List Nat) :
    (t.addAll reports).messageSize = t.messageSize := by
  induction reports generalizing t with
  | nil => rfl
  | cons n reports ih => exact ih (t.add n)

namespace Pool

variable {plan : Plan κ} {p p' : Pool κ}

theorem trace_abort (p : Pool κ) (slot : Nat) :
    (p.abort slot).shared.trace = p.shared.trace := by
  unfold Pool.abort
  split
  · rfl
  · next s hs =>
    show (s.abort p.shared).2.trace = p.shared.trace
    unfold Session.abort
    split <;> rfl

/-- Only sessions write. -/
theorem Change.drawn (h : Change plan p p') (hd : p.shared.trace.Drawn plan.workload) :
    p'.shared.trace.Drawn plan.workload := by
  cases h with
  | launch hl =>
    obtain ⟨admission, -, rfl⟩ := eq_of_launch hl
    exact hd
  | step hs =>
    obtain ⟨s, s', sh', -, -, hact, rfl⟩ := session_of_step hs
    exact (Session.action_of_step hact).drawn hd
  | abort slot =>
    rw [trace_abort]
    exact hd
  | receive hr =>
    obtain ⟨channel, -, rfl⟩ := eq_of_receive hr
    exact hd
  | dropReceiver => exact hd
  | remove => exact hd
  | note e => exact hd.of_calls_eq rfl

end Pool

namespace Run

variable {s : Setting κ} {r : Run κ}

/-- All messages of a run have sizes that were drawn from its workload. -/
theorem Live.drawn (h : Live s r) : r.pool.shared.trace.Drawn s.workload := by
  refine h.invariant (fun pool hp => ?_) fun _ _ _ hc hd => hc.drawn hd
  obtain rfl := Pool.eq_of_empty hp
  nofun

/-- The size in the result of a run is the fixed size of its workload. -/
theorem Live.messageSize (h : Live s r) {t : Tally} (hv : r.verdict = some (.ok t)) :
    t.messageSize = s.workload.fixedSize := by
  induction h with
  | running h =>
    obtain ⟨steps, htrail⟩ := h.trail
    obtain ⟨-, rfl⟩ := htrail.ledger.verdict t hv
    rw [htrail.ledger.tally]
    exact Tally.messageSize_addAll _ _
  | act _ _ _ ih => exact ih hv
  | collect _ _ _ ih => exact ih hv
  | abort _ _ _ ih => exact ih hv
  | hangUp _ _ ih => exact ih hv

end Run

/-- A checked configuration has the workload that it describes, whatever the random numbers are. The
counts and the sizes that are drawn are those that the configuration offers; no size is above the
largest one, and this one can be drawn at any time. In round trips every read has room for the
message that has just been written, and no less than for the shortest buffer. A fixed size is what
every draw gives, so a run whose summary has a rate in bytes has written messages of this one size
only. -/
theorem workload_of_checked (c : Config) {read : Url.Reader} (h : c.check read = .ok ())
    (randomCount randomSize : Nat → Nat) :
    let w := c.workload randomCount randomSize
    (∀ i, c.count.Offers (w.count i)) ∧
      (∀ i, c.size.Offers (w.size i) ∧ w.size i ≤ w.maxSize) ∧
      (∀ i, ∃ random, (c.workload randomCount random).size i = w.maxSize) ∧
      (∀ (transport : Transport κ) (slot planned : Nat) (conn : κ) (t : Trace), ∃ made,
        (roundTrips transport w slot planned conn t).2.calls =
          made.reverse.map (slot, ·) ++ t.calls ∧
        ∀ earlier room later, made = earlier ++ .read room :: later →
          Workload.minReadBuffer ≤ room ∧
          ∃ front message, earlier = front ++ [.write message] ∧ message.length ≤ room) ∧
      (∀ n, w.fixedSize = some n → ∀ random i, (c.workload randomCount random).size i = n) ∧
      ∀ s : Run.Setting κ, s.config = c → s.workload = w → ∀ r, Run.Live s r →
        ∀ t, r.verdict = some (.ok t) → ∀ rate, (Summary.ofTally t s.elapsed).byteRate = some rate →
          ∃ n, w.fixedSize = some n ∧
            ∀ slot message, (slot, .write message) ∈ r.pool.shared.trace.calls →
              message.length = n := by
  intro w
  obtain ⟨-, -, hcount, hsize, -⟩ := Config.check_eq_ok_iff.mp h
  have hle : ∀ i, w.size i ≤ w.maxSize := fun i => Amount.draw_le_largest hsize _
  have hfixed : ∀ n, w.fixedSize = some n → ∀ random i,
      (c.workload randomCount random).size i = n :=
    fun n hn random i => Amount.draw_of_fixed? hn _
  refine ⟨fun i => Amount.offers_draw hcount _, fun i => ⟨Amount.offers_draw hsize _, hle i⟩,
    fun i => ?_, fun transport slot planned conn t => ?_, hfixed, ?_⟩
  · obtain ⟨random, hrandom⟩ := (Amount.exists_draw_iff hsize).mpr (Amount.offers_largest hsize)
    exact ⟨fun _ => random, hrandom⟩
  · obtain ⟨made, hcalls, hreads⟩ := roundTrips_write_of_read transport w slot planned conn t
    refine ⟨made, hcalls, fun earlier room later hmade => ?_⟩
    obtain ⟨rfl, front, i, hearlier⟩ := hreads earlier room later hmade
    refine ⟨Nat.le_max_right _ _, front, _, hearlier, ?_⟩
    rw [Workload.message, List.length_replicate]
    exact Nat.le_trans (hle i) (Nat.le_max_left _ _)
  · intro s hconfig hworkload r hlive t hv rate hrate
    -- A rate in bytes is shown only if the tally has a size, which is that of the workload.
    have hshown := hlive.messageSize hv
    obtain ⟨n, hn, -⟩ := Option.map_eq_some_iff.mp hrate
    have hsome : w.fixedSize = some n := by rw [← hworkload, ← hshown, ← hn]; rfl
    refine ⟨n, hsome, fun slot message hmem => ?_⟩
    obtain ⟨i, rfl⟩ := hlive.drawn slot message hmem
    rw [Workload.message, List.length_replicate, hworkload]
    exact hfixed n hsome randomSize i

/-- One session at a time, whose only message has five bytes. -/
def Run.Setting.sized : Run.Setting Rehearsal :=
  let config : Config :=
    { concurrency := 1, targetTotal := 0, url := "ws://h/", count := .fixed 1, size := .fixed 5 }
  { config
    transport := Rehearsal.transport []
    workload := config.workload (fun i => i) (fun i => i)
    elapsed := ⟨0, 0⟩ }

/-- A run that shows a rate in bytes, and has written the message. -/
theorem workload_of_checked_fixed : Run.Setting.sized.config.check Run.Setting.sized.reader = .ok () ∧
    ∃ r t rate, Run.Live Run.Setting.sized r ∧ r.verdict = some (.ok t) ∧
      (Summary.ofTally t ⟨0, 0⟩).byteRate = some rate ∧
      (0, .write (List.replicate 5 filler)) ∈ r.pool.shared.trace.calls ∧
      ∀ slot message, (slot, .write message) ∈ r.pool.shared.trace.calls →
        message.length = 5 := by
  have hcheck : Run.Setting.sized.config.check Run.Setting.sized.reader = .ok () := by rfl
  have hbegin : Run.Reachable Run.Setting.sized _ := .begin (by rw [Run.begin, hcheck]; rfl)
  have hdial := Run.Reachable.step (.act 0) (.step .launch hbegin rfl) rfl
  have hpair := Run.Reachable.step (.act 0) (.step (.act 0) hdial rfl) rfl
  have hclose := Run.Reachable.step (.act 0) (.step (.act 0) hpair rfl) rfl
  have hreport := Run.Reachable.step (.act 0) (.step (.act 0) hclose rfl) rfl
  have hstop := Run.Reachable.step .stop (.step .collect hreport rfl) rfl
  obtain ⟨-, -, -, -, -, hrate⟩ := workload_of_checked Run.Setting.sized.config hcheck _ _
  obtain ⟨n, hn, hsizes⟩ := hrate Run.Setting.sized rfl rfl _ (.running hstop) _ rfl _ rfl
  obtain rfl : 5 = n := Option.some.inj hn
  exact ⟨hcheck, _, _, _, .running hstop, rfl, rfl, by decide, hsizes⟩

end EchoLoad
