import EchoLoad.Proofs.Session.Action
import EchoLoad.Proofs.Session.RoundTrips

/-!
# The messages of a trace

Whatever sessions write, they have drawn its size from their workload (`Trace.Drawn`). Every action
of a session keeps this (`Session.Action.drawn`), since only a step of the round trips writes.

In the calls of round trips every read stands right behind the write of a message
(`roundTrips_write_of_read`).
-/

namespace EchoLoad

variable {κ : Type}

namespace Trace

/-- Every message that has been written has the size of a draw. -/
def Drawn (w : Workload) (t : Trace) : Prop :=
  ∀ slot message, (slot, Call.write message) ∈ t.calls → ∃ i, message = w.message i

variable {w : Workload} {t t' : Trace}

theorem Drawn.of_calls_eq (h : t.Drawn w) (ht : t'.calls = t.calls) : t'.Drawn w := by
  unfold Drawn
  rw [ht]
  exact h

theorem Drawn.call (h : t.Drawn w) (slot : Nat) {c : Call}
    (hc : ∀ message, c = .write message → ∃ i, message = w.message i) :
    (t.call slot c).Drawn w := by
  intro slot' message hmem
  rcases List.mem_cons.mp hmem with heq | hmem
  · exact hc message (Prod.mk.inj heq).2.symm
  · exact h slot' message hmem

end Trace

namespace Trips

variable {transport : Transport κ} {w : Workload} {slot : Nat} {t t' : Trace}
  {progress : Progress κ}

theorem calls_reply {written left : Nat} {conn : κ}
    (h : reply transport w slot written left conn t = (progress, t')) : t'.calls = t.calls := by
  unfold reply at h
  split at h
  · dsimp only at h
    split at h
    · cases h
      rfl
    · cases h
      rfl
  all_goals
    cases h
    rfl

theorem drawn_step {trips : Trips κ} (hd : t.Drawn w)
    (h : step transport w slot trips t = (progress, t')) : t'.Drawn w := by
  have hsized : Trace.Drawn w { t with sizeDraws := t.sizeDraws + 1 } := hd.of_calls_eq rfl
  have hread := hd.call slot (c := .read w.readBuffer) nofun
  unfold step at h
  split at h
  · split at h
    · cases h
      exact hd
    split at h
    · cases h
      exact hd
    dsimp only at h
    split at h
    · cases h
      exact hsized
    have hwrite := hsized.call slot (c := .write (w.message t.sizeDraws)) (by
      rintro message ⟨⟩
      exact ⟨_, rfl⟩)
    split at h
    all_goals
      cases h
      exact hwrite
  · dsimp only at h
    split at h
    · cases h
      exact hread
    · exact hread.of_calls_eq (calls_reply h)
  · exact hd.of_calls_eq (calls_reply h)

end Trips

variable {plan : Plan κ} {slot : Nat} {phase phase' : Phase κ} {t t' : Trace}

theorem Plan.drawn_dialed (h : t.Drawn plan.workload) (slot : Nat) :
    (plan.dialed slot t).Drawn plan.workload := by
  have hcounted : Trace.Drawn plan.workload
      { t with countDraws := t.countDraws + 1, dials := t.dials + 1 } := h.of_calls_eq rfl
  exact hcounted.call slot nofun

theorem Phase.Advance.drawn (h : Advance plan slot phase t phase' t')
    (hd : t.Drawn plan.workload) : t'.Drawn plan.workload := by
  cases h with
  | dial => exact plan.drawn_dialed hd slot
  | trade h => exact Trips.drawn_step hd h
  | complete h => exact Trips.drawn_step hd h
  | fail h => exact Trips.drawn_step hd h
  | close => exact hd.call slot nofun
  | closeFailed => exact (hd.call slot (c := .close) nofun).of_calls_eq rfl

theorem Phase.Finish.drawn {ending : Ending} (h : Finish plan slot phase t ending t')
    (hd : t.Drawn plan.workload) : t'.Drawn plan.workload := by
  cases h with
  | dialFailed => exact plan.drawn_dialed hd slot
  | dialPanicked => exact plan.drawn_dialed hd slot
  | tripsPanicked h => exact Trips.drawn_step hd h
  | closed => exact hd.call slot nofun
  | closeFailed => exact (hd.call slot (c := .close) nofun).of_calls_eq rfl
  | closePanicked => exact hd.call slot nofun
  | done => exact hd.of_calls_eq rfl

theorem Session.calls_deliver (plan : Plan κ) (s : Session κ) (n : Nat)
    (sending : Channel.Sending × Channel) (sh : Shared) :
    (s.deliver plan n sending sh).2.trace.calls = sh.trace.calls := by
  obtain ⟨outcome, channel⟩ := sending
  cases outcome <;> rfl

theorem Session.Action.drawn {s s' : Session κ} {sh sh' : Shared} (h : Action plan s sh s' sh')
    (hd : sh.trace.Drawn plan.workload) : sh'.trace.Drawn plan.workload := by
  cases h with
  | advance h => exact h.drawn hd
  | finish h => exact h.drawn hd
  | release => exact hd
  | deliver => exact hd.of_calls_eq (calls_deliver plan s _ _ sh)

/-! ## Reads and the writes before them -/

/-- Among calls with which round trips begin, a read comes right after the write of one of their
messages, and it has all of the buffer. -/
theorem Call.write_of_read {room given : Nat} {messages : List Bytes} {earlier later : List Call}
    (h : earlier ++ .read given :: later <+: messages.flatMap (roundTrip room)) :
    given = room ∧ ∃ front, ∃ message ∈ messages, earlier = front ++ [.write message] := by
  induction messages generalizing earlier with
  | nil =>
    have hnil := List.prefix_nil.mp h
    simp at hnil
  | cons message messages ih =>
    rw [List.flatMap_cons, roundTrip] at h
    -- The read is the second call of this round trip, or it belongs to a later one.
    match earlier with
    | [] =>
      simp only [List.nil_append, List.cons_append, List.cons_prefix_cons] at h
      cases h.1
    | [first] =>
      simp only [List.nil_append, List.cons_append, List.cons_prefix_cons] at h
      obtain ⟨rfl, hgiven, -⟩ := h
      cases hgiven
      exact ⟨rfl, [], message, List.mem_cons_self, rfl⟩
    | first :: second :: earlier =>
      simp only [List.nil_append, List.cons_append, List.cons_prefix_cons] at h
      obtain ⟨rfl, rfl, hrest⟩ := h
      obtain ⟨hgiven, front, before, hbefore, rfl⟩ := ih hrest
      exact ⟨hgiven, .write message :: .read room :: front, before,
        List.mem_cons_of_mem _ hbefore, rfl⟩

/-- The calls that are logged are the first ones of those that were planned. -/
theorem Trips.Logged.isPrefix {transport : Transport κ} {w : Workload} {slot planned : Nat}
    {conn last : κ} {t t' : Trace} {xs : List Exchange} {outcome : Outcome Unit} {rest : List Call}
    (h : Logged transport w slot planned conn t xs last outcome rest t') :
    (w.messages t.sizeDraws xs.length).flatMap (Call.roundTrip w.readBuffer) ++ rest <+:
      (w.messages t.sizeDraws planned).flatMap (Call.roundTrip w.readBuffer) := by
  have hplanned : xs.length + (planned - xs.length) = planned := by
    have hle := h.length_le
    omega
  rw [← hplanned, Workload.messages_add, List.flatMap_append, List.prefix_append_right_inj]
  exact h.stops.isPrefix

/-- Whatever becomes of round trips, they have only written and read, and a read has the whole
buffer and comes right after the write of a message whose size was drawn. -/
theorem roundTrips_write_of_read (transport : Transport κ) (w : Workload) (slot planned : Nat)
    (conn : κ) (t : Trace) : ∃ made,
      (roundTrips transport w slot planned conn t).2.calls = made.reverse.map (slot, ·) ++ t.calls ∧
      ∀ earlier room later, made = earlier ++ .read room :: later →
        room = w.readBuffer ∧ ∃ front i, earlier = front ++ [.write (w.message i)] := by
  obtain ⟨xs, last, rest, h⟩ := Trips.exists_logged transport w slot planned conn t
  have hsame : (roundTrips transport w slot planned conn t).2 =
      (Trips.run transport w slot { conn, left := planned } t).2 := by
    unfold roundTrips
    generalize Trips.run transport w slot { conn, left := planned } t = result
    obtain ⟨progress, t'⟩ := result
    cases progress <;> rfl
  refine ⟨_, hsame ▸ h.calls, fun earlier room later hmade => ?_⟩
  have hprefix := h.isPrefix
  rw [hmade] at hprefix
  obtain ⟨hroom, front, message, hmessage, hearlier⟩ := Call.write_of_read hprefix
  obtain ⟨i, -, rfl⟩ := List.mem_map.mp hmessage
  exact ⟨hroom, front, _, hearlier⟩

end EchoLoad
