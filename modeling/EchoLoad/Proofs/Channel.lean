import EchoLoad.Channel
import Mathlib.Data.List.Nodup
import Mathlib.Tactic.Tauto

/-!
# What goes into the channel and what comes out

An attempt to send puts its report at the end of the queue or leaves the queue as it is
(`Channel.Sends`); receiving takes the first report and changes nothing else about the reports
(`eq_cons_of_receive`). What else the channel keeps, who waits and for whom a place is kept, does
not change what is in the queue.

A place is taken by a report, kept for a session that waits, or free. `Channel.Fits`: there are no
more reports and kept places than the channel has places. A place that is kept is one that has just
become free, so that everything that can happen to the channel preserves this.

Sessions that wait for a place stand in line, and so do those for which one is kept
(`Channel.line`). Nobody stands in it twice, and nobody waits in it while a place is free
(`Channel.Orderly`). Only those come into the line who find no place, and only those leave it who
send or give up: a place that has become free moves the line, and takes nobody out of it.

Nothing of all this changes how many there are that can still send.
-/

namespace EchoLoad.Channel

/-- What an attempt to send does to the reports in the channel. -/
inductive Sends (c : Channel) (report : Report) : Sending × Channel → Prop where
  | sent {c' : Channel} (hopen : c.isOpen = true) (ho : c'.isOpen = true)
      (hq : c'.queue = c.queue ++ [report]) : Sends c report (.sent, c')
  | dropped (hopen : c.isOpen = false) : Sends c report (.dropped, c)
  | blocked {c' : Channel} (hopen : c.isOpen = true) (ho : c'.isOpen = true)
      (hq : c'.queue = c.queue) : Sends c report (.blocked, c')

variable {c c' : Channel} {report : Report}

theorem sends_send (c : Channel) (report : Report) : c.Sends report (c.send report) := by
  unfold send
  cases hopen : c.isOpen with
  | false => exact .dropped hopen
  | true =>
    rw [if_neg (by nofun)]
    split
    · exact .sent hopen rfl rfl
    · exact .blocked hopen rfl rfl

theorem sends_resume (c : Channel) (report : Report) : c.Sends report (c.resume report) := by
  unfold resume
  cases hopen : c.isOpen with
  | false => exact .dropped hopen
  | true =>
    rw [if_neg (by nofun)]
    split
    · exact .sent hopen rfl rfl
    · exact .blocked hopen hopen rfl

@[simp] theorem queue_passOn (c : Channel) : c.passOn.queue = c.queue := by
  unfold passOn
  split <;> rfl

@[simp] theorem isOpen_passOn (c : Channel) : c.passOn.isOpen = c.isOpen := by
  unfold passOn
  split <;> rfl

theorem eq_cons_of_receive (h : c.receive? = some (report, c')) :
    c.queue = report :: c'.queue ∧ c'.isOpen = c.isOpen := by
  unfold receive? at h
  split at h
  · cases h
  · next hq =>
    cases h
    rw [queue_passOn, isOpen_passOn]
    exact ⟨hq, rfl⟩

@[simp] theorem queue_abandon (c : Channel) (slot : Nat) : (c.abandon slot).queue = c.queue := by
  unfold abandon
  split
  · exact queue_passOn _
  · rfl

@[simp] theorem isOpen_abandon (c : Channel) (slot : Nat) : (c.abandon slot).isOpen = c.isOpen := by
  unfold abandon
  split
  · exact isOpen_passOn _
  · rfl

/-! ## Places -/

/-- The channel has so many places, and no more of them are taken or kept. -/
structure Fits (places : Nat) (c : Channel) : Prop where
  capacity : c.capacity = places
  taken : c.queue.length + c.reserved.length ≤ places

namespace Fits

variable {places : Nat}

/-- A place that is free goes to a session that waits. -/
theorem passOn (hcapacity : c.capacity = places)
    (htaken : c.queue.length + c.reserved.length < places) : c.passOn.Fits places := by
  unfold Channel.passOn
  split
  · exact ⟨hcapacity, Nat.le_of_lt htaken⟩
  · refine ⟨hcapacity, ?_⟩
    simp only [List.length_append, List.length_singleton]
    omega

theorem send (h : c.Fits places) (report : Report) : (c.send report).2.Fits places := by
  have hcapacity := h.capacity
  have htaken := h.taken
  unfold Channel.send
  split
  · exact h
  split
  · next hroom =>
    refine ⟨hcapacity, ?_⟩
    simp only [Channel.room] at hroom
    simp only [List.length_append, List.length_singleton]
    omega
  · exact ⟨hcapacity, htaken⟩

/-- A report takes the place that has been kept for it. -/
theorem resume (h : c.Fits places) (report : Report) : (c.resume report).2.Fits places := by
  have htaken := h.taken
  unfold Channel.resume
  split
  · exact h
  split
  · next hmem =>
    have hlength := List.length_erase_of_mem hmem
    have hpos := List.length_pos_of_mem hmem
    refine ⟨h.capacity, ?_⟩
    simp only [List.length_append, List.length_singleton, hlength]
    omega
  · exact h

theorem receive (h : c.Fits places) (hr : c.receive? = some (report, c')) : c'.Fits places := by
  have htaken := h.taken
  unfold Channel.receive? at hr
  split at hr
  · cases hr
  · next report rest hq =>
    cases hr
    rw [hq, List.length_cons] at htaken
    refine passOn h.capacity ?_
    show rest.length + c.reserved.length < places
    omega

theorem abandon (h : c.Fits places) (slot : Nat) : (c.abandon slot).Fits places := by
  have htaken := h.taken
  unfold Channel.abandon
  split
  · next hmem =>
    have hlength := List.length_erase_of_mem hmem
    have hpos := List.length_pos_of_mem hmem
    refine passOn h.capacity ?_
    simp only [hlength]
    omega
  · exact ⟨h.capacity, htaken⟩

theorem drop (h : c.Fits places) : c.drop.Fits places := by
  have htaken := h.taken
  refine ⟨h.capacity, ?_⟩
  show 0 + c.reserved.length ≤ places
  omega

end Fits

/-! ## The line -/

/-- The slots of the sessions that are in line for a place, with or without one that is kept. -/
def line (c : Channel) : List Nat := c.waiting ++ c.reserved

/-- The line is in order: nobody is in it twice, and nobody has to wait without need. -/
structure Orderly (c : Channel) : Prop where
  distinct : c.line.Nodup
  full : c.isOpen = true → c.waiting ≠ [] → c.capacity ≤ c.queue.length + c.reserved.length

theorem perm_line_passOn (c : Channel) : c.passOn.line.Perm c.line := by
  unfold passOn line
  split
  · exact .refl _
  · next slot rest hw =>
    rw [hw, ← List.append_assoc]
    exact List.perm_append_singleton slot _

theorem mem_line_send {slot : Nat} : slot ∈ (c.send report).2.line ↔
    slot ∈ c.line ∨ (c.send report).1 = .blocked ∧ slot = report.slot := by
  unfold send
  split
  · simp
  split
  · simp [line]
  · simp only [line, List.mem_append, List.mem_singleton, true_and]
    exact or_right_comm

theorem mem_line_of_receive (h : c.receive? = some (report, c')) {slot : Nat} :
    slot ∈ c'.line ↔ slot ∈ c.line := by
  unfold receive? at h
  split at h
  · cases h
  · cases h
    exact (perm_line_passOn _).mem_iff

namespace Orderly

variable {slot slot' : Nat}

/-- One place has become free. -/
theorem passOn (hdistinct : c.line.Nodup)
    (hfull : c.isOpen = true → c.waiting ≠ [] →
      c.capacity ≤ c.queue.length + c.reserved.length + 1) : c.passOn.Orderly := by
  refine ⟨(perm_line_passOn c).nodup_iff.mpr hdistinct, ?_⟩
  unfold Channel.passOn
  split
  · next hw => exact fun _ hne => absurd hw hne
  · next hw =>
    intro hopen _
    have hcapacity := hfull hopen (by rw [hw]; nofun)
    simp only [List.length_append, List.length_singleton]
    omega

/-- Who finds no place goes to the end of the line. -/
theorem send (h : c.Orderly) (hnew : c.isOpen = true → report.slot ∉ c.line) :
    (c.send report).2.Orderly := by
  unfold Channel.send
  split
  · exact h
  next hopen =>
  have hnew := hnew (by simpa using hopen)
  split
  · next hroom =>
    refine ⟨h.distinct, fun hopen hne => ?_⟩
    have hfull := h.full hopen hne
    simp only [room] at hroom
    omega
  · next hroom =>
    refine ⟨?_, fun _ _ => ?_⟩
    · have hcons := List.nodup_cons.mpr ⟨hnew, h.distinct⟩
      refine (List.Perm.nodup_iff ?_).mp hcons
      show (report.slot :: (c.waiting ++ c.reserved)).Perm (c.waiting ++ [report.slot] ++ c.reserved)
      rw [List.append_assoc]
      exact List.perm_middle.symm
    · simp only [room] at hroom
      show c.capacity ≤ c.queue.length + c.reserved.length
      omega

theorem resume (h : c.Orderly) : (c.resume report).2.Orderly := by
  unfold Channel.resume
  split
  · exact h
  split
  · next hmem =>
    refine ⟨h.distinct.sublist (List.erase_sublist.append_left _), fun hopen hne => ?_⟩
    have hfull := h.full hopen hne
    have hlength := List.length_erase_of_mem hmem
    have hpos := List.length_pos_of_mem hmem
    simp only [List.length_append, List.length_singleton, hlength]
    omega
  · exact h

/-- Who sends at last has left the line. -/
theorem mem_line_resume (h : c.Orderly) (hsent : (c.resume report).1 = .sent) :
    slot ∈ (c.resume report).2.line ↔ slot ≠ report.slot ∧ slot ∈ c.line := by
  have hdistinct := List.nodup_append.mp h.distinct
  unfold Channel.resume at hsent ⊢
  split at hsent
  · cases hsent
  next hopen =>
  rw [if_neg hopen]
  split at hsent
  · next hmem =>
    rw [if_pos hmem, line, line, List.mem_append, List.mem_append, hdistinct.2.1.mem_erase_iff]
    have hwaiting : slot ∈ c.waiting → slot ≠ report.slot :=
      fun hslot heq => hdistinct.2.2 slot hslot report.slot hmem heq
    tauto
  · cases hsent

theorem receive (h : c.Orderly) (hr : c.receive? = some (report, c')) : c'.Orderly := by
  unfold Channel.receive? at hr
  split at hr
  · cases hr
  · next report rest hq =>
    cases hr
    refine passOn h.distinct fun hopen hne => ?_
    have hfull := h.full hopen hne
    rw [hq, List.length_cons] at hfull
    show c.capacity ≤ rest.length + c.reserved.length + 1
    omega

theorem abandon (h : c.Orderly) (slot : Nat) : (c.abandon slot).Orderly := by
  unfold Channel.abandon
  split
  · next hmem =>
    refine passOn (h.distinct.sublist (List.erase_sublist.append_left _)) fun hopen hne => ?_
    have hfull := h.full hopen hne
    have hlength := List.length_erase_of_mem hmem
    have hpos := List.length_pos_of_mem hmem
    simp only [hlength]
    omega
  · refine ⟨h.distinct.sublist (List.erase_sublist.append_right _), fun hopen hne => ?_⟩
    exact h.full hopen fun hnil => hne (by simp only [hnil, List.erase_nil])

/-- Who gives up has left the line. -/
theorem mem_line_abandon (h : c.Orderly) :
    slot' ∈ (c.abandon slot).line ↔ slot' ≠ slot ∧ slot' ∈ c.line := by
  obtain ⟨hwaiting, hreserved, hapart⟩ := List.nodup_append.mp h.distinct
  unfold Channel.abandon
  split
  · next hmem =>
    rw [(perm_line_passOn _).mem_iff, line, line, List.mem_append, List.mem_append,
      hreserved.mem_erase_iff]
    have hne : slot' ∈ c.waiting → slot' ≠ slot := fun hslot heq => hapart slot' hslot slot hmem heq
    tauto
  · next hnot =>
    rw [line, line, List.mem_append, List.mem_append, hwaiting.mem_erase_iff]
    have hne : slot' ∈ c.reserved → slot' ≠ slot := fun hslot heq => hnot (heq ▸ hslot)
    tauto

theorem drop (h : c.Orderly) : c.drop.Orderly := ⟨h.distinct, nofun⟩

end Orderly

/-! ## Senders -/

@[simp] theorem senders_passOn (c : Channel) : c.passOn.senders = c.senders := by
  unfold passOn
  split <;> rfl

@[simp] theorem senders_send (c : Channel) (report : Report) :
    (c.send report).2.senders = c.senders := by
  unfold send
  split
  · rfl
  · split <;> rfl

@[simp] theorem senders_resume (c : Channel) (report : Report) :
    (c.resume report).2.senders = c.senders := by
  unfold resume
  split
  · rfl
  · split <;> rfl

@[simp] theorem senders_abandon (c : Channel) (slot : Nat) :
    (c.abandon slot).senders = c.senders := by
  unfold abandon
  split
  · exact senders_passOn _
  · rfl

theorem senders_of_receive (h : c.receive? = some (report, c')) : c'.senders = c.senders := by
  unfold receive? at h
  split at h
  · cases h
  · cases h
    exact senders_passOn _

end EchoLoad.Channel
