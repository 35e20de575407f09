import EchoLoad.Proofs.Connection.Passes
import EchoLoad.Proofs.Connection.Supply

/-!
# A malformed frame blocks the stream

A frame that breaks the rules of messages has been taken out of the buffer and is gone. One whose header
cannot be read stays where it is, and so does everything behind it: the call that has come upon it leaves
the connection as it was at that moment (`blocked_of_receive`), and every later call that looks for a frame
finds it again (`Blocked.receive`). No other call touches the inbox (`Blocked.perform`), so this goes on
until the connection is closed (`blocked_for_good`).
-/

namespace EchoLoad.Connection

/-- The connection is open, and a malformed frame stands at the front of its buffer. -/
structure Blocked (c : Connection) (m : Frame.Malformed) : Prop where
  isOpen : c.closed = false
  offending : Frame.parse c.inbox.buffer = .error m

variable {c d : Connection} {m : Frame.Malformed} {op : Operation} {ops : List Operation}

/-! ## Coming upon a malformed frame -/

/-- If there is nothing to fetch, what is found malformed stands in the buffer. -/
theorem parse_of_malformed {held : Option Bytes} {inbox : Inbox}
    (hlast : ∀ moment, ¬ Pass ⟨c, held⟩ moment) (h : c.inbox.next = (.malformed m, inbox)) :
    inbox = c.inbox ∧ Frame.parse c.inbox.buffer = .error m := by
  cases c.inbox.finds with
  | malformed hp hn =>
    cases hn.symm.trans h
    exact ⟨rfl, hp⟩
  | frame _ hn => cases hn.symm.trans h
  | fetch hp hr => exact absurd (.fetch hp hr) (hlast _)
  | @halt halt _ _ hn =>
    cases halt with
    | ending | fault | waiting => cases hn.symm.trans h

/-- Where a call ends with a malformed frame, the connection is left as it is. -/
theorem Moment.Ends.malformed {moment : Moment}
    (h : moment.Ends (.error (.malformed m), d)) :
    d = moment.connection ∧ Frame.parse d.inbox.buffer = .error m := by
  obtain ⟨⟨frames, hstop⟩, hlast⟩ := h
  obtain ⟨c, held⟩ := moment
  generalize ho : (.error (.malformed m) : Outcome Bytes) = o at hstop
  cases hstop with
  | malformed hn =>
    cases ho
    obtain ⟨rfl, hp⟩ := parse_of_malformed hlast hn
    exact ⟨rfl, hp⟩
  | ending | fault | waiting | message | unanswered | close | violation => cases ho

theorem blocked_of_receive (h : c.receive = (.error (.malformed m), d)) :
    (∃ held, Visits ⟨c, none⟩ ⟨d, held⟩) ∧ d.Blocked m := by
  have hopen : c.closed = false := by
    cases hclosed : c.closed with
    | false => rfl
    | true => cases (receive_of_closed hclosed).symm.trans h
  obtain ⟨moment, hvisits, hends⟩ := receive_ends hopen
  rw [h] at hends
  obtain ⟨rfl, hp⟩ := hends.malformed
  exact ⟨⟨moment.held, hvisits⟩, hvisits.keeps.closed.trans hopen, hp⟩

/-- A read comes upon it in the same way. -/
theorem receive_of_perform (h : c.perform op = (.bytes (.error (.malformed m)), d)) :
    c.receive = (.error (.malformed m), d) := by
  cases op with
  | write | ping | close => cases h
  | receive =>
    cases hr : c.receive with
    | mk o e =>
      rw [perform, hr] at h
      cases h
      rfl
  | read length =>
    have hread := c.reads_read length
    rw [perform] at h
    generalize c.read length = r at h hread
    cases hread with
    | nothing | served | message => cases h
    | failed _ _ hr =>
      cases h
      exact hr

/-! ## Before the malformed frame -/

/-- Passes take the frames at the front of the bytes to come, one after the other, and what stands behind
all of them does not change. -/
theorem Pass.parseAll_eq {m m' : Moment} (h : Pass m m') :
    (Frame.parseAll m'.connection.inbox.bytes).2 = (Frame.parseAll m.connection.inbox.bytes).2 ∧
      m'.connection.inbox.bytes <:+ m.connection.inbox.bytes := by
  cases h with
  | fetch hp hr =>
    rw [Inbox.bytes, Inbox.bytes, Source.bytes_read hr, List.append_assoc]
    exact ⟨rfl, List.suffix_rfl⟩
  | @turn c c' held held' f n hp h =>
    have hle := (Frame.consumed_of_parse hp).2
    have hdrop : c'.inbox.bytes = c.inbox.bytes.drop n := by
      rw [Inbox.bytes, Inbox.bytes, h.inbox hp, List.drop_append_of_le_length hle]
    have hfound : Frame.parse c.inbox.bytes = .ok (some (f, n)) := by
      rw [Inbox.bytes, Frame.parse_append (by simp [hp]), hp]
    rw [hdrop, Frame.parseAll_of_some hfound]
    exact ⟨rfl, List.drop_suffix n _⟩

theorem Visits.parseAll_eq {m m' : Moment} (h : Visits m m') :
    (Frame.parseAll m'.connection.inbox.bytes).2 = (Frame.parseAll m.connection.inbox.bytes).2 ∧
      m'.connection.inbox.bytes <:+ m.connection.inbox.bytes := by
  induction h with
  | refl => exact ⟨rfl, List.suffix_rfl⟩
  | tail _ hpass ih =>
    obtain ⟨hrest, hsuffix⟩ := hpass.parseAll_eq
    exact ⟨hrest.trans ih.1, hsuffix.trans ih.2⟩

theorem Blocked.parseAll_eq (h : c.Blocked m) : Frame.parseAll c.inbox.bytes = ([], .error m) := by
  have hfound : Frame.parse c.inbox.bytes = .error m := by
    rw [Inbox.bytes, Frame.parse_append (by simp [h.offending]), h.offending]
  exact Frame.parseAll_of_error hfound

/-! ## Behind it nothing is found -/

theorem Blocked.receive (h : c.Blocked m) : c.receive = (.error (.malformed m), c) := by
  rw [receive_of_open h.isOpen, Connection.assemble_eq, Inbox.next_of_malformed h.offending]

theorem Blocked.read (h : c.Blocked m) {length : Nat} (hlength : length ≠ 0)
    (hp : c.pending = []) : c.read length = (.error (.malformed m), c) :=
  read_of_failed hlength hp h.receive nofun

/-- No call but the closing one opens the way. -/
theorem Blocked.perform (h : c.Blocked m) (hop : op ≠ .close) :
    (c.perform op).2.inbox = c.inbox ∧ (c.perform op).2.Blocked m := by
  cases ht : c.takes op with
  | false =>
    have haside := aside_of_not_takes h.isOpen hop ht
    generalize c.perform op = r at haside ⊢
    cases haside with
    | write | ping => exact ⟨rfl, h.isOpen, h.offending⟩
    | refused => exact ⟨rfl, h⟩
    | read => exact ⟨rfl, h.isOpen, h.offending⟩
  | true =>
    cases op with
    | write | ping | close => cases ht
    | receive =>
      rw [Connection.perform, h.receive]
      exact ⟨rfl, h⟩
    | read length =>
      obtain ⟨hlength, hp⟩ := takes_read_iff.mp ht
      rw [Connection.perform, h.read hlength hp]
      exact ⟨rfl, h⟩

theorem Blocked.after (h : c.Blocked m) (hops : .close ∉ ops) :
    (c.after ops).inbox = c.inbox ∧ (c.after ops).Blocked m := by
  induction ops generalizing c with
  | nil => exact ⟨rfl, h⟩
  | cons op ops ih =>
    have hop : op ≠ .close := fun heq => hops (heq ▸ List.mem_cons_self)
    obtain ⟨hinbox, hblocked⟩ := h.perform hop
    obtain ⟨hrest, hafter⟩ := ih hblocked fun hmem => hops (List.mem_cons_of_mem op hmem)
    exact ⟨hrest.trans hinbox, hafter⟩

/-- A call has ended with the error of a malformed frame. Then the connection is at a moment of this call:
all frames before the malformed one are gone, the buffer begins with that one, and what is pending and
whether the connection is closed has not changed. Whatever calls are made from then on, but for the
closing one, the inbox stays as it is, and each call that looks for a frame has the same error, whatever
the stream would bring, and leaves the connection as it is. -/
theorem blocked_for_good (h : c.perform op = (.bytes (.error (.malformed m)), d)) :
    (∃ held, Visits ⟨c, none⟩ ⟨d, held⟩) ∧ Frame.parse d.inbox.buffer = .error m ∧
      (Frame.parseAll c.inbox.bytes).2 = .error m ∧
      Frame.parseAll d.inbox.bytes = ([], .error m) ∧ d.inbox.bytes <:+ c.inbox.bytes ∧
      d.pending = c.pending ∧ d.closed = c.closed ∧
      ∀ ops, .close ∉ ops →
        let e := d.after ops
        e.inbox = d.inbox ∧ e.closed = false ∧
          ∀ source, let e' := { e with inbox := { e.inbox with source } }
            e'.receive = (.error (.malformed m), e') ∧
              ∀ length, 0 < length → e'.pending = [] →
                e'.read length = (.error (.malformed m), e') := by
  obtain ⟨⟨held, hvisits⟩, hblocked⟩ := blocked_of_receive (receive_of_perform h)
  obtain ⟨hrest, hsuffix⟩ := hvisits.parseAll_eq
  have hnone := hblocked.parseAll_eq
  refine ⟨⟨held, hvisits⟩, hblocked.offending, ?_, hnone, hsuffix, hvisits.keeps.pending,
    hvisits.keeps.closed, ?_⟩
  · rw [← hrest, hnone]
  · intro ops hops e
    obtain ⟨hinbox, hafter⟩ := hblocked.after hops
    refine ⟨hinbox, hafter.isOpen, fun source => ?_⟩
    have hsame : { e with inbox := { e.inbox with source } }.Blocked m :=
      ⟨hafter.isOpen, hafter.offending⟩
    exact ⟨hsame.receive, fun length hpos hp => hsame.read (Nat.ne_of_gt hpos) hp⟩

/-- A ping is answered before a frame with a reserved bit is found, in the middle of which the bytes are
cut. A message is written and a ping is sent, and the message behind that frame is still not found. -/
theorem blocked_for_good_reserved_bit :
    let c := ofUpgraded (.ofArrivals [.data [0x89, 1, 0x61, 0xC1], .data [0, 0x81, 1, 0x48]])
      .willing [] .text 7
    let d := c.receive.2
    let e := d.after [.write [0x69], .ping []]
    c.perform .receive = (.bytes (.error (.malformed .reservedBits)), d) ∧
      d.inbox.bytes = [0xC1, 0, 0x81, 1, 0x48] ∧
      e.receive = (.error (.malformed .reservedBits), e) ∧
      e.read 5 = (.error (.malformed .reservedBits), e) := by
  intro c d e
  have hreceive : c.perform .receive = (.bytes (.error (.malformed .reservedBits)), d) := by
    have herror : c.receive.1 = .error (.malformed .reservedBits) := by decide +kernel
    rw [perform, herror]
  have hpending : e.pending = [] := by decide +kernel
  obtain ⟨-, -, -, -, -, -, -, hlater⟩ := blocked_for_good hreceive
  obtain ⟨-, -, hsame⟩ := hlater [.write [0x69], .ping []] (by decide)
  obtain ⟨hreceive', hread⟩ := hsame e.inbox.source
  exact ⟨hreceive, by decide +kernel, hreceive', hread 5 (by decide) hpending⟩

end EchoLoad.Connection
