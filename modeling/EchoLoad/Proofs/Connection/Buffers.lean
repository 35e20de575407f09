import EchoLoad.Proofs.Connection.Integrity
import EchoLoad.Proofs.Connection.Passes
import EchoLoad.Proofs.Connection.Supply
import EchoLoad.Proofs.Frame.Grammar

/-!
# A peer cannot fill the buffers

Bytes of the peer wait in three places: in the buffer of the inbox, in the part of a message that a call
holds, and in what is pending of a message that is read in portions. A header is judged as soon as it is
there, so a buffer that holds no frame is at most as long as the beginning of a frame can be
(`Frame.length_le_of_parse_none`), and only then is the stream asked for more. A fragment is measured
together with the part that is held, before it is added to it (`Turn.held_le`); so a message that is
complete is within the limit, and what is pending is the end of such a message (`pending_perform_le`).
`buffers_bounded` says this of every moment of every call.
-/

namespace EchoLoad

namespace Frame

theorem Header.size_read_le (buf : Bytes) : (Header.read buf).size ≤ 10 := by
  simp only [Header.read]
  split
  · decide
  · split <;> decide

/-- A buffer that holds no frame yet, and nothing malformed, lacks at least the last byte of the longest
frame. -/
theorem length_le_of_parse_none {buf : Bytes} (h : parse buf = .ok none) :
    buf.length ≤ 16777216 + 13 := by
  obtain ⟨hsound, hshort⟩ := (parse_eq_none_iff buf).mp h
  have hsize := Header.size_read_le buf
  have hkey : (Header.read buf).keySize ≤ 4 := by
    unfold Header.keySize
    split <;> decide
  by_cases hheader : 2 ≤ buf.length ∧ (Header.read buf).size ≤ buf.length
  · have hlength : (Header.read buf).length ≤ 16777216 := by
      refine Nat.le_of_not_lt fun hlong => hsound ?_
      exact ⟨hheader.1, .inr (.inr ⟨hheader.2, .inl hlong⟩)⟩
    rw [Header.total] at hshort
    omega
  · omega

end Frame

namespace Message

variable {limit : Nat} {held : Option Bytes} {f : Frame} {bytes : Bytes}

/-- A frame that adds to a message makes it grow, unless it becomes too long. -/
theorem take_of_adds (hm : f.masked = false) (h : Adds f held bytes) :
    take limit held f = grown limit f.fin bytes := by
  cases h with
  | first h => rcases h with h | h <;> simp [take, hm, h]
  | next h => simp [take, hm, h]

/-- A fragment is measured together with what is held, and only then added to it. -/
theorem length_le_of_part (h : take limit held f = .part bytes) : bytes.length ≤ limit := by
  have hspec := take_spec limit held f
  rw [h] at hspec
  obtain ⟨hm, -, hadds⟩ := hspec
  rw [take_of_adds hm hadds] at h
  unfold grown at h
  split at h
  · cases h
  · next hfits => exact Nat.le_of_not_lt hfits

end Message

namespace Connection

variable {c c' d : Connection} {held held' : Option Bytes} {f : Frame} {m m' : Moment}

/-! ## The part that is held -/

theorem Turn.held_le (h : Turn c held f c' held')
    (hheld : ∀ bytes ∈ held, bytes.length ≤ c.maxMessage) :
    ∀ bytes ∈ held', bytes.length ≤ c.maxMessage := by
  cases h with
  | part _ ht =>
    rintro _ ⟨⟩
    exact Message.length_le_of_part ht
  | pong | ping => exact hheld

theorem Pass.held_le (h : Pass m m')
    (hheld : ∀ bytes ∈ m.held, bytes.length ≤ m.connection.maxMessage) :
    ∀ bytes ∈ m'.held, bytes.length ≤ m'.connection.maxMessage := by
  rw [h.keeps.maxMessage]
  cases h with
  | fetch => exact hheld
  | turn _ h => exact h.held_le hheld

/-- A call begins with nothing held. -/
theorem Visits.held_le (h : Visits ⟨c, none⟩ m) :
    ∀ bytes ∈ m.held, bytes.length ≤ m.connection.maxMessage := by
  induction h with
  | refl => nofun
  | tail _ hpass ih => exact hpass.held_le ih

/-! ## What is pending -/

/-- A message that is received is within the limit. -/
theorem length_le_of_receive {message : Bytes} (h : c.receive = (.value message, d)) :
    message.length ≤ c.maxMessage := by
  cases hclosed : c.closed with
  | true => cases (receive_of_closed hclosed).symm.trans h
  | false =>
    obtain ⟨frames, htakes⟩ := receive_takes hclosed
    rw [h] at htakes
    obtain ⟨_, _, -, hwhole⟩ := htakes.message message rfl
    exact hwhole.size

theorem pending_close (c : Connection) : c.close.2.pending = c.pending := by
  cases hclosed : c.closed with
  | true => rw [close_of_closed hclosed]
  | false =>
    cases hs : { c with closed := true }.sendFrame (.closing normalClosure) with
    | mk fault d =>
      obtain ⟨_, _, rfl⟩ := eq_of_sendFrame hs
      cases fault with
      | some fault => rw [close_of_fault hclosed hs]
      | none => rw [close_of_sent hclosed hs]

theorem pending_read_le (h : c.pending.length ≤ c.maxMessage) (length : Nat) :
    (c.read length).2.pending.length ≤ c.maxMessage := by
  have hdrop : ∀ bytes : Bytes, bytes.length ≤ c.maxMessage →
      (bytes.drop length).length ≤ c.maxMessage := by
    intro bytes hbytes
    rw [List.length_drop]
    omega
  have hkept := c.pending_receive
  have hread := c.reads_read length
  generalize c.read length = r at hread ⊢
  cases hread with
  | nothing => exact h
  | served => exact hdrop _ h
  | message _ _ hr => exact hdrop _ (length_le_of_receive hr)
  | failed _ _ hr =>
    rw [hr] at hkept
    rw [hkept]
    exact h

/-- No call makes more pending than the limit allows. -/
theorem pending_perform_le (h : c.pending.length ≤ c.maxMessage) (op : Operation) :
    (c.perform op).2.pending.length ≤ c.maxMessage := by
  cases op with
  | write data =>
    rw [perform, write]
    split
    · exact h
    · exact h
  | ping data =>
    rw [perform, ping]
    split
    · exact h
    · split
      · exact h
      · exact h
  | close =>
    rw [perform, pending_close]
    exact h
  | receive =>
    rw [perform, pending_receive]
    exact h
  | read length => exact pending_read_le h length

theorem pending_after_le (h : c.pending.length ≤ c.maxMessage) (ops : List Operation) :
    (c.after ops).pending.length ≤ c.maxMessage ∧ (c.after ops).maxMessage = c.maxMessage := by
  induction ops generalizing c with
  | nil => exact ⟨h, rfl⟩
  | cons op ops ih =>
    obtain ⟨frames, htakes⟩ := c.perform_takes op
    have hlimit := htakes.limit
    have hstep := pending_perform_le h op
    rw [← hlimit] at hstep ⊢
    exact ih hstep

/-- Whatever a peer sends, however it arrives and whatever calls are made. No more is pending than the limit
allows, and no message is received that is longer. A receiving call comes to its end by way of the
moments that it visits. At each of them the stream is asked for bytes only if the buffer holds no frame,
and then it holds at most 2^24 + 13 bytes, and the part of a message that is held is within the
limit. -/
theorem buffers_bounded (source : Source) (sink : Sink) (buffered : Bytes) (opcode : Opcode)
    (seed : UInt32) (limit spare : Nat) (ops : List Operation) :
    let fresh := ofUpgraded source sink buffered opcode seed
    let c := { fresh with maxMessage := limit, inbox := { fresh.inbox with spare } }
    let d := c.after ops
    d.pending.length ≤ limit ∧
      (∀ message e, d.receive = (.value message, e) → message.length ≤ limit) ∧
      (∃ m, Visits ⟨d, none⟩ m ∧ m.Ends (d.assemble none)) ∧
      ∀ m, Visits ⟨d, none⟩ m →
        (m.connection.inbox.Asks → Frame.parse m.connection.inbox.buffer = .ok none ∧
          m.connection.inbox.buffer.length ≤ 16777216 + 13) ∧
        ∀ bytes ∈ m.held, bytes.length ≤ limit := by
  intro fresh c d
  have hnone : c.pending.length ≤ c.maxMessage := Nat.zero_le _
  obtain ⟨hpending, hlimit⟩ := pending_after_le hnone ops
  have hmax : d.maxMessage = limit := hlimit
  refine ⟨hpending, fun message e hr => ?_, exists_ends ⟨d, none⟩, fun m hvisits => ⟨?_, ?_⟩⟩
  · rw [← hmax]
    exact length_le_of_receive hr
  · intro hasks
    have hparse := Inbox.asks_iff.mp hasks
    exact ⟨hparse, Frame.length_le_of_parse_none hparse⟩
  · have hsame : m.connection.maxMessage = limit := hvisits.keeps.maxMessage.trans hmax
    rw [← hsame]
    exact hvisits.held_le

end Connection

end EchoLoad
