import EchoLoad.Proofs.Connection.Receiving

/-!
# No message is spliced or cut

Whatever a peer sends, and whatever calls fail or are given up on the way, a message that is received
is one stretch of the frames of the peer from a first fragment to a last one, and messages that are
received one after the other come from stretches that follow each other
(`messages_found`). What a call has seen so far is the invariant of its loop (`Message.Held`): the
part of a message that is held comes from the last frames of this call, so nothing is held when the
next call begins.
-/

namespace EchoLoad.Connection

variable {c c' d : Connection} {held held' : Option Bytes} {f : Frame} {frames seen : List Frame}
  {o : Outcome Bytes} {bytes : Bytes}

/-- A turn keeps the invariant of the loop. -/
theorem Turn.held_seen (h : Turn c held f c' held') (hseen : Message.Held seen held) :
    Message.Held (seen ++ [f]) held' := by
  have hspec := Message.take_spec c.maxMessage held f
  cases h with
  | part _ ht =>
    rw [ht] at hspec
    obtain ⟨hm, hfin, hadds⟩ := hspec
    exact hseen.part hm hfin hadds
  | pong _ ht =>
    rw [ht] at hspec
    obtain ⟨hm, ho⟩ := hspec
    exact hseen.control hm (.inr ho)
  | ping _ ht =>
    rw [ht] at hspec
    obtain ⟨hm, ho, -⟩ := hspec
    exact hseen.control hm (.inl ho)

/-- The frames that a call has seen end with the message that it returns. -/
theorem Receiving.whole (h : Receiving c held frames o d) (hvalue : o = .value bytes)
    (hseen : Message.Held seen held) :
    ∃ skipped run, seen ++ frames = skipped ++ run ∧ Message.Whole c.maxMessage run bytes := by
  induction h generalizing seen with
  | @stop c d held frames o h =>
    cases h with
    | @message inbox f bytes' _ ht =>
      cases hvalue
      have hspec := Message.take_spec c.maxMessage held f
      rw [ht] at hspec
      obtain ⟨hm, hfin, hsize, hadds⟩ := hspec
      exact hseen.whole hm hfin hsize hadds
    | malformed | ending | fault | waiting | unanswered | close | violation => cases hvalue
  | @turn c c' d held held' f frames o h _ ih =>
    obtain ⟨skipped, run, hframes, hrun⟩ := ih hvalue (h.held_seen hseen)
    rw [h.maxMessage] at hrun
    rw [List.append_assoc, List.singleton_append] at hframes
    exact ⟨skipped, run, hframes, hrun⟩

/-- The message that a receiving call has returned. -/
def Answer.message? : Operation → Answer → Option Bytes
  | .receive, .bytes (.value bytes) => some bytes
  | _, _ => none

/-- The messages that the receiving calls among these calls return, the first one first. -/
def messages (c : Connection) : List Operation → List Bytes
  | [] => []
  | op :: ops =>
    ((c.perform op).1.message? op).toList ++ (c.perform op).2.messages ops

/-- A call takes the next frames of the peer, or none, and leaves the limit as it is. If it is a
receiving call that returns a message, this is a stretch at the end of the frames. -/
structure Takes (c : Connection) (op : Operation) (frames : List Frame) (r : Answer × Connection) :
    Prop where
  taken : c.inbox.frames = frames ++ r.2.inbox.frames
  limit : r.2.maxMessage = c.maxMessage
  message : ∀ bytes, r.1.message? op = some bytes →
    ∃ skipped run, frames = skipped ++ run ∧ Message.Whole c.maxMessage run bytes

theorem takes_of_closed (h : c.closed = true) (op : Operation) : c.Takes op [] (c.perform op) := by
  rw [perform_of_closed h]
  cases op with
  | write | ping | receive | close => exact ⟨rfl, rfl, nofun⟩
  | read length =>
    unfold whenClosed
    dsimp only
    split
    · exact ⟨rfl, rfl, nofun⟩
    · split <;> exact ⟨rfl, rfl, nofun⟩

theorem receive_takes (hopen : c.closed = false) :
    ∃ frames, c.Takes .receive frames (.bytes c.receive.1, c.receive.2) := by
  obtain ⟨frames, hr⟩ := receiving_receive hopen
  refine ⟨frames, hr.frames_eq, hr.maxMessage, fun bytes hbytes => ?_⟩
  have hvalue : c.receive.1 = .value bytes := by
    cases ho : c.receive.1 with
    | value bytes' =>
      rw [ho] at hbytes
      cases hbytes
      rfl
    | error | waiting | panicked =>
      rw [ho] at hbytes
      cases hbytes
  have hnone : Message.Held [] none := trivial
  exact hr.whole hvalue hnone

theorem read_takes (hopen : c.closed = false) (length : Nat) :
    ∃ frames, c.Takes (.read length) frames (.bytes (c.read length).1, (c.read length).2) := by
  have hreceive := receive_takes hopen
  have hread := c.reads_read length
  generalize c.read length = r at hread ⊢
  cases hread with
  | nothing => exact ⟨[], rfl, rfl, nofun⟩
  | served => exact ⟨[], rfl, rfl, nofun⟩
  | message _ _ hr =>
    rw [hr] at hreceive
    obtain ⟨frames, h⟩ := hreceive
    exact ⟨frames, h.taken, h.limit, nofun⟩
  | failed _ _ hr =>
    rw [hr] at hreceive
    obtain ⟨frames, h⟩ := hreceive
    exact ⟨frames, h.taken, h.limit, nofun⟩

theorem write_takes (hopen : c.closed = false) (data : Bytes) :
    c.Takes (.write data) [] (.written (c.write data).1, (c.write data).2) := by
  rw [write_of_open hopen]
  exact ⟨rfl, rfl, nofun⟩

theorem ping_takes (hopen : c.closed = false) (data : Bytes) :
    c.Takes (.ping data) [] (.done (c.ping data).1, (c.ping data).2) := by
  by_cases hdata : data.length ≤ Frame.maxControlPayload
  · rw [ping_of_open hopen hdata]
    exact ⟨rfl, rfl, nofun⟩
  · rw [ping_of_long hopen (Nat.lt_of_not_le hdata)]
    exact ⟨rfl, rfl, nofun⟩

theorem close_takes (hopen : c.closed = false) :
    c.Takes .close [] (.done c.close.1, c.close.2) := by
  cases hs : { c with closed := true }.sendFrame (.closing normalClosure) with
  | mk fault d =>
    obtain ⟨sink, maskCounter, hd⟩ := eq_of_sendFrame hs
    cases fault with
    | some fault =>
      rw [close_of_fault hopen hs, hd]
      exact ⟨rfl, rfl, nofun⟩
    | none =>
      rw [close_of_sent hopen hs, hd]
      exact ⟨rfl, rfl, nofun⟩

theorem perform_takes (c : Connection) (op : Operation) :
    ∃ frames, c.Takes op frames (c.perform op) := by
  cases hclosed : c.closed with
  | true => exact ⟨[], takes_of_closed hclosed op⟩
  | false =>
    cases op with
    | receive => exact receive_takes hclosed
    | read length => exact read_takes hclosed length
    | ping data => exact ⟨[], ping_takes hclosed data⟩
    | close => exact ⟨[], close_takes hclosed⟩
    | write data => exact ⟨[], write_takes hclosed data⟩

/-- Whatever the peer sends, however it arrives, and whatever becomes of the calls on the way: every
message that is received is a stretch of the frames of the peer, from an unmasked data frame over
unmasked continuations to the only one that is marked as the last, with nothing but unmasked pings
and pongs between them; it holds their payloads and is within the limit. These stretches follow each
other as the messages do. -/
theorem messages_found (c : Connection) (ops : List Operation) :
    Message.FoundIn c.maxMessage (c.messages ops) (Frame.parseAll c.inbox.bytes).1 := by
  show Message.FoundIn c.maxMessage (c.messages ops) c.inbox.frames
  induction ops generalizing c with
  | nil => exact .none _
  | cons op ops ih =>
    obtain ⟨frames, htakes⟩ := c.perform_takes op
    have hrest := ih (c.perform op).2
    rw [htakes.limit] at hrest
    rw [htakes.taken, messages]
    cases hm : (c.perform op).1.message? op with
    | none => exact hrest.skip frames
    | some bytes =>
      obtain ⟨skipped, run, rfl, hrun⟩ := htakes.message bytes hm
      exact .next skipped hrun hrest

end EchoLoad.Connection
