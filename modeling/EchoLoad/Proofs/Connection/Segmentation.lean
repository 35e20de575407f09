import EchoLoad.Proofs.Connection.Emission
import EchoLoad.Proofs.Connection.Feed
import EchoLoad.Proofs.Connection.Operation

/-!
# How the bytes of the peer are cut does not show

Two connections are alike if their inboxes have one feed, their streams answer writes alike, and
they agree in everything a caller can ask for; mask keys may differ, and so may the pieces in which
the bytes of the peer arrive. Every call gives the same answer on both, sends the same frames and
leaves them alike (`perform_agrees`). Connections on the same bytes, cut in two ways, are alike from
the beginning, so no sequence of calls tells them apart (`indistinguishable_of_same_bytes`).
-/

namespace EchoLoad

theorem Inbox.next_of_feed_eq {b₁ b₂ : Inbox} (h : b₁.feed = b₂.feed) :
    b₁.next.1 = b₂.next.1 ∧ b₁.next.2.feed = b₂.next.2.feed := by
  have hnext : (b₁.next.1, b₁.next.2.feed) = (b₂.next.1, b₂.next.2.feed) := by
    rw [Inbox.feed_next, Inbox.feed_next, h]
  exact Prod.mk.inj hnext

namespace Connection

structure Alike (c₁ c₂ : Connection) : Prop where
  feed : c₁.inbox.feed = c₂.inbox.feed
  sink : c₁.sink.Alike c₂.sink
  pending : c₁.pending = c₂.pending
  opcode : c₁.opcode = c₂.opcode
  maxMessage : c₁.maxMessage = c₂.maxMessage
  closed : c₁.closed = c₂.closed

/-- A call has done the same on two connections: it gives one result, has emitted the same and leaves
them alike. -/
structure Agree {α : Type} (c₁ c₂ : Connection) (r₁ r₂ : α × Connection) : Prop where
  result : r₁.1 = r₂.1
  emits : ∃ es, c₁.Emits es r₁.2 ∧ c₂.Emits es r₂.2
  alike : Alike r₁.2 r₂.2

namespace Agree

variable {α : Type} {c₁ c₂ d₁ d₂ : Connection}

theorem silent {a : α} (h₁ : c₁.Emits [] d₁) (h₂ : c₂.Emits [] d₂) (h : Alike d₁ d₂) :
    Agree c₁ c₂ (a, d₁) (a, d₂) := ⟨rfl, ⟨[], h₁, h₂⟩, h⟩

/-- What is done after a first part. -/
theorem after {es : List Emission} {r₁ r₂ : α × Connection} (h₁ : c₁.Emits es d₁)
    (h₂ : c₂.Emits es d₂) (h : Agree d₁ d₂ r₁ r₂) : Agree c₁ c₂ r₁ r₂ := by
  obtain ⟨es', h₁', h₂'⟩ := h.emits
  exact ⟨h.result, ⟨es ++ es', h₁.trans h₁', h₂.trans h₂'⟩, h.alike⟩

theorem map {β : Type} {r₁ r₂ : α × Connection} (h : Agree c₁ c₂ r₁ r₂) (f : α → β) :
    Agree c₁ c₂ (f r₁.1, r₁.2) (f r₂.1, r₂.2) := ⟨congrArg f h.result, h.emits, h.alike⟩

end Agree

variable {c₁ c₂ : Connection}

theorem sendFrame_agrees (h : Alike c₁ c₂) (f : Frame) :
    Agree c₁ c₂ (c₁.sendFrame f) (c₂.sendFrame f) := by
  obtain ⟨hfault, hsink⟩ := sendFrame_alike h.sink f
  exact ⟨hfault, ⟨[.frame f], emits_sendFrame c₁ f, emits_sendFrame c₂ f⟩,
    h.feed, hsink, h.pending, h.opcode, h.maxMessage, h.closed⟩

theorem write_agrees (h : Alike c₁ c₂) (data : Bytes) :
    Agree c₁ c₂ (c₁.write data) (c₂.write data) := by
  unfold write
  rw [h.closed]
  split
  · exact .silent (.refl _) (.refl _) h
  · rw [h.opcode]
    exact (sendFrame_agrees h _).map (Outcome.ofFault data.length)

theorem ping_agrees (h : Alike c₁ c₂) (data : Bytes) :
    Agree c₁ c₂ (c₁.ping data) (c₂.ping data) := by
  unfold ping
  rw [h.closed]
  split
  · exact .silent (.refl _) (.refl _) h
  · split
    · exact .silent (.refl _) (.refl _) h
    · exact (sendFrame_agrees h _).map (Outcome.ofFault ())

theorem close_agrees (h : Alike c₁ c₂) : Agree c₁ c₂ c₁.close c₂.close := by
  unfold close
  rw [h.closed]
  split
  · exact .silent (.refl _) (.refl _) h
  · have halike : Alike { c₁ with closed := true } { c₂ with closed := true } :=
      ⟨h.feed, h.sink, h.pending, h.opcode, h.maxMessage, rfl⟩
    have hsend := sendFrame_agrees halike (.closing normalClosure)
    generalize { c₁ with closed := true }.sendFrame (.closing normalClosure) = r₁ at hsend ⊢
    generalize { c₂ with closed := true }.sendFrame (.closing normalClosure) = r₂ at hsend ⊢
    obtain ⟨fault, d₁⟩ := r₁
    obtain ⟨fault₂, d₂⟩ := r₂
    obtain ⟨rfl, ⟨es, hes₁, hes₂⟩, ha⟩ := hsend
    cases fault with
    | some f => exact ⟨rfl, ⟨es, hes₁, hes₂⟩, ha⟩
    | none =>
      obtain ⟨hfault, hsink⟩ := ha.sink.shutdown
      refine .after hes₁ hes₂ ⟨congrArg (Outcome.ofFault ()) hfault, ⟨[.shutdown], rfl, rfl⟩, ?_⟩
      exact ⟨ha.feed, hsink, ha.pending, ha.opcode, ha.maxMessage, ha.closed⟩

theorem closedByPeer_agrees (h : Alike c₁ c₂) (code : Option UInt16) :
    Agree c₁ c₂ (c₁.closedByPeer code) (c₂.closedByPeer code) := by
  obtain ⟨-, hemits, ha⟩ := sendFrame_agrees h (.closing normalClosure)
  exact ⟨rfl, hemits, ha.feed, ha.sink, ha.pending, ha.opcode, ha.maxMessage, rfl⟩

theorem Alike.next (h : Alike c₁ c₂) {incoming : Incoming} {inbox₁ : Inbox}
    (hn : c₁.inbox.next = (incoming, inbox₁)) :
    ∃ inbox₂, c₂.inbox.next = (incoming, inbox₂) ∧
      Alike { c₁ with inbox := inbox₁ } { c₂ with inbox := inbox₂ } := by
  obtain ⟨hincoming, hfeed⟩ := Inbox.next_of_feed_eq h.feed
  rw [hn] at hincoming hfeed
  exact ⟨c₂.inbox.next.2, Prod.ext hincoming.symm rfl,
    hfeed, h.sink, h.pending, h.opcode, h.maxMessage, h.closed⟩

/-- One turn of the loop, if the turns after it agree. -/
theorem proceed_agrees (h : Alike c₁ c₂) (held : Option Bytes) (f : Frame)
    (hrest : ∀ d₁ d₂ held', d₁.inbox = c₁.inbox → Alike d₁ d₂ →
      Agree d₁ d₂ (d₁.assemble held') (d₂.assemble held')) :
    Agree c₁ c₂ (c₁.proceed held f) (c₂.proceed held f) := by
  unfold proceed
  rw [h.maxMessage]
  cases Message.take c₂.maxMessage held f with
  | message bytes => exact .silent (.refl _) (.refl _) h
  | part bytes => exact hrest _ _ _ rfl h
  | pong => exact hrest _ _ _ rfl h
  | ping payload =>
    have hsend := sendFrame_agrees h (.whole .pong payload)
    have hinbox := inbox_sendFrame c₁ (.whole .pong payload)
    dsimp only
    generalize c₁.sendFrame (.whole .pong payload) = r₁ at hsend hinbox ⊢
    generalize c₂.sendFrame (.whole .pong payload) = r₂ at hsend ⊢
    obtain ⟨fault, d₁⟩ := r₁
    obtain ⟨fault₂, d₂⟩ := r₂
    obtain ⟨rfl, ⟨es, hes₁, hes₂⟩, hd⟩ := hsend
    cases fault with
    | some fault => exact ⟨rfl, ⟨es, hes₁, hes₂⟩, hd⟩
    | none => exact .after hes₁ hes₂ (hrest d₁ d₂ held hinbox hd)
  | close code => exact closedByPeer_agrees h code
  | violation v => exact .silent (.refl _) (.refl _) h

/-- The induction is on what the inbox of the first connection may still hand out. -/
theorem assemble_agrees (h : Alike c₁ c₂) (held : Option Bytes) :
    Agree c₁ c₂ (c₁.assemble held) (c₂.assemble held) := by
  induction hsize : c₁.inbox.size using Nat.strongRecOn generalizing c₁ c₂ held with
  | ind n ih =>
    cases hn₁ : c₁.inbox.next with
    | mk incoming inbox₁ =>
      obtain ⟨inbox₂, hn₂, ha⟩ := h.next hn₁
      rw [assemble_eq c₁, assemble_eq c₂, hn₁, hn₂]
      cases incoming with
      | malformed m => exact .silent rfl rfl ha
      | ending =>
        exact .silent rfl rfl ⟨ha.feed, ha.sink, ha.pending, ha.opcode, ha.maxMessage, rfl⟩
      | fault f => exact .silent rfl rfl ha
      | waiting => exact .silent rfl rfl ha
      | frame f =>
        have hless := Inbox.size_next hn₁
        have hrest : ∀ d₁ d₂ held', d₁.inbox = inbox₁ → Alike d₁ d₂ →
            Agree d₁ d₂ (d₁.assemble held') (d₂.assemble held') := fun d₁ d₂ held' hd h' =>
          ih d₁.inbox.size (by rw [hd]; omega) h' held' rfl
        have hp := proceed_agrees ha held f hrest
        exact ⟨hp.result, hp.emits, hp.alike⟩

theorem receive_agrees (h : Alike c₁ c₂) : Agree c₁ c₂ c₁.receive c₂.receive := by
  unfold receive
  rw [h.closed]
  split
  · exact .silent (.refl _) (.refl _) h
  · exact assemble_agrees h none

theorem takePending_agrees (h : Alike c₁ c₂) (length : Nat) :
    Agree c₁ c₂ (c₁.takePending length) (c₂.takePending length) := by
  unfold takePending
  rw [h.pending]
  exact .silent rfl rfl ⟨h.feed, h.sink, rfl, h.opcode, h.maxMessage, h.closed⟩

theorem read_agrees (h : Alike c₁ c₂) (length : Nat) :
    Agree c₁ c₂ (c₁.read length) (c₂.read length) := by
  unfold read
  split
  · exact .silent (.refl _) (.refl _) h
  · rw [h.pending]
    split
    · have hr := receive_agrees h
      generalize c₁.receive = r₁ at hr ⊢
      generalize c₂.receive = r₂ at hr ⊢
      obtain ⟨o, d₁⟩ := r₁
      obtain ⟨o₂, d₂⟩ := r₂
      obtain ⟨rfl, ⟨es, hes₁, hes₂⟩, hd⟩ := hr
      cases o with
      | value message =>
        have hd' : Alike { d₁ with pending := message } { d₂ with pending := message } :=
          ⟨hd.feed, hd.sink, rfl, hd.opcode, hd.maxMessage, hd.closed⟩
        have hp := (takePending_agrees hd' length).map Outcome.value
        exact .after hes₁ hes₂ ⟨hp.result, hp.emits, hp.alike⟩
      | error e => exact ⟨rfl, ⟨es, hes₁, hes₂⟩, hd⟩
      | waiting => exact ⟨rfl, ⟨es, hes₁, hes₂⟩, hd⟩
      | panicked => exact ⟨rfl, ⟨es, hes₁, hes₂⟩, hd⟩
    · exact (takePending_agrees h length).map Outcome.value

theorem perform_agrees (h : Alike c₁ c₂) (op : Operation) :
    Agree c₁ c₂ (c₁.perform op) (c₂.perform op) := by
  cases op with
  | write data => exact (write_agrees h data).map Answer.written
  | read length => exact (read_agrees h length).map Answer.bytes
  | receive => exact (receive_agrees h).map Answer.bytes
  | ping data => exact (ping_agrees h data).map Answer.done
  | close => exact (close_agrees h).map Answer.done

/-- No call in turn tells two connections apart: it has the same answer on both, puts the same frames
on the stream, and leaves them equally closed and with the same bytes pending. -/
def Indistinguishable (c₁ c₂ : Connection) : List Operation → Prop
  | [] => True
  | op :: ops =>
    let r₁ := c₁.perform op
    let r₂ := c₂.perform op
    r₁.1 = r₂.1 ∧ (∃ es, c₁.Emits es r₁.2 ∧ c₂.Emits es r₂.2) ∧
      r₁.2.closed = r₂.2.closed ∧ r₁.2.pending = r₂.2.pending ∧ Indistinguishable r₁.2 r₂.2 ops

theorem Alike.indistinguishable (h : Alike c₁ c₂) (ops : List Operation) :
    Indistinguishable c₁ c₂ ops := by
  induction ops generalizing c₁ c₂ with
  | nil => trivial
  | cons op ops ih =>
    have hop := perform_agrees h op
    exact ⟨hop.result, hop.emits, hop.alike.closed, hop.alike.pending, ih hop.alike⟩

/-- Whatever the bytes of the peer are and whatever comes after them, the way in which they are cut
does not show in any sequence of calls. -/
theorem indistinguishable_of_same_bytes (k₁ k₂ : Cutting) (h : k₁.bytes = k₂.bytes)
    (tail : List Arrival) (sink : Sink) (opcode : Opcode) (maxMessage : Nat)
    (seed₁ seed₂ : UInt32) (ops : List Operation) :
    Indistinguishable (k₁.connection tail sink opcode maxMessage seed₁)
      (k₂.connection tail sink opcode maxMessage seed₂) ops := by
  have hfeed : (k₁.connection tail sink opcode maxMessage seed₁).inbox.feed =
      (k₂.connection tail sink opcode maxMessage seed₂).inbox.feed := by
    rw [Cutting.feed_connection, Cutting.feed_connection, h]
  exact Alike.indistinguishable ⟨hfeed, .refl sink, rfl, rfl, rfl, rfl⟩ ops

/-- A ping and a message with a reserved bit behind it, cut in the ping's header and in its
payload. -/
theorem indistinguishable_ping_message_fault :
    let whole : Cutting := ⟨[0x89, 1, 0x61, 0x81, 2, 0x48, 0x69, 0xC1, 0], [], 0⟩
    let cut : Cutting := ⟨[0x89], [[1], [0x61, 0x81, 2, 0x48], [0x69, 0xC1, 0]], 7⟩
    whole.bytes = cut.bytes ∧
      Indistinguishable (whole.connection [.ending] .willing .text 5 1)
        (cut.connection [.ending] .willing .text 5 2) [.read 1, .receive, .read 3, .close] :=
  ⟨by decide, indistinguishable_of_same_bytes _ _ (by decide) _ _ _ _ _ _ _⟩

end Connection

end EchoLoad
