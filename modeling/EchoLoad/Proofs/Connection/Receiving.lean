import EchoLoad.Proofs.Connection.Feed
import EchoLoad.Proofs.Connection.Operation
import EchoLoad.Proofs.Frame.Sequence
import EchoLoad.Proofs.Message.Stretch

/-!
# The loop of a receiving call

`Connection.assemble` taken apart once, so that no proof about receiving has to follow its branches
again. A turn of the loop takes one frame and goes on (`Connection.Turn`), the last one ends the call
(`Connection.Stop`); a call is some turns and a last one (`Connection.Receiving`,
`receiving_assemble`).

The frames of a peer are those that stand one behind the other in all bytes that an inbox has or will
get (`Inbox.frames`). The frames that a call takes are the next ones of these
(`Receiving.frames_eq`).

A connection that is closed receives no more: `perform_of_closed` says what every call does on it.
-/

namespace EchoLoad

/-! ## The frames that are to come -/

def Arrival.bytes : Arrival → Bytes
  | .data bytes => bytes
  | .ending | .fault _ | .pause => []

/-- All bytes that a source still brings, whatever interrupts them. -/
def Source.bytes (s : Source) : Bytes := s.current ++ s.arrivals.flatMap Arrival.bytes

namespace Inbox

/-- All bytes that have arrived or will arrive. -/
def bytes (b : Inbox) : Bytes := b.buffer ++ b.source.bytes

/-- The frames that stand in them. -/
def frames (b : Inbox) : List Frame := (Frame.parseAll b.bytes).1

/-- Taking these frames out of `b`, one after the other, leads to `b'`. -/
inductive Yields : Inbox → List Frame → Inbox → Prop where
  | none (b : Inbox) : Yields b [] b
  | next {b b₁ b' : Inbox} {f : Frame} {frames : List Frame} (h : b.next = (.frame f, b₁))
      (hrest : Yields b₁ frames b') : Yields b (f :: frames) b'

end Inbox

namespace Feed

/-- The bytes of the feed with those after the interruption. -/
def whole (f : Feed) : Bytes := f.bytes ++ f.later.flatMap Arrival.bytes

theorem whole_ofArrivals (bytes : Bytes) (arrivals : List Arrival) :
    (ofArrivals bytes arrivals).whole = bytes ++ arrivals.flatMap Arrival.bytes := by
  fun_induction ofArrivals bytes arrivals with
  | case1 bytes => rfl
  | case2 bytes more rest ih => rw [ih, List.flatMap_cons, List.append_assoc, Arrival.bytes]
  | case3 | case4 | case5 => rfl

/-- A frame is taken off the front of the bytes, and nothing else takes bytes away. -/
theorem whole_next (f : Feed) :
    (∃ frame n, f.next.1 = .frame frame ∧ Frame.parse f.whole = .ok (some (frame, n)) ∧
      f.next.2.whole = f.whole.drop n) ∨
    (∀ frame, f.next.1 ≠ .frame frame) ∧ f.next.2.whole = f.whole := by
  cases hp : Frame.parse f.bytes with
  | error m =>
    have hnext : f.next = (.malformed m, f) := by simp only [Feed.next, hp]
    rw [hnext]
    refine .inr ⟨fun frame hframe => ?_, rfl⟩
    cases hframe
  | ok result =>
    cases result with
    | none =>
      have hnext : f.next = (f.halt.incoming, .ofArrivals f.bytes f.later) := by
        simp only [Feed.next, hp]
      rw [hnext]
      refine .inr ⟨fun frame hframe => ?_, whole_ofArrivals _ _⟩
      cases hhalt : f.halt with
      | ending | fault | waiting =>
        rw [hhalt] at hframe
        cases hframe
    | some result =>
      obtain ⟨frame, n⟩ := result
      have hnext : f.next = (.frame frame, { f with bytes := f.bytes.drop n }) := by
        simp only [Feed.next, hp]
      have hle := (Frame.consumed_of_parse hp).2
      have hwhole : Frame.parse f.whole = .ok (some (frame, n)) := by
        have hdone : Frame.parse f.bytes ≠ .ok none := by
          intro hnone
          cases hp.symm.trans hnone
        rw [whole, Frame.parse_append hdone, hp]
      rw [hnext]
      refine .inl ⟨frame, n, rfl, hwhole, ?_⟩
      rw [whole, whole, List.drop_append_of_le_length hle]

end Feed

namespace Inbox

variable {b b' : Inbox}

theorem bytes_eq (b : Inbox) : b.bytes = b.feed.whole := by
  rw [feed, Source.feed, Feed.whole_ofArrivals, bytes, Source.bytes, List.append_assoc]

theorem whole_feed_next (b : Inbox) : b.feed.next.2.whole = b.next.2.bytes := by
  rw [bytes_eq, ← congrArg Prod.snd b.feed_next]

/-- A frame that is taken out is the first of those to come. -/
theorem frames_of_next {f : Frame} (h : b.next = (.frame f, b')) : b.frames = f :: b'.frames := by
  have hincoming : b.feed.next.1 = .frame f := by rw [← b.feed_next, h]
  have hbytes := b.whole_feed_next
  rw [h] at hbytes
  rcases b.feed.whole_next with ⟨frame, n, hframe, hparse, hdrop⟩ | ⟨hnone, -⟩
  · cases hincoming.symm.trans hframe
    rw [frames, frames, bytes_eq b, Frame.parseAll_of_some hparse, ← hdrop, hbytes]
  · exact absurd hincoming (hnone f)

/-- What is no frame takes none away. -/
theorem frames_of_next_of_ne {incoming : Incoming} (h : b.next = (incoming, b'))
    (hne : ∀ f, incoming ≠ .frame f) : b'.frames = b.frames := by
  have hincoming : b.feed.next.1 = incoming := by rw [← b.feed_next, h]
  have hbytes := b.whole_feed_next
  rw [h] at hbytes
  rcases b.feed.whole_next with ⟨frame, n, hframe, -, -⟩ | ⟨-, hsame⟩
  · exact absurd (hincoming.symm.trans hframe) (hne frame)
  · rw [frames, frames, bytes_eq b, ← hsame, hbytes]

end Inbox

/-! ## Turns of the loop -/

namespace Connection

/-- A turn takes the frame `f` and goes on: a part of a message, a pong, or a ping that has been
answered. -/
inductive Turn (c : Connection) (held : Option Bytes) (f : Frame) :
    Connection → Option Bytes → Prop where
  | part {inbox : Inbox} {bytes : Bytes} (h : c.inbox.next = (.frame f, inbox))
      (ht : Message.take c.maxMessage held f = .part bytes) :
      Turn c held f { c with inbox } (some bytes)
  | pong {inbox : Inbox} (h : c.inbox.next = (.frame f, inbox))
      (ht : Message.take c.maxMessage held f = .pong) : Turn c held f { c with inbox } held
  | ping {inbox : Inbox} {payload : Bytes} {d : Connection} (h : c.inbox.next = (.frame f, inbox))
      (ht : Message.take c.maxMessage held f = .ping payload)
      (hs : { c with inbox }.sendFrame (.whole .pong payload) = (none, d)) : Turn c held f d held

/-- The last turn: no frame is found, or one that ends the call. -/
inductive Stop (c : Connection) (held : Option Bytes) :
    List Frame → Outcome Bytes → Connection → Prop where
  | malformed {inbox : Inbox} {m : Frame.Malformed} (h : c.inbox.next = (.malformed m, inbox)) :
      Stop c held [] (.error (.malformed m)) { c with inbox }
  | ending {inbox : Inbox} (h : c.inbox.next = (.ending, inbox)) :
      Stop c held [] (.error (.breakdown .endOfStream)) { c with inbox, closed := true }
  | fault {inbox : Inbox} {fault : StreamFault} (h : c.inbox.next = (.fault fault, inbox)) :
      Stop c held [] (.error (.ofFault fault)) { c with inbox }
  | waiting {inbox : Inbox} (h : c.inbox.next = (.waiting, inbox)) :
      Stop c held [] .waiting { c with inbox }
  | message {inbox : Inbox} {f : Frame} {bytes : Bytes} (h : c.inbox.next = (.frame f, inbox))
      (ht : Message.take c.maxMessage held f = .message bytes) :
      Stop c held [f] (.value bytes) { c with inbox }
  | unanswered {inbox : Inbox} {f : Frame} {payload : Bytes} {fault : StreamFault} {d : Connection}
      (h : c.inbox.next = (.frame f, inbox))
      (ht : Message.take c.maxMessage held f = .ping payload)
      (hs : { c with inbox }.sendFrame (.whole .pong payload) = (some fault, d)) :
      Stop c held [f] (.error (.ofFault fault)) d
  | close {inbox : Inbox} {f : Frame} {code : Option UInt16} (h : c.inbox.next = (.frame f, inbox))
      (ht : Message.take c.maxMessage held f = .close code) :
      Stop c held [f] (.error (.breakdown (.closedByPeer code)))
        ({ c with inbox }.closedByPeer code).2
  | violation {inbox : Inbox} {f : Frame} {v : Message.Violation}
      (h : c.inbox.next = (.frame f, inbox))
      (ht : Message.take c.maxMessage held f = .violation v) :
      Stop c held [f] (.error (.violation v)) { c with inbox }

/-- A receiving call with the frames that it takes. -/
inductive Receiving : Connection → Option Bytes → List Frame → Outcome Bytes → Connection → Prop where
  | stop {c d : Connection} {held : Option Bytes} {frames : List Frame} {o : Outcome Bytes}
      (h : Stop c held frames o d) : Receiving c held frames o d
  | turn {c c' d : Connection} {held held' : Option Bytes} {f : Frame} {frames : List Frame}
      {o : Outcome Bytes} (h : Turn c held f c' held') (hrest : Receiving c' held' frames o d) :
      Receiving c held (f :: frames) o d

variable {c c' d : Connection} {held held' : Option Bytes} {f : Frame} {frames : List Frame}
  {o : Outcome Bytes}

/-- A frame that has been taken out of the inbox ends the call or leads to another turn, if the turns
after it are as they should be. -/
theorem receiving_proceed {inbox : Inbox} (h : c.inbox.next = (.frame f, inbox))
    (hrest : ∀ d held', d.inbox = inbox →
      ∃ frames, Receiving d held' frames (d.assemble held').1 (d.assemble held').2) :
    ∃ frames, Receiving c held frames ({ c with inbox }.proceed held f).1
      ({ c with inbox }.proceed held f).2 := by
  unfold proceed
  cases ht : Message.take c.maxMessage held f with
  | message bytes => exact ⟨[f], .stop (.message h ht)⟩
  | part bytes =>
    obtain ⟨frames, hr⟩ := hrest { c with inbox } (some bytes) rfl
    exact ⟨f :: frames, .turn (.part h ht) hr⟩
  | pong =>
    obtain ⟨frames, hr⟩ := hrest { c with inbox } held rfl
    exact ⟨f :: frames, .turn (.pong h ht) hr⟩
  | ping payload =>
    dsimp only
    cases hs : { c with inbox }.sendFrame (.whole .pong payload) with
    | mk fault d =>
      cases fault with
      | some fault => exact ⟨[f], .stop (.unanswered h ht hs)⟩
      | none =>
        have hinbox : d.inbox = inbox := by
          obtain ⟨_, _, rfl⟩ := eq_of_sendFrame hs
          rfl
        obtain ⟨frames, hr⟩ := hrest d held hinbox
        exact ⟨f :: frames, .turn (.ping h ht hs) hr⟩
  | close code => exact ⟨[f], .stop (.close h ht)⟩
  | violation v => exact ⟨[f], .stop (.violation h ht)⟩

/-- Every receiving call is some turns and a last one. The induction is on what the inbox may still
hand out. -/
theorem receiving_assemble (c : Connection) (held : Option Bytes) :
    ∃ frames, Receiving c held frames (c.assemble held).1 (c.assemble held).2 := by
  induction hsize : c.inbox.size using Nat.strongRecOn generalizing c held with
  | ind n ih =>
    rw [assemble_eq]
    cases hn : c.inbox.next with
    | mk incoming inbox =>
      cases incoming with
      | malformed m => exact ⟨[], .stop (.malformed hn)⟩
      | ending => exact ⟨[], .stop (.ending hn)⟩
      | fault f => exact ⟨[], .stop (.fault hn)⟩
      | waiting => exact ⟨[], .stop (.waiting hn)⟩
      | frame f =>
        have hless := Inbox.size_next hn
        refine receiving_proceed hn fun d held' hd => ?_
        exact ih d.inbox.size (by rw [hd]; omega) d held' rfl

theorem receiving_receive (h : c.closed = false) :
    ∃ frames, Receiving c none frames c.receive.1 c.receive.2 := by
  rw [receive_of_open h]
  exact receiving_assemble c none

theorem read_zero (c : Connection) : c.read 0 = (.value [], c) := by
  rw [read, if_pos rfl]

theorem read_of_pending {length : Nat} (h : length ≠ 0) (hp : c.pending ≠ []) :
    c.read length =
      (.value (c.pending.take length), { c with pending := c.pending.drop length }) := by
  have hempty : ¬ c.pending.isEmpty = true := fun hnil => hp (List.isEmpty_iff.mp hnil)
  rw [read, if_neg h, if_neg hempty]
  rfl

theorem read_of_message {length : Nat} (h : length ≠ 0) (hp : c.pending = []) {message : Bytes}
    (hr : c.receive = (.value message, d)) :
    c.read length = (.value (message.take length), { d with pending := message.drop length }) := by
  rw [read, if_neg h, hp, List.isEmpty_nil, if_pos rfl, hr]
  rfl

theorem read_of_failed {length : Nat} (h : length ≠ 0) (hp : c.pending = [])
    (hr : c.receive = (o, d)) (ho : ∀ bytes, o ≠ .value bytes) : c.read length = (o, d) := by
  rw [read, if_neg h, hp, List.isEmpty_nil, if_pos rfl, hr]
  cases o with
  | value bytes => exact absurd rfl (ho bytes)
  | error | waiting | panicked => rfl

/-- What a read does: it hands out what is left of a message, or receives the next one. -/
inductive Reads (c : Connection) (length : Nat) : Outcome Bytes × Connection → Prop where
  | nothing (h : length = 0) : Reads c length (.value [], c)
  | served (h : length ≠ 0) (hp : c.pending ≠ []) :
      Reads c length (.value (c.pending.take length), { c with pending := c.pending.drop length })
  | message (h : length ≠ 0) (hp : c.pending = []) {bytes : Bytes} {d : Connection}
      (hr : c.receive = (.value bytes, d)) :
      Reads c length (.value (bytes.take length), { d with pending := bytes.drop length })
  | failed (h : length ≠ 0) (hp : c.pending = []) {o : Outcome Bytes} {d : Connection}
      (hr : c.receive = (o, d)) (ho : ∀ bytes, o ≠ .value bytes) : Reads c length (o, d)

theorem reads_read (c : Connection) (length : Nat) : Reads c length (c.read length) := by
  by_cases h : length = 0
  · subst h
    rw [read_zero]
    exact .nothing rfl
  · by_cases hp : c.pending = []
    · cases hr : c.receive with
      | mk o d =>
        cases o with
        | value bytes =>
          rw [read_of_message h hp hr]
          exact .message h hp hr
        | error | waiting | panicked =>
          rw [read_of_failed h hp hr nofun]
          exact .failed h hp hr nofun
    · rw [read_of_pending h hp]
      exact .served h hp

/-! ## Closed connections -/

/-- What calls on a closed connection do: they are refused, but for a read that finds bytes of the last
message, or asks for none, and for another close. The stream stays as it is. -/
def whenClosed (c : Connection) : Operation → Answer × Connection
  | .write _ => (.written (.error (.breakdown .alreadyClosed)), c)
  | .ping _ => (.done (.error (.breakdown .alreadyClosed)), c)
  | .receive => (.bytes (.error (.breakdown .alreadyClosed)), c)
  | .close => (.done (.value ()), c)
  | .read length =>
    if length = 0 then (.bytes (.value []), c)
    else if c.pending = [] then (.bytes (.error (.breakdown .alreadyClosed)), c)
    else (.bytes (.value (c.pending.take length)), { c with pending := c.pending.drop length })

theorem perform_of_closed (h : c.closed = true) (op : Operation) :
    c.perform op = c.whenClosed op := by
  cases op with
  | write data => rw [perform, write_of_closed h, whenClosed]
  | ping data => rw [perform, ping_of_closed h, whenClosed]
  | receive => rw [perform, receive_of_closed h, whenClosed]
  | close => rw [perform, close_of_closed h, whenClosed]
  | read length =>
    have hreceive := receive_of_closed h
    have hread := c.reads_read length
    rw [perform, whenClosed]
    generalize c.read length = r at hread ⊢
    cases hread with
    | nothing hlength => rw [if_pos hlength]
    | served hlength hp => rw [if_neg hlength, if_neg hp]
    | message _ _ hr => cases hreceive.symm.trans hr
    | failed hlength hp hr =>
      cases hreceive.symm.trans hr
      rw [if_neg hlength, if_pos hp]

/-- A closed connection differs after a call at most in what is left of a message. -/
theorem eq_of_closed (h : c.closed = true) (op : Operation) :
    ∃ pending, (c.perform op).2 = { c with pending } := by
  rw [perform_of_closed h]
  cases op with
  | write | ping | receive | close => exact ⟨c.pending, rfl⟩
  | read length =>
    unfold whenClosed
    dsimp only
    split
    · exact ⟨c.pending, rfl⟩
    · split
      · exact ⟨c.pending, rfl⟩
      · exact ⟨_, rfl⟩

/-! ## What a turn does to the inbox -/

theorem Turn.next (h : Turn c held f c' held') : c.inbox.next = (.frame f, c'.inbox) := by
  cases h with
  | part h => exact h
  | pong h => exact h
  | ping h _ hs =>
    obtain ⟨_, _, rfl⟩ := eq_of_sendFrame hs
    exact h

theorem Turn.maxMessage (h : Turn c held f c' held') : c'.maxMessage = c.maxMessage := by
  cases h with
  | part | pong => rfl
  | ping _ _ hs =>
    obtain ⟨_, _, rfl⟩ := eq_of_sendFrame hs
    rfl

theorem Stop.maxMessage (h : Stop c held frames o d) : d.maxMessage = c.maxMessage := by
  cases h with
  | unanswered _ _ hs =>
    obtain ⟨_, _, rfl⟩ := eq_of_sendFrame hs
    rfl
  | malformed | ending | fault | waiting | message | close | violation => rfl

theorem Receiving.maxMessage (h : Receiving c held frames o d) : d.maxMessage = c.maxMessage := by
  induction h with
  | stop h => exact h.maxMessage
  | turn h _ ih => exact ih.trans h.maxMessage

theorem Stop.frames_eq (h : Stop c held frames o d) :
    c.inbox.frames = frames ++ d.inbox.frames := by
  cases h with
  | malformed h => exact (Inbox.frames_of_next_of_ne h nofun).symm
  | ending h => exact (Inbox.frames_of_next_of_ne h nofun).symm
  | fault h => exact (Inbox.frames_of_next_of_ne h nofun).symm
  | waiting h => exact (Inbox.frames_of_next_of_ne h nofun).symm
  | message h => exact Inbox.frames_of_next h
  | close h => exact Inbox.frames_of_next h
  | violation h => exact Inbox.frames_of_next h
  | unanswered h _ hs =>
    obtain ⟨_, _, rfl⟩ := eq_of_sendFrame hs
    exact Inbox.frames_of_next h

/-- The frames that a call takes are the next ones of those to come. -/
theorem Receiving.frames_eq (h : Receiving c held frames o d) :
    c.inbox.frames = frames ++ d.inbox.frames := by
  induction h with
  | stop h => exact h.frames_eq
  | turn h _ ih => rw [Inbox.frames_of_next h.next, ih, List.cons_append]

end Connection

end EchoLoad
