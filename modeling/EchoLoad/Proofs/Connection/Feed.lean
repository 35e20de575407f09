import EchoLoad.Connection.Basic
import EchoLoad.Proofs.Frame.Extension

/-!
# What an inbox will hand out

The bytes of the peer reach an inbox in pieces: some are in the buffer, some are left of the arrival
that is being read, the others are still to come. None of this shows in the frames that are taken
out. `Inbox.feed` forgets the pieces and keeps the bytes up to the next interruption of the stream,
the interruption, and what arrives after it.

* `Inbox.feed_next`: taking the next frame out of an inbox is taking it off the feed. The reading
  loop of `Inbox.next` is followed step by step; a read changes nothing (`feed_read_data`), and what
  is found in a part of the bytes is found in all of them (`Frame.parse_append`).
* `Cutting.feed_connection`: the feed of a fresh connection depends on the bytes of the peer, not on
  how they are cut.
-/

namespace EchoLoad

/-- What interrupts the bytes of a stream. -/
inductive Halt where
  | ending
  | fault (f : StreamFault)
  | waiting
  deriving DecidableEq, Repr

def Halt.incoming : Halt → Incoming
  | ending => .ending
  | fault f => .fault f
  | waiting => .waiting

/-- The bytes before the next interruption, the interruption, and what arrives after it. -/
structure Feed where
  bytes : Bytes
  halt : Halt
  later : List Arrival
  deriving DecidableEq, Repr

namespace Feed

/-- The feed of a stream that begins with `bytes`. A stream that has no more arrivals is at its
end. -/
def ofArrivals (bytes : Bytes) : List Arrival → Feed
  | [] => ⟨bytes, .ending, []⟩
  | .data more :: rest => ofArrivals (bytes ++ more) rest
  | .ending :: rest => ⟨bytes, .ending, rest⟩
  | .fault f :: rest => ⟨bytes, .fault f, rest⟩
  | .pause :: rest => ⟨bytes, .waiting, rest⟩

/-- The next frame, or what stands in its place. -/
def next (f : Feed) : Incoming × Feed :=
  match Frame.parse f.bytes with
  | .error m => (.malformed m, f)
  | .ok (some (frame, n)) => (.frame frame, { f with bytes := f.bytes.drop n })
  | .ok none => (f.halt.incoming, .ofArrivals f.bytes f.later)

theorem ofArrivals_append (front bytes : Bytes) (arrivals : List Arrival) :
    ofArrivals (front ++ bytes) arrivals =
      { ofArrivals bytes arrivals with bytes := front ++ (ofArrivals bytes arrivals).bytes } := by
  fun_induction ofArrivals bytes arrivals with
  | case2 bytes more rest ih =>
    rw [ofArrivals, List.append_assoc]
    exact ih
  | case1 | case3 | case4 | case5 => rfl

/-- Bytes taken off the first ones are taken off all of them. -/
theorem ofArrivals_drop {bytes : Bytes} {n : Nat} (h : n ≤ bytes.length)
    (arrivals : List Arrival) :
    ofArrivals (bytes.drop n) arrivals =
      { ofArrivals bytes arrivals with bytes := (ofArrivals bytes arrivals).bytes.drop n } := by
  have hall := ofArrivals_append bytes [] arrivals
  have hrest := ofArrivals_append (bytes.drop n) [] arrivals
  rw [List.append_nil] at hall hrest
  rw [hall, hrest, List.drop_append_of_le_length h]

theorem ofArrivals_pieces (bytes : Bytes) (pieces : List Bytes) (tail : List Arrival) :
    ofArrivals bytes (pieces.map .data ++ tail) = ofArrivals (bytes ++ pieces.flatten) tail := by
  induction pieces generalizing bytes with
  | nil => simp
  | cons piece pieces ih =>
    rw [List.map_cons, List.cons_append, ofArrivals, ih, List.flatten_cons, List.append_assoc]

end Feed

def Reading.halt? : Reading → Option Halt
  | data _ => none
  | ending => some .ending
  | fault f => some (.fault f)
  | waiting => some .waiting

namespace Source

/-- The feed of a source, behind the bytes that have been read already. -/
def feed (s : Source) (read : Bytes) : Feed := .ofArrivals (read ++ s.current) s.arrivals

theorem feed_advance_data {room : Nat} {arrivals : List Arrival} {bytes : Bytes} {s : Source}
    (h : Source.advance room arrivals = (.data bytes, s)) (read : Bytes) :
    s.feed (read ++ bytes) = .ofArrivals read arrivals := by
  fun_induction Source.advance room arrivals with
  | case2 rest ih => rw [ih h, Feed.ofArrivals, List.append_nil]
  | case3 b bs rest =>
    cases h
    rw [feed, List.append_assoc, List.take_append_drop, Feed.ofArrivals]
  | case1 | case4 | case5 | case6 => cases h

/-- Bytes that are read leave the source and come to stand before it. -/
theorem feed_read_data {s s' : Source} {room : Nat} {bytes : Bytes}
    (h : s.read room = (.data bytes, s')) (read : Bytes) :
    s'.feed (read ++ bytes) = s.feed read := by
  unfold Source.read at h
  split at h
  · next hc => rw [feed_advance_data h, feed, hc, List.append_nil]
  · cases h
    rw [feed, feed, List.append_assoc, List.take_append_drop]

theorem feed_advance_halt {room : Nat} {arrivals : List Arrival} {reading : Reading} {s : Source}
    {halt : Halt} (h : Source.advance room arrivals = (reading, s)) (hh : reading.halt? = some halt)
    (read : Bytes) :
    Feed.ofArrivals read arrivals = ⟨read, halt, s.arrivals⟩ ∧ s.current = [] := by
  fun_induction Source.advance room arrivals with
  | case2 rest ih =>
    rw [Feed.ofArrivals, List.append_nil]
    exact ih h
  | case3 =>
    cases h
    cases hh
  | case1 | case4 | case5 | case6 =>
    cases h
    cases hh
    exact ⟨rfl, rfl⟩

/-- A read that finds no bytes finds the interruption, and then what comes after it. -/
theorem feed_read_halt {s s' : Source} {room : Nat} {reading : Reading} {halt : Halt}
    (h : s.read room = (reading, s')) (hh : reading.halt? = some halt) (read : Bytes) :
    s.feed read = ⟨read, halt, s'.arrivals⟩ ∧ s'.current = [] := by
  unfold Source.read at h
  split at h
  · next hc =>
    rw [feed, hc, List.append_nil]
    exact feed_advance_halt h hh read
  · cases h
    cases hh

end Source

namespace Inbox

def feed (b : Inbox) : Feed := b.source.feed b.buffer

theorem feed_eq (b : Inbox) : b.feed =
    { b.source.feed [] with bytes := b.buffer ++ (b.source.feed []).bytes } := by
  unfold feed Source.feed
  rw [Feed.ofArrivals_append]
  rfl

/-- Bytes taken out of the buffer are taken off the feed. -/
theorem feed_drop {b : Inbox} {n : Nat} (h : n ≤ b.buffer.length) :
    { b with buffer := b.buffer.drop n }.feed = { b.feed with bytes := b.feed.bytes.drop n } := by
  unfold feed Source.feed
  have hfront : n ≤ (b.buffer ++ b.source.current).length := by
    rw [List.length_append]
    omega
  rw [← Feed.ofArrivals_drop hfront, List.drop_append_of_le_length h]

/-- What the buffer holds already is found in the whole feed as well. -/
theorem parse_feed {b : Inbox} (h : Frame.parse b.buffer ≠ .ok none) :
    Frame.parse b.feed.bytes = Frame.parse b.buffer := by
  rw [feed_eq]
  exact Frame.parse_append h _

/-- A read that finds no bytes leaves all of them in the buffer. -/
theorem next_feed_of_halt {b : Inbox} {room : Nat} {reading : Reading} {source : Source}
    {halt : Halt} (hp : Frame.parse b.buffer = .ok none) (hr : b.source.read room = (reading, source))
    (hh : reading.halt? = some halt) :
    b.feed.next = (halt.incoming, { b with source }.feed) := by
  obtain ⟨hfeed, hcurrent⟩ := Source.feed_read_halt hr hh b.buffer
  have hrest : { b with source }.feed = .ofArrivals b.buffer source.arrivals := by
    rw [feed, Source.feed, hcurrent, List.append_nil]
  rw [hrest, feed, hfeed, Feed.next]
  simp only [hp]

/-- Taking a frame out of an inbox is taking it off the feed. -/
theorem feed_next (b : Inbox) : (b.next.1, b.next.2.feed) = b.feed.next := by
  fun_induction Inbox.next b with
  | case1 b m hp =>
    have hf := parse_feed (b := b) (by simp [hp])
    rw [hp] at hf
    simp only [Feed.next, hf]
  | case2 b f n hp =>
    have hf := parse_feed (b := b) (by simp [hp])
    have hn := (Frame.consumed_of_parse hp).2
    rw [hp] at hf
    simp only [Feed.next, hf]
    rw [feed_drop hn]
  | case3 b hp bytes source hr ih =>
    rw [ih]
    exact congrArg Feed.next (Source.feed_read_data hr b.buffer)
  | case4 b hp source hr => exact (next_feed_of_halt hp hr rfl).symm
  | case5 b hp f source hr => exact (next_feed_of_halt hp hr rfl).symm
  | case6 b hp source hr => exact (next_feed_of_halt hp hr rfl).symm

end Inbox

/-! ## Ways of cutting the bytes of the peer -/

/-- The bytes of the peer as they reach a connection: some have arrived with the answer to the
upgrade request, the others arrive piece by piece. -/
structure Cutting where
  buffered : Bytes
  pieces : List Bytes
  /-- How much room reads find beyond what they ask for. -/
  spare : Nat := 0
  deriving DecidableEq, Repr

namespace Cutting

def bytes (k : Cutting) : Bytes := k.buffered ++ k.pieces.flatten

/-- A fresh connection on a stream that brings the bytes, and `tail` after them. -/
def connection (k : Cutting) (tail : List Arrival) (sink : Sink) (opcode : Opcode)
    (maxMessage : Nat) (seed : UInt32) : Connection :=
  let source := Source.ofArrivals (k.pieces.map .data ++ tail)
  let c := Connection.ofUpgraded source sink k.buffered opcode seed
  { c with maxMessage, inbox := { c.inbox with spare := k.spare } }

theorem feed_connection (k : Cutting) (tail : List Arrival) (sink : Sink) (opcode : Opcode)
    (maxMessage : Nat) (seed : UInt32) :
    (k.connection tail sink opcode maxMessage seed).inbox.feed = .ofArrivals k.bytes tail := by
  show Feed.ofArrivals (k.buffered ++ []) (k.pieces.map .data ++ tail) = _
  rw [List.append_nil, Feed.ofArrivals_pieces]
  rfl

/-- What comes first of the bytes is what a fresh connection finds first. -/
theorem bytes_feed_connection {k : Cutting} {front rest : Bytes} (h : k.bytes = front ++ rest)
    (tail : List Arrival) (sink : Sink) (opcode : Opcode) (maxMessage : Nat) (seed : UInt32) :
    (k.connection tail sink opcode maxMessage seed).inbox.feed.bytes =
      front ++ (rest ++ (Feed.ofArrivals [] tail).bytes) := by
  rw [feed_connection, ← List.append_nil k.bytes, Feed.ofArrivals_append, h, List.append_assoc]

end Cutting

end EchoLoad
