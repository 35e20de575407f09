import EchoLoad.Event
import EchoLoad.Frame.Encode
import EchoLoad.Outcome
import EchoLoad.Stream.Sink
import EchoLoad.Stream.Source

/-!
# Connections

The client's end of an open WebSocket connection. Bytes that have arrived wait in an inbox until
they make up a frame; frames are sent masked, whole and at once.

* `Inbox.next` reads the stream only while the inbox holds no complete frame.
* `Inbox.size_next`: a frame taken out of the inbox is gone from it for good.
-/

namespace EchoLoad

/-- The room that a read finds at least. -/
def readLimit : Nat := 4096

/-- Bytes that have arrived and bytes that are still to come. -/
structure Inbox where
  buffer : Bytes
  source : Source
  /-- The room that a read finds beyond that. -/
  spare : Nat := 0
  deriving DecidableEq, Repr

inductive Incoming where
  | frame (f : Frame)
  | malformed (m : Frame.Malformed)
  | ending
  | fault (f : StreamFault)
  | waiting
  deriving DecidableEq, Repr

namespace Inbox

theorem room_pos (b : Inbox) : 0 < readLimit + b.spare := Nat.add_pos_left (by decide) _

/-- The next frame. A malformed one stays where it is. -/
def next (b : Inbox) : Incoming × Inbox :=
  match Frame.parse b.buffer with
  | .error m => (.malformed m, b)
  | .ok (some (f, n)) => (.frame f, { b with buffer := b.buffer.drop n })
  | .ok none =>
    match _h : b.source.read (readLimit + b.spare) with
    | (.data bytes, source) => next { b with buffer := b.buffer ++ bytes, source }
    | (.ending, source) => (.ending, { b with source })
    | (.fault f, source) => (.fault f, { b with source })
    | (.waiting, source) => (.waiting, { b with source })
termination_by b.source.size
decreasing_by
  have ⟨hne, hle⟩ := Source.size_read_data b.room_pos _h
  have := List.length_pos_iff.2 hne
  omega

/-- How many bytes the inbox may still hand out, and one for every arrival to come. -/
def size (b : Inbox) : Nat := b.buffer.length + b.source.size

theorem size_next {b b' : Inbox} {f : Frame} (h : b.next = (.frame f, b')) :
    b'.size + 2 ≤ b.size := by
  fun_induction next b with
  | case1 => cases h
  | case2 b f' n hp =>
    cases h
    have := Frame.consumed_of_parse hp
    simp only [size, List.length_drop]
    omega
  | case3 b hp bytes source hr ih =>
    have ⟨_, hle⟩ := Source.size_read_data b.room_pos hr
    have := ih h
    simp only [size, List.length_append] at this ⊢
    omega
  | case4 | case5 | case6 => cases h

end Inbox

structure Connection where
  inbox : Inbox
  sink : Sink
  /-- What is left of the message that is being read. -/
  pending : Bytes := []
  /-- The opcode of the messages that are written. -/
  opcode : Opcode
  /-- The longest message that is taken from the peer. -/
  maxMessage : Nat := Frame.maxPayload
  /-- The number from which the next mask key is mixed. -/
  maskCounter : UInt32
  closed : Bool := false
  /-- Events, newest first. -/
  journal : List Event := []

namespace Connection

/-- The status code of every close frame that the client sends. -/
def normalClosure : UInt16 := 1000

/-- A connection on a stream that has been upgraded; `buffered` has arrived already. -/
def ofUpgraded (source : Source) (sink : Sink) (buffered : Bytes) (opcode : Opcode)
    (seed : UInt32) : Connection :=
  { inbox := { buffer := buffered, source }, sink, opcode, maskCounter := seed }

/-- Advances the counter and mixes a key from it. -/
def nextMask (counter : UInt32) : MaskKey × UInt32 :=
  let a := counter + 0x9E3779B9
  let b := a * 0x85EBCA6B
  let c := b ^^^ (b >>> 13)
  (MaskKey.ofWord (c * 0xC2B2AE35), a)

/-- Sends one frame under a fresh mask. It is written into an empty buffer first. -/
def sendFrame (c : Connection) (f : Frame) : Option StreamFault × Connection :=
  let (key, maskCounter) := nextMask c.maskCounter
  let (fault, sink) := c.sink.send (f.writeTo [] (some key))
  (fault, { c with sink, maskCounter })

def write (c : Connection) (data : Bytes) : Outcome Nat × Connection :=
  if c.closed then (.error (.breakdown .alreadyClosed), c)
  else
    let (fault, c) := c.sendFrame (.whole c.opcode data)
    (.ofFault data.length fault, c)

def ping (c : Connection) (data : Bytes) : Outcome Unit × Connection :=
  if c.closed then (.error (.breakdown .alreadyClosed), c)
  else if data.length > Frame.maxControlPayload then
    (.error (.violation (.longPing data.length)), c)
  else
    let (fault, c) := c.sendFrame (.whole .ping data)
    (.ofFault () fault, c)

/-- Sends a close frame and ends the writing half of the stream, once. -/
def close (c : Connection) : Outcome Unit × Connection :=
  if c.closed then (.value (), c)
  else
    match { c with closed := true }.sendFrame (.closing normalClosure) with
    | (some f, c) => (.error (.ofFault f), c)
    | (none, c) =>
      let (fault, sink) := c.sink.shutdown
      (.ofFault () fault, { c with sink })

def text (c : Connection) : String :=
  "WsConnection \x7b opcode: " ++ c.opcode.name ++
    ", max_message_size: " ++ toString c.maxMessage ++
    ", buffered: " ++ toString c.inbox.buffer.length ++
    ", pending: " ++ toString c.pending.length ++
    ", closed: " ++ (if c.closed then "true" else "false") ++ ", .. \x7d"

/-- What is sent is the wire form. -/
theorem sendFrame_eq (c : Connection) (f : Frame) : c.sendFrame f =
    let (key, maskCounter) := nextMask c.maskCounter
    let (fault, sink) := c.sink.send (f.encode (some key))
    (fault, { c with sink, maskCounter }) := by
  simp only [sendFrame, Frame.writeTo_eq, List.nil_append]

@[simp] theorem inbox_sendFrame (c : Connection) (f : Frame) :
    (c.sendFrame f).2.inbox = c.inbox := rfl

end Connection

end EchoLoad
