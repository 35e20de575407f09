import EchoLoad.Connection.Basic
import EchoLoad.Handshake.Request

/-!
# The opening handshake on a stream

`Connection.upgrade` sends the request, reads the head of the answer, and makes a connection of the
stream. What has arrived beyond the head stays in the inbox.

The head is read into a buffer that doubles when it is full, so a read asks for no more than the
room that is left (`headRoom`). The size of the head is looked at between the reads.
-/

namespace EchoLoad

namespace Handshake

/-- The capacity of a buffer, doubled from `capacity` until more than `length` bytes fit. -/
def grownCapacity (capacity length : Nat) : Nat :=
  if 0 < capacity ∧ capacity ≤ length then grownCapacity (2 * capacity) length else capacity
termination_by length + 1 - capacity

/-- The room for the next read of the head: what the buffer has left, as far as the stream fills it
at once. -/
def headRoom (b : Inbox) : Nat :=
  min (readLimit + b.spare) (grownCapacity 1024 b.buffer.length - b.buffer.length)

theorem lt_grownCapacity {capacity : Nat} (length : Nat) (h : 0 < capacity) :
    length < grownCapacity capacity length := by
  fun_induction grownCapacity capacity length with
  | case1 c hc ih => exact ih (by omega)
  | case2 c hc => omega

theorem headRoom_pos (b : Inbox) : 0 < headRoom b := by
  have := @lt_grownCapacity 1024 b.buffer.length (by decide)
  simp only [headRoom, readLimit]
  omega

inductive Head where
  /-- The head takes the first `length` bytes of the buffer. -/
  | complete (length : Nat)
  | refused (r : Refusal)
  | fault (f : StreamFault)
  | waiting
  deriving DecidableEq, Repr

/-- Reads until the buffer holds the end of the head. -/
def readHead (b : Inbox) : Head × Inbox :=
  match headEnd? b.buffer with
  | some n => (.complete n, b)
  | none =>
    if b.buffer.length > maxHead then (.refused .headTooLong, b)
    else match _h : b.source.read (headRoom b) with
      | (.data bytes, source) => readHead { b with buffer := b.buffer ++ bytes, source }
      | (.ending, source) => (.refused .closedEarly, { b with source })
      | (.fault f, source) => (.fault f, { b with source })
      | (.waiting, source) => (.waiting, { b with source })
termination_by b.source.size
decreasing_by
  have ⟨hne, hle⟩ := Source.size_read_data (headRoom_pos _) _h
  have := List.length_pos_iff.2 hne
  omega

end Handshake

namespace Connection

/-- Opens a connection on a stream. The outcome comes with the stream's writing half as it is left,
which shows what has been sent. `spare` is the room that reads of the head find beyond
`readLimit`. -/
def upgrade (source : Source) (sink : Sink) (url : Url) (origin key : String) (opcode : Opcode)
    (seed : UInt32) (spare : Nat := 0) : Outcome Connection × Sink :=
  match Handshake.Request.ofUrl? url origin key with
  | none => (.error (.url (.missingHost url.text)), sink)
  | some request =>
    match sink.send request.toBytes with
    | (some f, sink) => (.error (.ofFault f), sink)
    | (none, sink) =>
      match Handshake.readHead { buffer := [], source, spare } with
      | (.refused r, _) => (.error (.refused r), sink)
      | (.fault f, _) => (.error (.ofFault f), sink)
      | (.waiting, _) => (.waiting, sink)
      | (.complete n, inbox) =>
        match (Handshake.readAccept (inbox.buffer.take n)).bind (Handshake.verify · key) with
        | .error r => (.error (.refused r), sink)
        | .ok () =>
          let c := ofUpgraded inbox.source sink (inbox.buffer.drop n) opcode seed
          (.value { c with journal := [.handshakeComplete url.text] }, sink)

end Connection

end EchoLoad
