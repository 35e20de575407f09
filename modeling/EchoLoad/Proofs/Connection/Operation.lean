import EchoLoad.Connection.Receive

/-!
# Calls on a connection

The calls of a connection as data, so that statements can speak of every sequence of calls.
`Connection.perform` makes one call; `Connection.history` makes one after the other and keeps each
answer with the connection as the call has left it, and `Connection.after` keeps the last one only.
What a call does depends on whether the connection is open first of all (`write_of_open`,
`write_of_closed` and so on).

Receiving is a loop over frames. `Connection.proceed` is what the loop does about one frame, and
`Connection.assemble_eq` takes the loop apart at its first frame.
-/

namespace EchoLoad.Connection

inductive Operation where
  | write (data : Bytes)
  | read (length : Nat)
  | receive
  | ping (data : Bytes)
  | close
  deriving DecidableEq, Repr

inductive Answer where
  | written (o : Outcome Nat)
  | bytes (o : Outcome Bytes)
  | done (o : Outcome Unit)
  deriving DecidableEq, Repr

def perform (c : Connection) : Operation → Answer × Connection
  | .write data => (.written (c.write data).1, (c.write data).2)
  | .read length => (.bytes (c.read length).1, (c.read length).2)
  | .receive => (.bytes c.receive.1, c.receive.2)
  | .ping data => (.done (c.ping data).1, (c.ping data).2)
  | .close => (.done c.close.1, c.close.2)

/-- The answers to calls made in turn, each with the connection after it. -/
def history (c : Connection) : List Operation → List (Answer × Connection)
  | [] => []
  | op :: ops => c.perform op :: (c.perform op).2.history ops

/-- The connection after calls made in turn. -/
def after (c : Connection) (ops : List Operation) : Connection :=
  ops.foldl (fun c op => (c.perform op).2) c

theorem after_append_singleton (c : Connection) (ops : List Operation) (op : Operation) :
    c.after (ops ++ [op]) = ((c.after ops).perform op).2 := by
  rw [after, List.foldl_append]
  rfl

/-! ## Calls on open and on closed connections -/

variable {c d : Connection}

/-- Sending changes the writing half of the stream and takes a mask key. -/
theorem eq_of_sendFrame {f : Frame} {fault : Option StreamFault} (h : c.sendFrame f = (fault, d)) :
    ∃ sink maskCounter, d = { c with sink, maskCounter } :=
  ⟨_, _, (congrArg Prod.snd h).symm⟩

theorem write_of_open (h : c.closed = false) (data : Bytes) :
    c.write data = (.ofFault data.length (c.sendFrame (.whole c.opcode data)).1,
      (c.sendFrame (.whole c.opcode data)).2) := by
  rw [write, h]
  rfl

theorem write_of_closed (h : c.closed = true) (data : Bytes) :
    c.write data = (.error (.breakdown .alreadyClosed), c) := by
  rw [write, if_pos h]

theorem ping_of_open (h : c.closed = false) {data : Bytes}
    (hdata : data.length ≤ Frame.maxControlPayload) :
    c.ping data = (.ofFault () (c.sendFrame (.whole .ping data)).1,
      (c.sendFrame (.whole .ping data)).2) := by
  rw [ping, h, if_neg (by simp), if_neg (by omega)]

theorem ping_of_long (h : c.closed = false) {data : Bytes}
    (hdata : Frame.maxControlPayload < data.length) :
    c.ping data = (.error (.violation (.longPing data.length)), c) := by
  rw [ping, h, if_neg (by simp), if_pos hdata]

theorem ping_of_closed (h : c.closed = true) (data : Bytes) :
    c.ping data = (.error (.breakdown .alreadyClosed), c) := by
  rw [ping, if_pos h]

/-- The close frame has not got through. -/
theorem close_of_fault (h : c.closed = false) {fault : StreamFault}
    (hs : { c with closed := true }.sendFrame (.closing normalClosure) = (some fault, d)) :
    c.close = (.error (.ofFault fault), d) := by
  rw [close, h, if_neg (by simp), hs]

/-- The close frame has been sent, and the writing half is shut down behind it. -/
theorem close_of_sent (h : c.closed = false)
    (hs : { c with closed := true }.sendFrame (.closing normalClosure) = (none, d)) :
    c.close = (.ofFault () d.sink.shutdown.1, { d with sink := d.sink.shutdown.2 }) := by
  rw [close, h, if_neg (by simp), hs]

theorem close_of_closed (h : c.closed = true) : c.close = (.value (), c) := by
  rw [close, if_pos h]

theorem receive_of_open (h : c.closed = false) : c.receive = c.assemble none := by
  rw [receive, h]
  rfl

theorem receive_of_closed (h : c.closed = true) :
    c.receive = (.error (.breakdown .alreadyClosed), c) := by
  rw [receive, if_pos h]

/-! ## The loop of a receiving call -/

/-- Goes on from a frame that has been taken out of the inbox. -/
def proceed (c : Connection) (held : Option Bytes) (f : Frame) : Outcome Bytes × Connection :=
  match Message.take c.maxMessage held f with
  | .message bytes => (.value bytes, c)
  | .part bytes => c.assemble (some bytes)
  | .pong => c.assemble held
  | .ping payload => match c.sendFrame (.whole .pong payload) with
    | (some fault, c) => (.error (.ofFault fault), c)
    | (none, c) => c.assemble held
  | .close code => c.closedByPeer code
  | .violation v => (.error (.violation v), c)

theorem assemble_eq (c : Connection) (held : Option Bytes) :
    c.assemble held = match c.inbox.next with
      | (.malformed m, inbox) => (.error (.malformed m), { c with inbox })
      | (.ending, inbox) => (.error (.breakdown .endOfStream), { c with inbox, closed := true })
      | (.fault f, inbox) => (.error (.ofFault f), { c with inbox })
      | (.waiting, inbox) => (.waiting, { c with inbox })
      | (.frame f, inbox) => { c with inbox }.proceed held f := by
  rw [assemble]
  split
  · next h => rw [h]
  · next h => rw [h]
  · next h => rw [h]
  · next h => rw [h]
  · next h =>
    rw [h]
    -- `proceed` stays folded until the branch is known, so that `split` takes the loop apart.
    split
    · next hm => simp only [proceed, hm]
    · next hm => simp only [proceed, hm]
    · next hm => simp only [proceed, hm]
    · next hm =>
      split
      · next hs => simp only [proceed, hm, hs]
      · next hs => simp only [proceed, hm, hs]
    · next hm => simp only [proceed, hm]
    · next hm => simp only [proceed, hm]

end EchoLoad.Connection
