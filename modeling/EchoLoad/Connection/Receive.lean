import EchoLoad.Connection.Basic

/-!
# Receiving

`Connection.receive` gives the next whole message and answers the control frames before it;
`Connection.read` hands messages out in portions. A call that is given up while it waits keeps the
bytes of unfinished frames, but forgets the fragments that it has put together.
-/

namespace EchoLoad.Connection

/-- Answers the close frame of the peer, which ends the connection whether the answer gets through
or not. -/
def closedByPeer (c : Connection) (code : Option UInt16) : Outcome Bytes × Connection :=
  let (fault, c) := c.sendFrame (.closing normalClosure)
  let journal := match fault with
    | none => c.journal
    | some f => .closeReplyFailed (.ofFault f) :: c.journal
  (.error (.breakdown (.closedByPeer code)), { c with closed := true, journal })

/-- Receives frames until a message is complete, `held` being the part that has arrived. -/
def assemble (c : Connection) (held : Option Bytes) : Outcome Bytes × Connection :=
  match _h : c.inbox.next with
  | (.malformed m, inbox) => (.error (.malformed m), { c with inbox })
  | (.ending, inbox) => (.error (.breakdown .endOfStream), { c with inbox, closed := true })
  | (.fault f, inbox) => (.error (.ofFault f), { c with inbox })
  | (.waiting, inbox) => (.waiting, { c with inbox })
  | (.frame f, inbox) =>
    match Message.take c.maxMessage held f with
    | .message bytes => (.value bytes, { c with inbox })
    | .part bytes => assemble { c with inbox } (some bytes)
    | .pong => assemble { c with inbox } held
    | .ping payload =>
      match _hs : { c with inbox }.sendFrame (.whole .pong payload) with
      | (some fault, c) => (.error (.ofFault fault), c)
      | (none, c) => assemble c held
    | .close code => { c with inbox }.closedByPeer code
    | .violation v => (.error (.violation v), { c with inbox })
termination_by c.inbox.size
decreasing_by
  · have := Inbox.size_next _h
    omega
  · have := Inbox.size_next _h
    omega
  · have := Inbox.size_next _h
    have hc := congrArg (fun r => r.2.inbox) _hs
    simp only [inbox_sendFrame] at hc
    rw [← hc]
    omega

/-- The next whole message. -/
def receive (c : Connection) : Outcome Bytes × Connection :=
  if c.closed then (.error (.breakdown .alreadyClosed), c) else c.assemble none

/-- Hands out at most `length` bytes of what is pending. -/
def takePending (c : Connection) (length : Nat) : Bytes × Connection :=
  (c.pending.take length, { c with pending := c.pending.drop length })

/-- Reads into a buffer of this length: what is left of the last message, or else the next one. -/
def read (c : Connection) (length : Nat) : Outcome Bytes × Connection :=
  if length = 0 then (.value [], c)
  else if c.pending.isEmpty then
    match c.receive with
    | (.value message, c) =>
      let (bytes, c) := { c with pending := message }.takePending length
      (.value bytes, c)
    | (other, c) => (other, c)
  else
    let (bytes, c) := c.takePending length
    (.value bytes, c)

end EchoLoad.Connection
