import EchoLoad.Frame.Basic

/-!
# Messages

A message is one data frame, or a data frame and its continuations; control frames may stand
between them. `Message.take` says what a frame from the peer means while a message is being
assembled: this is the whole protocol of the receiving side.
-/

namespace EchoLoad.Message

inductive Violation where
  | masked
  | dataInsideMessage
  | strayContinuation
  | oversized (size limit : Nat)
  | longPing (length : Nat)
  deriving DecidableEq, Repr

def Violation.text : Violation → String
  | masked => "server frame must not be masked"
  | dataInsideMessage => "data frame inside a fragmented message"
  | strayContinuation => "unexpected continuation frame"
  | oversized size limit => s!"message of {size} bytes exceeds {limit}"
  | longPing length => s!"ping payload of {length} bytes"

/-- What a frame means to the receiver. -/
inductive Meaning where
  /-- The message is complete. -/
  | message (bytes : Bytes)
  /-- The frame belongs to a message of which this much has arrived. -/
  | part (bytes : Bytes)
  | ping (payload : Bytes)
  | pong
  | close (code : Option UInt16)
  | violation (v : Violation)
  deriving DecidableEq, Repr

/-- A message or a part of it, unless it has grown beyond the limit. -/
def grown (limit : Nat) (fin : Bool) (bytes : Bytes) : Meaning :=
  if bytes.length > limit then .violation (.oversized bytes.length limit)
  else if fin then .message bytes
  else .part bytes

/-- What a frame means, `held` being the part of a message that has arrived before it. -/
def take (limit : Nat) (held : Option Bytes) (f : Frame) : Meaning :=
  if f.masked then .violation .masked
  else match f.opcode with
    | .ping => .ping f.payload
    | .pong => .pong
    | .close => .close f.closeCode
    | .text | .binary =>
      if held.isSome then .violation .dataInsideMessage
      else grown limit f.fin f.payload
    | .continuation => match held with
      | none => .violation .strayContinuation
      | some bytes => grown limit f.fin (bytes ++ f.payload)

end EchoLoad.Message
