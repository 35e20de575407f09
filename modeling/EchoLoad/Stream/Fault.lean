/-!
# Faults of a stream

What can go wrong below the protocol: the kind of a fault and, if there is one, its own message.
-/

namespace EchoLoad

inductive StreamFault.Kind where
  | brokenPipe
  | connectionReset
  | connectionRefused
  | connectionAborted
  | notConnected
  | timedOut
  | unexpectedEnd
  | writeZero
  | interrupted
  | permissionDenied
  | invalidData
  | networkUnreachable
  | other
  deriving DecidableEq, Repr

def StreamFault.Kind.text : StreamFault.Kind → String
  | brokenPipe => "broken pipe"
  | connectionReset => "connection reset"
  | connectionRefused => "connection refused"
  | connectionAborted => "connection aborted"
  | notConnected => "not connected"
  | timedOut => "timed out"
  | unexpectedEnd => "unexpected end of file"
  | writeZero => "write zero"
  | interrupted => "operation interrupted"
  | permissionDenied => "permission denied"
  | invalidData => "invalid data"
  | networkUnreachable => "network unreachable"
  | other => "other error"

structure StreamFault where
  kind : StreamFault.Kind
  message : Option String := none
  deriving DecidableEq, Repr

/-- The message, or the description of the kind. -/
def StreamFault.text (f : StreamFault) : String := f.message.getD f.kind.text

end EchoLoad
