import EchoLoad.Error

/-!
# Events

What a run tells about itself, each event with its level, its message and its named values.
-/

namespace EchoLoad

inductive Event.Level where
  | debug
  | info
  | warn
  | error
  deriving DecidableEq, Repr

def Event.Level.name : Event.Level → String
  | debug => "DEBUG"
  | info => "INFO"
  | warn => "WARN"
  | error => "ERROR"

inductive Event where
  | handshakeComplete (url : String)
  /-- The answer to the peer's close frame could not be sent. -/
  | closeReplyFailed (error : Error)
  /-- A read brought another number of bytes than the write before it. -/
  | sizeMismatch (slot expected actual : Nat)
  | closeFailed (slot : Nat) (error : Error)
  | reportDropped (slot : Nat)
  | sessionFinished (slot completed : Nat)
  | runStarted (config : Config)
  | sessionFailed (error : Error)
  /-- The run is over while sessions are still under way. -/
  | runStopped (admitted inFlight : Nat)
  /-- The total has exceeded the target; `text` is the summary. -/
  | targetExceeded (target completed milliseconds : Nat) (text : String)
  deriving DecidableEq, Repr

namespace Event

def level : Event → Level
  | handshakeComplete _ | closeReplyFailed _ | closeFailed _ _ | reportDropped _ => .debug
  | sizeMismatch _ _ _ => .warn
  | sessionFailed _ => .error
  | sessionFinished _ _ | runStarted _ | runStopped _ _ | targetExceeded _ _ _ _ => .info

def message : Event → String
  | handshakeComplete _ => "handshake complete"
  | closeReplyFailed _ => "close reply failed"
  | sizeMismatch _ expected actual => s!"expected length {expected}, actual {actual}"
  | closeFailed _ _ => "close failed"
  | reportDropped _ => "aggregator stopped, report dropped"
  | sessionFinished slot completed => s!"#{slot} finished {completed} requests"
  | runStarted _ => "starting benchmark"
  | sessionFailed _ => "session failed, aborting run"
  | runStopped _ _ => "stopping, abandoning in-flight sessions"
  | targetExceeded _ _ _ text => text

/-- The named values in the order in which they are written. -/
def fields : Event → List (String × String)
  | handshakeComplete url => [("url", url)]
  | closeReplyFailed e => [("error", e.message)]
  | sizeMismatch slot expected actual =>
    [("slot", toString slot), ("expected", toString expected), ("actual", toString actual)]
  | closeFailed slot e => [("slot", toString slot), ("error", e.message)]
  | reportDropped slot => [("slot", toString slot)]
  | sessionFinished slot completed =>
    [("slot", toString slot), ("completed", toString completed)]
  | runStarted c =>
    [ ("concurrency", toString c.concurrency), ("target_total", toString c.targetTotal),
      ("url", c.url), ("count", c.count.text), ("size", c.size.text),
      ("release_order", c.releaseOrder.text) ]
  | sessionFailed e => [("error", e.message)]
  | runStopped admitted inFlight =>
    [("admitted", toString admitted), ("in_flight", toString inFlight)]
  | targetExceeded target completed milliseconds _ =>
    [ ("total", toString target), ("completed", toString completed),
      ("elapsed_ms", toString milliseconds) ]

end Event

end EchoLoad
