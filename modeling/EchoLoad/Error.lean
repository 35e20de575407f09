import EchoLoad.Config
import EchoLoad.Frame.Parse
import EchoLoad.Handshake.Response
import EchoLoad.Message
import EchoLoad.Stream.Fault
import EchoLoad.Text.Quoted

/-!
# Errors

An error is its cause. `Error.kind` sorts the causes, `Error.text` words them, and `Error.message`
is the sentence that is shown: the heading of the kind and the text.
-/

namespace EchoLoad

/-- Why a connection cannot be used, or cannot be used any longer. -/
inductive Breakdown where
  | alreadyClosed
  | endOfStream
  | closedByPeer (code : Option UInt16)
  | fault (f : StreamFault)
  deriving DecidableEq, Repr

def Breakdown.text : Breakdown → String
  | alreadyClosed => "connection already closed"
  | endOfStream => "connection closed by peer"
  | closedByPeer none => "peer closed connection"
  | closedByPeer (some code) => s!"peer closed connection with code {code.toNat}"
  | fault f => f.text

inductive Error.Kind where
  /-- A session could not open its connection. -/
  | connection
  /-- An open connection broke down. -/
  | transport
  /-- The answer to the upgrade request was refused. -/
  | handshake
  /-- The peer sent what it must not. -/
  | frame
  | invalidUrl
  | config
  /-- A part of the run went away. -/
  | aborted
  deriving DecidableEq, Repr

def Error.Kind.name : Error.Kind → String
  | connection => "Connection"
  | transport => "Transport"
  | handshake => "Handshake"
  | frame => "Frame"
  | invalidUrl => "InvalidUrl"
  | config => "Config"
  | aborted => "Aborted"

def Error.Kind.heading : Error.Kind → String
  | connection => "Connection failed"
  | transport => "Transport error"
  | handshake => "Invalid handshake"
  | frame => "Invalid frame"
  | invalidUrl => "Invalid URL"
  | config => "Invalid configuration"
  | aborted => "Run aborted"

inductive Error where
  | malformed (m : Frame.Malformed)
  | violation (v : Message.Violation)
  | refused (r : Handshake.Refusal)
  | breakdown (b : Breakdown)
  | url (d : UrlDefect)
  | config (d : Config.Defect)
  /-- Dialing `url` came to nothing. -/
  | dial (url : String) (cause : Error)
  /-- The reports ended before the target was exceeded. -/
  | reportsEnded (total target : Nat)
  /-- No more tokens are handed out. -/
  | admissionClosed
  | sessionPanicked
  /-- An error of which only the kind and the text are known. -/
  | reported (kind : Error.Kind) (text : String)
  deriving DecidableEq, Repr

namespace Error

def kind : Error → Kind
  | malformed _ | violation _ => .frame
  | refused _ => .handshake
  | breakdown _ => .transport
  | url _ | config (.url _) => .invalidUrl
  | config _ => .config
  | dial _ _ => .connection
  | reportsEnded _ _ | admissionClosed | sessionPanicked => .aborted
  | reported kind _ => kind

end Error

def UrlDefect.text : UrlDefect → String
  | unreadable reason => reason
  | missingHost url => s!"missing host in {url}"
  | unsupportedScheme scheme => "unsupported scheme '" ++ scheme ++ "'"

def Config.Defect.text : Config.Defect → String
  | noConcurrency => "concurrency must be at least 1"
  | excessConcurrency n => s!"concurrency {n} exceeds the limit of {Admission.maxPermits}"
  | noReportBuffer => "report buffer must be at least 1"
  | emptyCount min max => s!"empty request range [{min}, {max})"
  | emptySize min max => s!"empty message size range [{min}, {max})"
  | url (.unsupportedScheme scheme) =>
    (UrlDefect.unsupportedScheme scheme).text ++ " (only ws:// is supported)"
  | url d => d.text

namespace Error

/-- The cause in words. -/
def text : Error → String
  | malformed m => m.text
  | violation v => v.text
  | refused r => r.text
  | breakdown b => b.text
  | url d => d.text
  | config d => d.text
  | dial target cause => target ++ ": " ++ cause.kind.heading ++ ": " ++ cause.text
  | reportsEnded total target => s!"report stream ended at {total} of {target} requests"
  | admissionClosed => "admission closed"
  | sessionPanicked => "session panicked"
  | reported _ text => text

def message (e : Error) : String := e.kind.heading ++ ": " ++ e.text

def described (e : Error) : String := e.kind.name ++ "(" ++ Text.quoted e.text ++ ")"

def isConnection (e : Error) : Bool := e.kind == .connection || e.kind == .handshake

/-- The error of a dial: whatever went wrong, the connection failed. -/
def ofDial (url : String) (e : Error) : Error := if e.kind = .connection then e else dial url e

def ofFault (f : StreamFault) : Error := breakdown (.fault f)

theorem kind_ofDial (url : String) (e : Error) : (ofDial url e).kind = .connection := by
  unfold ofDial
  split
  · assumption
  · rfl

end Error

end EchoLoad
