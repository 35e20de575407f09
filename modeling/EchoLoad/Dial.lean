import EchoLoad.Connection.Receive
import EchoLoad.Connection.Upgrade
import EchoLoad.Session.Trips

/-!
# Dialing

`dial` connects to the host of a URL and runs the opening handshake. Whatever goes wrong on the way,
its error is of the kind `connection`; `kind_of_dial_error`. What the URL is read with is a
parameter.
-/

namespace EchoLoad

/-- What there is to connect to. -/
structure Network where
  connect : Url.Host → (port : Nat) → Except StreamFault (Source × Sink)
  /-- The room that reads of the head of an answer find beyond `readLimit`. -/
  spare : Nat := 0

/-- What a connection attempt meets without a route to the host. -/
def StreamFault.noRoute : StreamFault :=
  { kind := .networkUnreachable, message := some "Network is unreachable (os error 101)" }

/-- What a connection attempt meets when nobody can be asked for the address of a name. -/
def StreamFault.noAddress : StreamFault :=
  { kind := .other
    message := some
      "failed to lookup address information: Temporary failure in name resolution" }

/-- A network on which nothing can be reached, and on which only `localhost` has an address. -/
def Network.unreachable : Network :=
  { connect := fun host _ => match host with
      | .domain name => .error (if name = "localhost" then .noRoute else .noAddress)
      | .ipv4 _ | .ipv6 _ => .error .noRoute }

/-- A URL that can be dialed, with the host and the port to connect to. -/
structure Destination where
  url : Url
  host : Url.Host
  port : Nat
  deriving DecidableEq, Repr

def Destination.ofText (read : Url.Reader) (url : String) : Except UrlDefect Destination :=
  match read url with
  | .error reason => .error (.unreadable reason)
  | .ok u =>
    if u.scheme ≠ "ws" then .error (.unsupportedScheme u.scheme)
    else match u.host? with
      | none => .error (.missingHost u.text)
      | some host => .ok { url := u, host, port := u.effectivePort?.getD 80 }

structure Seeds where
  key : String
  /-- Where the mask keys start from. -/
  mask : UInt32
  deriving DecidableEq, Repr

/-- Connects and upgrades, with the errors as they arise. -/
def connect (net : Network) (seeds : Seeds) (opcode : Opcode) (url origin : String)
    (read : Url.Reader := Url.parse) : Outcome Connection :=
  match Destination.ofText read url with
  | .error d => .error (.url d)
  | .ok d => match net.connect d.host d.port with
    | .error f => .error (.ofFault f)
    | .ok (source, sink) =>
      (Connection.upgrade source sink d.url origin seeds.key opcode seeds.mask net.spare).1

def dial (net : Network) (seeds : Seeds) (opcode : Opcode) (url origin : String)
    (read : Url.Reader := Url.parse) : Outcome Connection :=
  match connect net seeds opcode url origin read with
  | .error e => .error (.ofDial url e)
  | other => other

theorem kind_of_dial_error {net : Network} {seeds : Seeds} {opcode : Opcode}
    {url origin : String} {read : Url.Reader} {e : Error}
    (h : dial net seeds opcode url origin read = .error e) : e.kind = .connection := by
  unfold dial at h
  split at h
  · cases h
    exact Error.kind_ofDial _ _
  · next hne => exact absurd h (by simpa using hne e)

def Network.transport (net : Network) (seeds : Nat → Seeds) (opcode : Opcode)
    (read : Url.Reader := Url.parse) : Transport Connection :=
  { dial := fun n url origin => EchoLoad.dial net (seeds n) opcode url origin read
    write := Connection.write
    yields := fun _ => false
    read := fun c room =>
      let (outcome, c) := c.read room
      (outcome.map List.length, c)
    close := Connection.close }

end EchoLoad
