import EchoLoad.Text.Utf8
import EchoLoad.Url.Basic

/-!
# The upgrade request

The head of the HTTP request that opens a connection: a request line and six headers.
-/

namespace EchoLoad.Handshake

structure Request where
  /-- Path and query. -/
  target : String
  /-- Host, with the port unless it is the default one. -/
  host : String
  key : String
  origin : String
  deriving DecidableEq, Repr

namespace Request

/-- The host, with the port if one is kept. -/
def hostport (host : String) : Option Nat → String
  | none => host
  | some port => s!"{host}:{port}"

/-- The request for a URL, if that has a host. -/
def ofUrl? (url : Url) (origin key : String) : Option Request := do
  let host ← url.hostText?
  pure { target := url.target, host := hostport host url.port?, key, origin }

theorem ofUrl?_eq_some_iff {url : Url} {origin key : String} {r : Request} :
    ofUrl? url origin key = some r ↔ ∃ host, url.hostText? = some host ∧
      r = { target := url.target, host := hostport host url.port?, key, origin } := by
  unfold ofUrl?
  cases url.hostText? with
  | none => simp
  | some host => simp [eq_comm]

/-- The lines of the head, the empty one at its end left out. -/
def lines (r : Request) : List String :=
  [ "GET " ++ r.target ++ " HTTP/1.1",
    "Host: " ++ r.host,
    "Upgrade: websocket",
    "Connection: Upgrade",
    "Sec-WebSocket-Key: " ++ r.key,
    "Origin: " ++ r.origin,
    "Sec-WebSocket-Version: 13" ]

/-- The head: each line ends in CRLF, and so does the empty line after them. -/
def text (r : Request) : String := String.join (r.lines.map (· ++ "\r\n")) ++ "\r\n"

def toBytes (r : Request) : Bytes := Utf8.encode r.text.toList

end Request

end EchoLoad.Handshake
