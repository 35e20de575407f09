import EchoLoad.CommandLine.Options
import EchoLoad.Dial
import EchoLoad.Log
import EchoLoad.Text.Replacement

/-!
# The smoke test's command line

Dials a server, sends a greeting and shows the reply, sends a ping and shows what comes next, and
closes.
-/

namespace EchoLoad.CommandLine.Smoke

def switches : List Switch :=
  [{ long := "url", kind := .text }, { long := "origin", kind := .text }]

def defaultUrl : String := "ws://localhost:9899/ws"

def defaultOrigin : String := "http://localhost:9899/"

def versionLine : String := "ws-smoke 0.1.0"

def greeting : Bytes := Utf8.encode "\"hello, world!\"\n".toList

def pingPayload : Bytes := [0x31]

def readBuffer : Nat := 512

def received (bytes : Bytes) : String :=
  "Received: " ++ String.ofList (Utf8.decodeWithReplacement bytes) ++ "."

/-- The line for what comes after the ping; nothing may come in time. -/
def afterPing : Outcome Bytes → String
  | .value bytes => received bytes
  | .error e => Log.entry .warn "no reply after ping" [("error", e.message)]
  | .waiting | .panicked => Log.entry .warn "no data message within 2s of ping" []

/-- The dialog on an open connection: the lines shown, the error, and the connection as it is
left. -/
def dialog (c : Connection) : List String × Option Error × Connection :=
  match c.write greeting with
  | (.error e, c) => ([], some e, c)
  | (_, c) => match c.read readBuffer with
    | (.error e, c) => ([], some e, c)
    | (.waiting, c) | (.panicked, c) => ([], none, c)
    | (.value bytes, c) =>
      let first := received bytes
      match c.ping pingPayload with
      | (.error e, c) => ([first], some e, c)
      | (_, c) =>
        let (reply, c) := c.read readBuffer
        let sent := Log.entry .info "ping sent" [("bytes", toString pingPayload.length)]
        let lines := [first, sent, afterPing reply]
        match c.close with
        | (.error e, c) => (lines, some e, c)
        | (_, c) => (lines, none, c)

inductive Answer where
  | usage
  | help
  | version (line : String)
  | ran (lines : List String) (error : Option Error)
  deriving DecidableEq, Repr

def answer (net : Network) (seeds : Seeds) (args : List String) : Answer :=
  match read switches args [] with
  | .mistake => .usage
  | .help => .help
  | .version => .version versionLine
  | .settings s =>
    let url := (s.text? "url").getD defaultUrl
    let origin := (s.text? "origin").getD defaultOrigin
    match dial net seeds .text url origin with
    | .error e => .ran [] (some e)
    | .waiting | .panicked => .ran [] none
    | .value c =>
      let (lines, error, _) := dialog c
      .ran lines error

def exitCode : Answer → Nat
  | .usage => 2
  | .help | .version _ | .ran _ none => 0
  | .ran _ (some _) => 1

/-- What is printed, each text with a line end. -/
def output : Answer → List String
  | .usage | .help => []
  | .version line => [line]
  | .ran lines error => lines ++ (error.map Log.ofError).toList

end EchoLoad.CommandLine.Smoke
