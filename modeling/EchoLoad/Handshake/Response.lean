import EchoLoad.Handshake.AcceptKey
import EchoLoad.Text.Blank
import EchoLoad.Text.Lower
import EchoLoad.Text.Split

/-!
# The answer to the upgrade request

`headEnd?` finds the end of the headers, `readAccept` takes the accept key out of a head that agrees
to the upgrade, and `verify` compares it with the key that was sent. A header that occurs several
times has the value of its last line.
-/

namespace EchoLoad.Handshake

inductive Refusal where
  | notUtf8
  | empty
  | status (line : String)
  | missingUpgrade
  | wrongUpgrade (value : String)
  | missingConnection
  | wrongConnection (value : String)
  | missingAccept
  | wrongAccept
  | headTooLong
  | closedEarly
  deriving DecidableEq, Repr

/-- The limit that the head of the answer may reach while its end is still awaited. -/
def maxHead : Nat := 8192

def Refusal.text : Refusal → String
  | notUtf8 => "Invalid UTF-8"
  | empty => "Empty response"
  | status line => s!"Expected 101 status, got: {line}"
  | missingUpgrade => "Missing Upgrade header in response"
  | wrongUpgrade value => s!"Invalid Upgrade header: {value}"
  | missingConnection => "Missing Connection header in response"
  | wrongConnection value => s!"Invalid Connection header: {value}"
  | missingAccept => "Missing Sec-WebSocket-Accept header"
  | wrongAccept => "Invalid Sec-WebSocket-Accept"
  | headTooLong => s!"response headers exceed {maxHead} bytes"
  | closedEarly => "connection closed during handshake"

def headMark : Bytes := [13, 10, 13, 10]

/-- The position just past the first blank line. -/
def headEnd? : Bytes → Option Nat
  | [] => none
  | b :: bs => if headMark.isPrefixOf (b :: bs) then some 4 else (headEnd? bs).map (· + 1)

/-- A header: its name trimmed and in lower case, and its trimmed value. -/
abbrev Header := List Char × List Char

def header? (line : List Char) : Option Header :=
  (Text.splitOnce? (· == ':') line).map fun (name, value) =>
    (Text.lower (Text.trim name), Text.trim value)

/-- The headers of the lines before the first empty one; lines without a colon are passed over. -/
def headers (lines : List (List Char)) : List Header :=
  (lines.takeWhile fun line => !line.isEmpty).filterMap header?

/-- The value of the last header of this name. -/
def lookup? (name : String) (headers : List Header) : Option (List Char) :=
  (headers.reverse.find? fun h => h.1 == name.toList).map Prod.snd

/-- The second word of the status line. -/
def statusOf (line : List Char) : List Char := (Text.words line).getD 1 []

/-- The accept key of the headers, if they agree to the upgrade. -/
def acceptOf (headers : List Header) : Except Refusal String :=
  match lookup? "upgrade" headers with
  | none => .error .missingUpgrade
  | some upgrade =>
    if !Text.eqIgnoreCase upgrade "websocket".toList then
      .error (.wrongUpgrade (String.ofList upgrade))
    else match lookup? "connection" headers with
      | none => .error .missingConnection
      | some connection =>
        if !Text.contains "upgrade".toList (Text.lower connection) then
          .error (.wrongConnection (String.ofList connection))
        else match lookup? "sec-websocket-accept" headers with
          | none => .error .missingAccept
          | some accept => .ok (String.ofList accept)

/-- The accept key of an answer that agrees to the upgrade. -/
def readAccept (data : Bytes) : Except Refusal String :=
  match Utf8.decode? data with
  | none => .error .notUtf8
  | some text => match Text.lines text with
    | [] => .error .empty
    | line :: rest =>
      if statusOf line = "101".toList then acceptOf (headers rest)
      else .error (.status (String.ofList line))

def verify (accept key : String) : Except Refusal Unit :=
  if accept = acceptKey key then .ok () else .error .wrongAccept

end EchoLoad.Handshake
