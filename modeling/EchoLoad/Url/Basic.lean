/-!
# URLs

A URL is known by its parts and by its text. How a text is read is left open: a `Url.Reader` gives
the URL, or says in words why there is none. Whatever deals with the text of a URL takes the reader
as a parameter, and `Url.parse` is the reader that runs.
-/

namespace EchoLoad

inductive Url.Host where
  | domain (name : String)
  | ipv4 (address : Nat)
  | ipv6 (groups : List Nat)
  deriving DecidableEq, Repr

structure Url where
  scheme : String
  username : String
  password : Option String
  /-- What to connect to. -/
  host? : Option Url.Host
  /-- The host in writing, with brackets around an IPv6 address. -/
  hostText? : Option String
  /-- The port, unless it is the default one of the scheme. -/
  port? : Option Nat
  /-- The port, or else the default one, if the scheme has one. -/
  effectivePort? : Option Nat
  path : String
  query : Option String
  fragment : Option String
  /-- The whole URL in writing. -/
  text : String
  deriving DecidableEq, Repr

namespace Url

def pathAndQuery (path : String) : Option String → String
  | none => path
  | some query => path ++ "?" ++ query

def target (u : Url) : String := pathAndQuery u.path u.query

/-- Reads the text of a URL. -/
abbrev Reader := String → Except String Url

end Url

end EchoLoad
