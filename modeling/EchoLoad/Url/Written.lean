import EchoLoad.Url.Host

/-!
# URLs in writing

The parts of an absolute URL as they are written in its text, so that `Written.text` only joins
them, and what is known of the URL from them (`Written.url`).
-/

namespace EchoLoad.Url

/-- What stands between the two slashes and the path. -/
structure Authority where
  username : String
  password : String
  host : Option Host
  /-- The port, unless it is the default one of the scheme. -/
  port : Option Nat
  deriving DecidableEq, Repr

/-- The user name and the password with an at sign, if there is one of them. -/
def Authority.userinfo (a : Authority) : String :=
  if a.username.isEmpty && a.password.isEmpty then ""
  else if a.password.isEmpty then a.username ++ "@"
  else a.username ++ ":" ++ a.password ++ "@"

/-- The host with the port, if that is not the default one. -/
def Authority.hostport (a : Authority) : String :=
  let host := (a.host.map Host.text).getD ""
  match a.port with
  | none => host
  | some port => s!"{host}:{port}"

/-- The port that a scheme implies. -/
def defaultPort? (scheme : String) : Option Nat :=
  if scheme = "http" ∨ scheme = "ws" then some 80
  else if scheme = "https" ∨ scheme = "wss" then some 443
  else if scheme = "ftp" then some 21
  else none

/-- The special schemes have a host; a file URL has one only now and then. -/
def isSpecial (scheme : String) : Bool := (defaultPort? scheme).isSome || scheme == "file"

structure Written where
  /-- In lower case. -/
  scheme : String
  authority : Option Authority
  path : String
  query : Option String
  fragment : Option String
  deriving DecidableEq, Repr

namespace Written

/-- The whole URL. A path that begins with two slashes is kept apart from an authority by `/.`. -/
def text (w : Written) : String :=
  let start := match w.authority with
    | some a => w.scheme ++ "://" ++ a.userinfo ++ a.hostport
    | none =>
      if ['/', '/'].isPrefixOf w.path.toList then w.scheme ++ ":/." else w.scheme ++ ":"
  let fragment := match w.fragment with
    | none => ""
    | some fragment => "#" ++ fragment
  start ++ pathAndQuery w.path w.query ++ fragment

def host? (w : Written) : Option Host := w.authority.bind Authority.host

def port? (w : Written) : Option Nat := w.authority.bind Authority.port

def url (w : Written) : Url :=
  { scheme := w.scheme
    username := (w.authority.map Authority.username).getD ""
    password := (w.authority.map Authority.password).filter (!·.isEmpty)
    host? := w.host?
    hostText? := w.host?.map Host.text
    port? := w.port?
    effectivePort? := w.port? <|> defaultPort? w.scheme
    path := w.path
    query := w.query
    fragment := w.fragment
    text := w.text }

end Written

end EchoLoad.Url
