import EchoLoad.Text.Split
import EchoLoad.Url.Path
import EchoLoad.Url.Written

/-!
# Reading URLs

`Url.parse` is the reader that runs. It reads an absolute URL by the WHATWG URL standard, but for
international domain names: blanks around the text are dropped, tabs and line ends count for
nothing, and the scheme decides how the rest is read. A special scheme takes any number of slashes
and backslashes before the authority. A file URL keeps its tabs and line ends up to its path, where
they can set a drive letter apart.
-/

namespace EchoLoad.Url

/-- The text without control characters and spaces at its ends. -/
def trim (cs : List Char) : List Char :=
  let isBlank : Char → Bool := (· ≤ ' ')
  ((cs.dropWhile isBlank).reverse.dropWhile isBlank).reverse

def isSchemeChar (c : Char) : Bool := c.isAlphanum || c == '+' || c == '-' || c == '.'

/-- The scheme in lower case and the text after its colon. -/
def splitScheme? (cs : List Char) : Option (String × List Char) :=
  match cs.span isSchemeChar with
  | (letter :: more, ':' :: rest) =>
    if letter.isAlpha then some (String.ofList ((letter :: more).map Char.toLower), rest) else none
  | _ => none

def endsAuthority (special : Bool) (c : Char) : Bool :=
  c == '/' || c == '?' || c == '#' || (special && c == '\\')

/-- The text before the last at sign, if there is one, and the text after it. -/
def splitUserinfo (cs : List Char) : Option (List Char) × List Char :=
  match Text.splitOnce? (· == '@') cs.reverse with
  | none => (none, cs)
  | some (after, before) => (some before.reverse, after.reverse)

/-- User name and password, cut at the first colon. -/
def credentials (cs : List Char) : String × String :=
  let encoded (part : List Char) := String.ofList (percentEncode EncodeSet.userinfo part)
  match Text.splitOnce? (· == ':') cs with
  | none => (encoded cs, "")
  | some (name, password) => (encoded name, encoded password)

/-- How many characters belong to the host: it ends before a colon outside brackets. -/
def hostLength (inBrackets : Bool) : List Char → Nat
  | [] => 0
  | c :: cs =>
    if c == ':' && !inBrackets then 0
    else hostLength (c == '[' || (inBrackets && c != ']')) cs + 1

/-- The port after a colon: digits up to a slash or backslash, and the text that follows. -/
def parsePort (scheme : String) (cs : List Char) :
    Except ParseError (Option Nat × List Char) :=
  let (digits, rest) := cs.span fun c => !(c == '/' || c == '\\' || c == '?' || c == '#')
  match numberIn? 10 digits with
  | none => .error .invalidPort
  | some n =>
    if n > 65535 then .error .invalidPort
    else if digits.isEmpty || defaultPort? scheme == some n then .ok (none, rest)
    else .ok (some n, rest)

def parseHost (special : Bool) (cs : List Char) : Except ParseError (Option Host) :=
  if special then
    if cs.isEmpty then .error .emptyHost else (Host.parseSpecial cs).map some
  else Host.parseGeneral cs

/-- The authority at the front of `cs` and the text that follows. -/
def parseAuthority (scheme : String) (cs : List Char) :
    Except ParseError (Authority × List Char) := do
  let special := isSpecial scheme
  let (here, beyond) := cs.span fun c => !endsAuthority special c
  let (userinfo, hostport) := splitUserinfo here
  if userinfo == some [] && hostport.isEmpty && !beyond.isEmpty then throw .emptyHost
  let (username, password) := credentials (userinfo.getD [])
  let n := hostLength false hostport
  let host ← parseHost special (hostport.take n)
  let (port, rest) ← match hostport.drop n with
    | [] => pure (none, beyond)
    | _ :: digits =>
      if host.isNone then throw .emptyHost
      parsePort scheme (digits ++ beyond)
  if host.isNone && !(username.isEmpty && password.isEmpty) then throw .emptyHost
  pure ({ username, password, host, port }, rest)

/-- The path that follows an authority, up to the query, in a URL that is no file URL. -/
def parsePath (scheme : String) (cs : List Char) : String :=
  let special := isSpecial scheme
  let written := match cs with
    | [] => if special then some [] else none
    | '/' :: rest => some rest
    | '\\' :: rest => if special then some rest else some cs
    | _ => some cs
  match written with
  | none => ""
  | some cs => (Path.Trail.ofText special false cs).text false

/-- The text before the query, the query and the fragment. -/
def splitTail (cs : List Char) : List Char × Option (List Char) × Option (List Char) :=
  let (before, fragment) := match Text.splitOnce? (· == '#') cs with
    | none => (cs, none)
    | some (before, fragment) => (before, some fragment)
  match Text.splitOnce? (· == '?') before with
  | none => (before, none, fragment)
  | some (front, query) => (front, some query, fragment)

/-- The URL with this path and the query and fragment as written. -/
def assemble (scheme : String) (authority : Option Authority) (path : String)
    (query fragment : Option (List Char)) : Written :=
  let querySet := if isSpecial scheme then EncodeSet.specialQuery else EncodeSet.query
  { scheme, authority, path
    query := query.map fun q => String.ofList (percentEncode querySet q)
    fragment := fragment.map fun f => String.ofList (percentEncode EncodeSet.fragment f) }

def parseAfterSlashes (scheme : String) (cs : List Char) : Except ParseError Written := do
  let (authority, rest) ← parseAuthority scheme cs
  let (path, query, fragment) := splitTail rest
  pure (assemble scheme (some authority) (parsePath scheme path) query fragment)

/-- The text after a slash or backslash at the front of `cs`; tabs and line ends may stand before
it. -/
def afterSlash? (cs : List Char) : Option (List Char) :=
  match cs.dropWhile isBreak with
  | '/' :: rest => some rest
  | '\\' :: rest => some rest
  | _ => none

/-- A host at the front of `cs` and the path that follows it as written. The path is empty or begins
with a slash, which counts as its first segment where there is no host. `localhost` and a drive
letter are no hosts. -/
def parseFileHost (cs : List Char) : Except ParseError (Option Host × List Char) := do
  let (name, path) := cs.span fun c => c != '/' && c != '\\'
  let name := withoutBreaks name
  if name.isEmpty || Path.isDriveLetter name then pure (none, cs)
  else
    let host ← Host.parseSpecial name
    pure (if host = .domain "localhost" then (none, path) else (some host, path.drop 1))

/-- A file URL, with its tabs and line ends: two slashes may bring a host, which a drive letter at
the front of the path takes away. -/
def parseFile (cs : List Char) : Except ParseError Written := do
  let (before, query, fragment) := splitTail cs
  let (host, path) ← match afterSlash? before with
    | none => pure (none, before)
    | some rest =>
      match afterSlash? rest with
      | none => pure (none, rest)
      | some rest => parseFileHost rest
  let trail := Path.Trail.ofText true true path
  let host := if trail.onDrive then none else host
  pure (assemble "file" (some { username := "", password := "", host, port := none })
    (trail.text true) (query.map withoutBreaks) (fragment.map withoutBreaks))

def parseGeneral (scheme : String) (cs : List Char) : Except ParseError Written :=
  match cs with
  | '/' :: '/' :: rest => parseAfterSlashes scheme rest
  | _ =>
    let (before, query, fragment) := splitTail cs
    let path := match before with
      | '/' :: _ => parsePath scheme before
      | _ => String.ofList (percentEncode EncodeSet.controls before)
    .ok (assemble scheme none path query fragment)

/-- The absolute URL written by `s`. The scheme is read through tabs and line ends. -/
def parseWritten (s : String) : Except ParseError Written :=
  let cs := trim s.toList
  match splitScheme? (withoutBreaks cs) with
  | none => .error .relativeWithoutBase
  | some (scheme, rest) =>
    if scheme = "file" then parseFile ((cs.dropWhile (· != ':')).drop 1)
    else if isSpecial scheme then
      parseAfterSlashes scheme (rest.dropWhile fun c => c == '/' || c == '\\')
    else parseGeneral scheme rest

def parse : Reader := fun s =>
  match parseWritten s with
  | .error e => .error e.text
  | .ok w => .ok w.url

end EchoLoad.Url
