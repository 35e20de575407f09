import EchoLoad.Text.Split
import EchoLoad.Url.Percent

/-!
# Paths

A path is a list of segments. `.` is left out and `..` takes back the segment before it, but never
a drive letter; both leave an empty segment behind at the end of the path.

A file path knows drives: a drive letter at its front gets a colon, and the URL then has no host.
Tabs and line ends count for nothing in a path, with one exception: where they stand right behind
the colon of a drive letter at the front of a file path, the segment ends there. Other paths know no
exception (`Trail.add_of_not_file`).
-/

namespace EchoLoad.Url

/-- Tab, line feed and carriage return. -/
def isBreak (c : Char) : Bool := c == '\t' || c == '\n' || c == '\r'

/-- The text without its tabs and line ends. -/
def withoutBreaks (cs : List Char) : List Char := cs.filter fun c => !isBreak c

namespace Path

/-- `.`, also with an escaped dot. -/
def isDot (segment : List Char) : Bool :=
  [".", "%2e"].contains (String.ofList (segment.map Char.toLower))

def isDoubleDot (segment : List Char) : Bool :=
  ["..", ".%2e", "%2e.", "%2e%2e"].contains (String.ofList (segment.map Char.toLower))

def isDriveLetter : List Char → Bool
  | [letter, mark] => letter.isAlpha && (mark == ':' || mark == '|')
  | _ => false

/-- A drive letter, also one with a backslash and more behind it. -/
def isDrive (segment : List Char) : Bool :=
  isDriveLetter (segment.take 2) && (segment.drop 2).head?.all (· == '\\')

/-- Takes back the newest segment, unless it is a drive. -/
def shorten : List (List Char) → List (List Char)
  | [] => []
  | segment :: older => if isDrive segment then segment :: older else older

/-- A drive letter with a colon, and the text that a tab or line end keeps apart from it. -/
def brokenDrive? (written : List Char) : Option (List Char × List Char) :=
  match written.dropWhile isBreak with
  | letter :: rest =>
    match rest.dropWhile isBreak with
    | ':' :: gap :: more =>
      let apart := withoutBreaks more
      if letter.isAlpha && isBreak gap && !apart.isEmpty then some ([letter, ':'], apart) else none
    | _ => none
  | [] => none

structure Trail where
  /-- Newest first. -/
  segments : List (List Char)
  /-- Whether a drive letter was found at the front of a file path. -/
  onDrive : Bool
  deriving DecidableEq, Repr

namespace Trail

def start : Trail := { segments := [], onDrive := false }

/-- Adds a segment without tabs and line ends in it. -/
def push (file final : Bool) (t : Trail) (segment : List Char) : Trail :=
  if isDoubleDot segment then
    { t with segments := if final then [] :: shorten t.segments else shorten t.segments }
  else if isDot segment then
    { t with segments := if final then [] :: t.segments else t.segments }
  else if file && t.segments.isEmpty && isDriveLetter segment then
    { segments := [segment.take 1 ++ [':']], onDrive := true }
  else { t with segments := segment :: t.segments }

/-- Adds a segment as it is written. -/
def add (file final : Bool) (t : Trail) (written : List Char) : Trail :=
  match if file && t.segments.isEmpty then brokenDrive? written else none with
  | some (drive, apart) => { t with segments := [percentEncode EncodeSet.path apart, drive] }
  | none => push file final t (percentEncode EncodeSet.path (withoutBreaks written))

def addAll (file : Bool) (t : Trail) : List (List Char) → Trail
  | [] => t
  | [written] => add file true t written
  | written :: rest => addAll file (add file false t written) rest

/-- The path written by `cs`, its first slash left out. -/
def ofText (special file : Bool) (cs : List Char) : Trail :=
  addAll file start (Text.splitOn (fun c => c == '/' || (special && c == '\\')) cs)

/-- A slash before each segment. A file path has no empty segment at its front unless it has no
other. -/
def text (file : Bool) (t : Trail) : String :=
  let kept := t.segments.reverse
  let shown := if file then
      match kept.dropWhile List.isEmpty with
      | [] => [[]]
      | rest => rest
    else kept
  String.ofList (shown.flatMap ('/' :: ·))

theorem add_of_not_file (final : Bool) (t : Trail) (written : List Char) :
    add false final t written =
      push false final t (percentEncode EncodeSet.path (withoutBreaks written)) := rfl

end Trail

end Path

end EchoLoad.Url
