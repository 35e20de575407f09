/-!
# Command-line options

A switch has a long name and perhaps a short one, and takes no value, a number or a text. The
arguments are read from the left: the first mistake, or the first request for help or for the
version, decides.

A value follows its switch as `--name=value`, `--name value`, `-nvalue`, `-n=value` or `-n value`. A
following argument that begins with a dash is a switch, unless it is the dash alone. Nothing may
occur twice, and there are no arguments that are not switches.
-/

namespace EchoLoad.CommandLine

inductive Kind where
  | flag
  /-- A number below 2^64. -/
  | number
  | text
  deriving DecidableEq, Repr

structure Switch where
  long : String
  short : Option Char := none
  kind : Kind
  deriving DecidableEq, Repr

def Switch.usage (w : Switch) : String :=
  let short := match w.short with
    | some c => "-" ++ c.toString ++ ", "
    | none => "    "
  let value := match w.kind with
    | .flag => ""
    | .number => " <number>"
    | .text => " <text>"
  "  " ++ short ++ "--" ++ w.long ++ value

def usage (switches : List Switch) : List String := "Options:" :: switches.map Switch.usage

/-- What has been given to a switch. -/
inductive Setting where
  | given
  | number (n : Nat)
  | text (s : String)
  deriving DecidableEq, Repr

abbrev Settings := List (String × Setting)

namespace Settings

def has (s : Settings) (long : String) : Bool := s.any fun p => p.1 == long

def number? (s : Settings) (long : String) : Option Nat :=
  match s.lookup long with
  | some (.number n) => some n
  | _ => none

def text? (s : Settings) (long : String) : Option String :=
  match s.lookup long with
  | some (.text t) => some t
  | _ => none

end Settings

inductive Reading where
  | settings (s : Settings)
  | help
  | version
  | mistake
  deriving DecidableEq, Repr

/-- A number: digits with an optional plus sign, below 2^64. -/
def number? (s : String) : Option Nat :=
  let digits := match s.toList with
    | '+' :: rest => rest
    | all => all
  if digits.isEmpty || !digits.all Char.isDigit then none
  else
    let n := digits.foldl (fun n c => n * 10 + (c.toNat - 0x30)) 0
    if n < 0x10000000000000000 then some n else none

/-- Adds a switch with its value; a switch that is there already is a mistake. -/
def add? (switch : Switch) (value : String) (s : Settings) : Option Settings :=
  if s.has switch.long then none
  else match switch.kind with
    | .flag => some ((switch.long, .given) :: s)
    | .number => (number? value).map fun n => (switch.long, .number n) :: s
    | .text => some ((switch.long, .text value) :: s)

/-- Whether an argument can be the value of the switch before it. -/
def isValue (arg : String) : Bool :=
  match arg.toList with
  | '-' :: _ :: _ => false
  | _ => true

inductive Argument where
  | terminator
  | long (name : String) (value : Option String)
  | cluster (letters : List Char)
  | plain
  deriving DecidableEq, Repr

/-- A long switch is cut at the first equals sign. -/
def Argument.ofText (arg : String) : Argument :=
  match arg.toList with
  | ['-', '-'] => .terminator
  | '-' :: '-' :: rest =>
    match rest.span (· ≠ '=') with
    | (name, '=' :: value) => .long (String.ofList name) (some (String.ofList value))
    | (name, _) => .long (String.ofList name) none
  | '-' :: c :: rest => .cluster (c :: rest)
  | _ => .plain

inductive Step where
  | go (s : Settings)
  /-- The switch wants the next argument as its value. -/
  | awaits (switch : Switch) (s : Settings)
  | done (r : Reading)
  deriving DecidableEq, Repr

def Step.adding (switch : Switch) (value : String) (s : Settings) : Step :=
  match add? switch value s with
  | some s => .go s
  | none => .done .mistake

def readLong (switches : List Switch) (name : String) (value : Option String) (s : Settings) :
    Step :=
  if name = "help" then .done (if value.isSome then .mistake else .help)
  else if name = "version" then .done (if value.isSome then .mistake else .version)
  else match switches.find? fun w => w.long == name, value with
    | none, _ => .done .mistake
    | some w, some v =>
      if w.kind = .flag then .done .mistake else .adding w v s
    | some w, none => if w.kind = .flag then .adding w "" s else .awaits w s

/-- Reads short switches written together; the first one with a value takes the rest. -/
def readCluster (switches : List Switch) : List Char → Settings → Step
  | [], s => .go s
  | c :: rest, s =>
    if c = 'h' then .done .help
    else if c = 'V' then .done .version
    else match switches.find? fun w => w.short == some c with
      | none => .done .mistake
      | some w =>
        if w.kind = .flag then
          match add? w "" s with
          | none => .done .mistake
          | some s => readCluster switches rest s
        else match rest with
          | [] => .awaits w s
          | '=' :: value => .adding w (String.ofList value) s
          | value => .adding w (String.ofList value) s

def readArgument (switches : List Switch) (arg : String) (s : Settings) : Step :=
  match Argument.ofText arg with
  | .long name value => readLong switches name value s
  | .cluster letters => readCluster switches letters s
  | .terminator | .plain => .done .mistake

def read (switches : List Switch) (args : List String) (s : Settings) : Reading :=
  match args with
  | [] => .settings s
  | arg :: rest =>
    if arg = "--" then (if rest.isEmpty then .settings s else .mistake)
    else match readArgument switches arg s with
      | .done r => r
      | .go s => read switches rest s
      | .awaits w s => match rest with
        | [] => .mistake
        | value :: rest =>
          if isValue value then
            match add? w value s with
            | some s => read switches rest s
            | none => .mistake
          else .mistake
termination_by args.length

end EchoLoad.CommandLine
