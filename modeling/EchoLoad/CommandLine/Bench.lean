import EchoLoad.CommandLine.Options
import EchoLoad.Dial
import EchoLoad.Log
import EchoLoad.Run.Play

/-!
# The load generator's command line

From arguments to a configuration, and from there to a run on a network.
-/

namespace EchoLoad.CommandLine.Bench

def switches : List Switch :=
  [ { long := "concurrency", short := some 'c', kind := .number },
    { long := "total", short := some 'n', kind := .number },
    { long := "message-size", short := some 'm', kind := .number },
    { long := "min-size", kind := .number },
    { long := "max-size", kind := .number },
    { long := "min-requests", kind := .number },
    { long := "max-requests", kind := .number },
    { long := "requests", kind := .number },
    { long := "url", kind := .text },
    { long := "origin", kind := .text },
    { long := "release-after-report", kind := .flag },
    { long := "binary", kind := .flag } ]

/-- A fixed amount if one is given, else the range between the bounds. -/
def amount (s : Settings) (fixed min max : String) (defaultMin defaultMax : Nat) : Amount :=
  match s.number? fixed with
  | some n => .fixed n
  | none => .uniform ((s.number? min).getD defaultMin) ((s.number? max).getD defaultMax)

def config (s : Settings) : Config :=
  let base : Config := {}
  { base with
    concurrency := (s.number? "concurrency").getD base.concurrency
    targetTotal := (s.number? "total").getD base.targetTotal
    url := (s.text? "url").getD base.url
    origin := (s.text? "origin").getD base.origin
    count := amount s "requests" "min-requests" "max-requests" 2000 12000
    size := amount s "message-size" "min-size" "max-size" 20 40
    releaseOrder := if s.has "release-after-report" then .afterReport else .beforeReport }

def opcode (s : Settings) : Opcode := if s.has "binary" then .binary else .text

/-- What the program depends on but does not decide. -/
structure World where
  network : Network
  seeds : Nat → Seeds
  randomCount : Nat → Nat
  randomSize : Nat → Nat
  elapsed : Elapsed

def setting (world : World) (s : Settings) : Run.Setting Connection :=
  let config := config s
  { config
    transport := world.network.transport world.seeds (opcode s)
    workload := config.workload world.randomCount world.randomSize
    elapsed := world.elapsed }

inductive Answer where
  | usage
  | help
  | version (line : String)
  /-- The events of a run in their order, and the error that it ended with. -/
  | ran (events : List Event) (error : Option Error)
  deriving DecidableEq, Repr

def versionLine : String := "wsbench 0.1.0"

def play (world : World) (s : Settings) (moves : Nat) : Answer :=
  match Run.begin (setting world s) with
  | .error e => .ran [] (some e)
  | .waiting | .panicked => .ran [] (some .sessionPanicked)
  | .value r =>
    let (r, _) := Run.play (setting world s) moves r 0
    let error := match r.verdict with
      | some (.error e) => some e
      | _ => none
    .ran r.pool.shared.trace.events.reverse error

def answer (world : World) (args : List String) (moves : Nat) : Answer :=
  match read switches args [] with
  | .mistake => .usage
  | .help => .help
  | .version => .version versionLine
  | .settings s => play world s moves

def isShown (e : Event) : Bool := e.level ≠ .debug

/-- The log of a run: its events, and last the error. -/
def log (events : List Event) (error : Option Error) : List String :=
  (events.filter isShown).map Log.ofEvent ++ (error.map Log.ofError).toList

def exitCode : Answer → Nat
  | .usage => 2
  | .help | .version _ | .ran _ none => 0
  | .ran _ (some _) => 1

end EchoLoad.CommandLine.Bench
