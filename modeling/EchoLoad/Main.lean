import EchoLoad.CommandLine.Bench
import EchoLoad.CommandLine.Smoke

/-!
# The programs

`main` is the load generator and `smoke` the smoke test. They gather random numbers, print what the
library answers, and give back its exit code. No network is attached to them.
-/

namespace EchoLoad

open CommandLine

/-- More moves than any run makes. -/
def moveLimit : Nat := 0x10000000000000000

/-- The largest random number that is drawn. -/
def maxRandom : Nat := 0xFFFFFFFFFFFFFFFF

/-- A sequence of numbers that begins at a random one. -/
def sequenceFrom (start step n : Nat) : Nat := (start + n * step) % (maxRandom + 1)

def randomSeeds : IO Seeds := do
  let key ← IO.getRandomBytes 16
  let mask ← IO.rand 0 0xFFFFFFFF
  pure { key := Handshake.keyOf key.data.toList, mask := mask.toUInt32 }

def randomWorld : IO Bench.World := do
  let seeds ← randomSeeds
  let count ← IO.rand 0 maxRandom
  let size ← IO.rand 0 maxRandom
  pure
    { network := .unreachable
      seeds := fun _ => seeds
      randomCount := sequenceFrom count 0x9E3779B97F4A7C15
      randomSize := sequenceFrom size 0xBF58476D1CE4E5B9
      elapsed := ⟨0, 0⟩ }

def printLines (lines : List String) : IO Unit := lines.forM fun line => IO.println line

def smoke (args : List String) : IO UInt32 := do
  let answer := Smoke.answer .unreachable (← randomSeeds) args
  match answer with
  | .usage => (usage Smoke.switches).forM fun line => IO.eprintln line
  | .help => printLines (usage Smoke.switches)
  | shown => printLines (Smoke.output shown)
  pure (Smoke.exitCode answer).toUInt32

end EchoLoad

open EchoLoad EchoLoad.CommandLine

def main (args : List String) : IO UInt32 := do
  let answer := Bench.answer (← randomWorld) args moveLimit
  match answer with
  | .usage => (usage Bench.switches).forM fun line => IO.eprintln line
  | .help => printLines (usage Bench.switches)
  | .version line => IO.println line
  | .ran events error => printLines (Bench.log events error)
  pure (Bench.exitCode answer).toUInt32
