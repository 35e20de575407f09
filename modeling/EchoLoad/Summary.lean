import EchoLoad.Decimal.Places
import EchoLoad.Tally

/-!
# The summary of a run

Rates are doubles: the target divided by the elapsed seconds, and that times the message size in
mebibytes. They are shown with two places.
-/

namespace EchoLoad

/-- A span of time; there are fewer than 10^9 nanoseconds. -/
structure Elapsed where
  seconds : Nat
  nanoseconds : Nat
  deriving DecidableEq, Repr

namespace Elapsed

/-- The longest span in whole seconds. -/
def maxSeconds : Nat := 0xFFFFFFFFFFFFFFFF

/-- Carries whole seconds over, if the span is not too long. -/
def ofParts? (seconds nanoseconds : Nat) : Option Elapsed :=
  let whole := seconds + nanoseconds / 1000000000
  if whole ≤ maxSeconds then some { seconds := whole, nanoseconds := nanoseconds % 1000000000 }
  else none

def milliseconds (e : Elapsed) : Nat := e.seconds * 1000 + e.nanoseconds / 1000000

def toSeconds (e : Elapsed) : Float :=
  e.seconds.toUInt64.toFloat + e.nanoseconds.toUInt64.toFloat / 1000000000.0

end Elapsed

structure Summary where
  target : Nat
  completed : Nat
  elapsed : Elapsed
  messageSize : Option Nat
  deriving DecidableEq, Repr

namespace Summary

def ofTally (t : Tally) (elapsed : Elapsed) : Summary :=
  { target := t.target, completed := t.total, elapsed, messageSize := t.messageSize }

/-- Requests per second, zero if no time has passed. -/
def requestRate (s : Summary) : Float :=
  let seconds := s.elapsed.toSeconds
  if seconds > 0.0 then s.target.toUInt64.toFloat / seconds else 0.0

/-- Mebibytes per second, if all messages have one size. -/
def byteRate (s : Summary) : Option Float :=
  s.messageSize.map fun size => s.requestRate * size.toUInt64.toFloat / 1048576.0

def rateText (rate : Float) : String :=
  let (num, den) := Decimal.fraction rate
  Decimal.twoPlaces num den

def text (s : Summary) : String :=
  let bytes := match s.byteRate with
    | none => ""
    | some rate => ", " ++ rateText rate ++ " MB/s"
  s!"exit, total {s.target}, per seconds {rateText s.requestRate}" ++ bytes

end Summary

end EchoLoad
