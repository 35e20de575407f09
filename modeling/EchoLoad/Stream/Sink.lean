import EchoLoad.Bytes
import EchoLoad.Stream.Fault

/-!
# What a stream takes

The writing half of a byte stream, given by its answer to every call: how many of the offered bytes
the n-th write takes, and whether the n-th flush and shutdown fail. `writeAll` offers the rest again
until all is taken.
-/

namespace EchoLoad

structure Sink where
  /-- How many of the offered bytes the call with this number, from 1, takes. -/
  accept : Nat → Nat → Except StreamFault Nat
  flushFault : Nat → Option StreamFault
  shutdownFault : Nat → Option StreamFault
  writes : Nat := 0
  flushes : Nat := 0
  shutdowns : Nat := 0
  /-- The bytes that each write took, newest first. -/
  pieces : List Bytes := []
  isShut : Bool := false

namespace Sink

def willing : Sink :=
  { accept := fun _ offered => .ok offered
    flushFault := fun _ => none
    shutdownFault := fun _ => none }

/-- All bytes taken so far. -/
def taken (s : Sink) : Bytes := s.pieces.reverse.flatten

/-- Writes until every byte is taken. A call that takes no byte is a fault. -/
def writeAll (s : Sink) (bytes : Bytes) : Option StreamFault × Sink :=
  match bytes with
  | [] => (none, s)
  | b :: bs =>
    let s := { s with writes := s.writes + 1 }
    match s.accept s.writes (bs.length + 1) with
    | .error f => (some f, s)
    | .ok 0 => (some { kind := .writeZero }, s)
    | .ok (n + 1) =>
      writeAll { s with pieces := (b :: bs.take n) :: s.pieces } (bs.drop n)
termination_by bytes.length
decreasing_by simp only [List.length_drop, List.length_cons]; omega

def flush (s : Sink) : Option StreamFault × Sink :=
  let s := { s with flushes := s.flushes + 1 }
  (s.flushFault s.flushes, s)

def shutdown (s : Sink) : Option StreamFault × Sink :=
  let s := { s with shutdowns := s.shutdowns + 1 }
  match s.shutdownFault s.shutdowns with
  | some f => (some f, s)
  | none => (none, { s with isShut := true })

/-- Writes and flushes. -/
def send (s : Sink) (bytes : Bytes) : Option StreamFault × Sink :=
  match s.writeAll bytes with
  | (some f, s) => (some f, s)
  | (none, s) => s.flush

end Sink

end EchoLoad
