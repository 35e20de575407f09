import EchoLoad.Session.Trips

/-!
# Rehearsals

A transport that follows a script instead of a network: each connection echoes the length of what
was written to it, but for the deviations and failures in its script.
-/

namespace EchoLoad

/-- How a rehearsed connection behaves. Calls are counted from 1. -/
structure Script where
  /-- A read brings this much less than was written. -/
  shortBy : Nat := 0
  /-- Only every read with a number divisible by this is short. -/
  shortEvery : Nat := 1
  /-- A read brings this much more. -/
  extra : Nat := 0
  /-- A write takes this much less than it is given. -/
  writeShort : Nat := 0
  failWriteAt : Option Nat := none
  failReadAt : Option Nat := none
  /-- The kind of the errors of writes, reads and closes. -/
  kind : Error.Kind := .transport
  closeError : Option String := none
  dialError : Option String := none
  dialKind : Error.Kind := .connection
  /-- Whether each read lets other sessions go first. -/
  yields : Bool := false
  panicAt : Option Nat := none
  deriving DecidableEq, Repr

structure Rehearsal where
  script : Script
  writes : Nat := 0
  reads : Nat := 0
  lastWritten : Nat := 0
  deriving DecidableEq, Repr

namespace Rehearsal

def write (r : Rehearsal) (message : Bytes) : Outcome Nat × Rehearsal :=
  let n := r.writes + 1
  let r := { r with writes := n }
  if r.script.panicAt = some n then (.panicked, r)
  else if r.script.failWriteAt = some n then
    (.error (.reported r.script.kind s!"fail_write_at {n}"), r)
  else
    (.value (message.length - r.script.writeShort), { r with lastWritten := message.length })

def read (r : Rehearsal) (room : Nat) : Outcome Nat × Rehearsal :=
  let n := r.reads + 1
  let r := { r with reads := n }
  if r.script.failReadAt = some n then
    (.error (.reported r.script.kind s!"fail_read_at {n}"), r)
  else
    let short := if n % r.script.shortEvery = 0 then r.script.shortBy else 0
    (.value (min (r.lastWritten - short + r.script.extra) room), r)

def close (r : Rehearsal) : Outcome Unit × Rehearsal :=
  match r.script.closeError with
  | none => (.value (), r)
  | some text => (.error (.reported r.script.kind text), r)

def dial (script : Script) : Outcome Rehearsal :=
  match script.dialError with
  | none => .value { script }
  | some text => .error (.reported script.dialKind text)

/-- The dials follow the scripts in turn, and the last one again and again. -/
def transport (scripts : List Script) : Transport Rehearsal :=
  { dial := fun n _ _ => dial ((scripts[n]?.or scripts.getLast?).getD {})
    write := write
    yields := fun r => r.script.yields
    read := read
    close := close }

end Rehearsal

end EchoLoad
