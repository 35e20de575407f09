import EchoLoad.Event
import EchoLoad.Outcome
import EchoLoad.Workload

/-!
# Round trips

A round trip writes a message and reads the reply. A reply of another length than the message is
noted and does no harm; an error ends the session's work, and so does a buffer that is too long to
be set up.

`Trips.step` makes one call; `Trips.run` makes them all. Every step comes nearer to the end
(`Trips.remaining`).
-/

namespace EchoLoad

/-- How connections are made and used. `κ` is the state of one connection. -/
structure Transport (κ : Type) where
  /-- The dial with this number, from 0, to a URL and with an origin. -/
  dial : Nat → String → String → Outcome κ
  /-- Writes a message and tells how many bytes were taken. -/
  write : κ → Bytes → Outcome Nat × κ
  /-- Whether the next read lets other sessions go first. -/
  yields : κ → Bool
  /-- Reads into a buffer of this length and tells how many bytes came. -/
  read : κ → Nat → Outcome Nat × κ
  close : κ → Outcome Unit × κ

/-- What a session asks of the transport. -/
inductive Call where
  | dial (url origin : String)
  | write (message : Bytes)
  | read (room : Nat)
  | close
  deriving DecidableEq, Repr

/-- What the sessions have done so far. -/
structure Trace where
  /-- The calls with the slots of the sessions that made them, newest first. -/
  calls : List (Nat × Call) := []
  /-- Events, newest first. -/
  events : List Event := []
  dials : Nat := 0
  /-- How many counts have been drawn from the workload. -/
  countDraws : Nat := 0
  /-- How many message sizes have been drawn. -/
  sizeDraws : Nat := 0
  deriving DecidableEq, Repr

namespace Trace

def call (t : Trace) (slot : Nat) (c : Call) : Trace := { t with calls := (slot, c) :: t.calls }

def note (t : Trace) (e : Event) : Trace := { t with events := e :: t.events }

end Trace

/-- The byte that messages are made of. -/
def filler : UInt8 := 0x41

/-- What a session does next on its connection. -/
inductive Trips.Stage where
  | write
  /-- Read the reply to a message of which this many bytes were taken. -/
  | read (written : Nat)
  /-- The read is under way. -/
  | awaitReply (written : Nat)
  deriving DecidableEq, Repr

structure Trips (κ : Type) where
  conn : κ
  /-- The round trips after the one that is under way. -/
  left : Nat
  stage : Trips.Stage := .write

namespace Trips

inductive Progress (κ : Type) where
  | going (t : Trips κ)
  | finished (conn : κ)
  | failed (e : Error) (conn : κ)
  | panicked
  /-- The call has not returned yet. -/
  | stuck

/-- The reply to a message: notes a difference of the lengths and goes on. -/
def reply {κ : Type} (transport : Transport κ) (workload : Workload) (slot written left : Nat)
    (conn : κ) (trace : Trace) : Progress κ × Trace :=
  match transport.read conn workload.readBuffer with
  | (.value got, conn) =>
    let trace := if got = written then trace else trace.note (.sizeMismatch slot written got)
    (.going { conn, left }, trace)
  | (.error e, conn) => (.failed e conn, trace)
  | (.waiting, _) => (.stuck, trace)
  | (.panicked, _) => (.panicked, trace)

/-- Makes one call. Neither the buffer for the replies nor a message can be too long. -/
def step {κ : Type} (transport : Transport κ) (workload : Workload) (slot : Nat) (t : Trips κ)
    (trace : Trace) : Progress κ × Trace :=
  match t.stage with
  | .write =>
    if workload.readBuffer > Workload.maxBuffer then (.panicked, trace)
    else match t.left with
    | 0 => (.finished t.conn, trace)
    | left + 1 =>
      let size := workload.size trace.sizeDraws
      let trace := { trace with sizeDraws := trace.sizeDraws + 1 }
      if size > Workload.maxBuffer then (.panicked, trace)
      else
        let message := List.replicate size filler
        let trace := trace.call slot (.write message)
        match transport.write t.conn message with
        | (.value written, conn) => (.going { conn, left, stage := .read written }, trace)
        | (.error e, conn) => (.failed e conn, trace)
        | (.waiting, _) => (.stuck, trace)
        | (.panicked, _) => (.panicked, trace)
  | .read written =>
    let trace := trace.call slot (.read workload.readBuffer)
    if transport.yields t.conn then (.going { t with stage := .awaitReply written }, trace)
    else reply transport workload slot written t.left t.conn trace
  | .awaitReply written => reply transport workload slot written t.left t.conn trace

/-- A bound on the steps that are left. -/
def remaining {κ : Type} (t : Trips κ) : Nat :=
  match t.stage with
  | .write => 3 * t.left
  | .read _ => 3 * t.left + 2
  | .awaitReply _ => 3 * t.left + 1

theorem eq_of_reply_going {κ : Type} {transport : Transport κ} {workload : Workload}
    {slot written left : Nat} {conn : κ} {trace trace' : Trace} {t : Trips κ}
    (h : reply transport workload slot written left conn trace = (.going t, trace')) :
    t.left = left ∧ t.stage = .write := by
  unfold reply at h
  split at h
  · cases h
    exact ⟨rfl, rfl⟩
  all_goals cases h

theorem remaining_step {κ : Type} {transport : Transport κ} {workload : Workload} {slot : Nat}
    {t t' : Trips κ} {trace trace' : Trace}
    (h : step transport workload slot t trace = (.going t', trace')) :
    t'.remaining < t.remaining := by
  unfold step at h
  split at h
  · next hs =>
    split at h
    · cases h
    split at h
    · cases h
    next left hl =>
    dsimp only at h
    split at h
    · cases h
    split at h
    · cases h
      simp only [remaining, hs, hl]
      omega
    all_goals cases h
  · next written hs =>
    dsimp only at h
    split at h
    · cases h
      simp only [remaining, hs]
      omega
    · obtain ⟨hl, hw⟩ := eq_of_reply_going h
      simp only [remaining, hs, hl, hw]
      omega
  · next written hs =>
    obtain ⟨hl, hw⟩ := eq_of_reply_going h
    simp only [remaining, hs, hl, hw]
    omega

/-- Makes all calls, one after the other. -/
def run {κ : Type} (transport : Transport κ) (workload : Workload) (slot : Nat) (t : Trips κ)
    (trace : Trace) : Progress κ × Trace :=
  match _h : step transport workload slot t trace with
  | (.going t', trace') => run transport workload slot t' trace'
  | (.finished conn, trace') => (.finished conn, trace')
  | (.failed e conn, trace') => (.failed e conn, trace')
  | (.panicked, trace') => (.panicked, trace')
  | (.stuck, trace') => (.stuck, trace')
termination_by t.remaining
decreasing_by exact remaining_step _h

end Trips

/-- Makes `planned` round trips on a connection and tells their number. -/
def roundTrips {κ : Type} (transport : Transport κ) (workload : Workload) (slot planned : Nat)
    (conn : κ) (trace : Trace) : Outcome Nat × Trace :=
  match Trips.run transport workload slot { conn, left := planned } trace with
  | (.finished _, trace) => (.value planned, trace)
  | (.failed e _, trace) => (.error e, trace)
  | (.panicked, trace) => (.panicked, trace)
  | (.going _, trace) | (.stuck, trace) => (.waiting, trace)

end EchoLoad
