import EchoLoad.Admission

/-!
# The channel of reports

Sessions report their counts over a channel with a fixed number of places. A session that finds no
place waits its turn; a place that is freed is kept for the session that has waited longest.
-/

namespace EchoLoad

/-- What a session reports when it is done. -/
structure Report where
  slot : Nat
  /-- How many round trips it has completed. -/
  completed : Nat
  deriving DecidableEq, Repr

structure Channel where
  capacity : Nat
  /-- Reports that have not been received, oldest first. -/
  queue : List Report := []
  /-- Slots of the sessions that wait for a place, the longest wait first. -/
  waiting : List Nat := []
  /-- Slots of the sessions for which a place is kept. -/
  reserved : List Nat := []
  isOpen : Bool := true
  /-- How many can still send. -/
  senders : Nat := 1
  deriving DecidableEq, Repr

namespace Channel

/-- A channel with so many places, at least one and no more than there can be tokens. -/
def ofCapacity? (capacity : Nat) : Option Channel :=
  if 0 < capacity ∧ capacity ≤ Admission.maxPermits then some { capacity } else none

inductive Sending where
  | sent
  | dropped
  /-- There is no place yet. -/
  | blocked
  deriving DecidableEq, Repr

/-- The number of places that are neither taken nor kept. -/
def room (c : Channel) : Nat := c.capacity - c.queue.length - c.reserved.length

/-- Sends a report, or queues up for a place. -/
def send (c : Channel) (report : Report) : Sending × Channel :=
  if !c.isOpen then (.dropped, c)
  else if c.room > 0 then (.sent, { c with queue := c.queue ++ [report] })
  else (.blocked, { c with waiting := c.waiting ++ [report.slot] })

/-- Sends the report of a session that has queued up. -/
def resume (c : Channel) (report : Report) : Sending × Channel :=
  if !c.isOpen then (.dropped, c)
  else if report.slot ∈ c.reserved then
    (.sent, { c with
      queue := c.queue ++ [report], reserved := c.reserved.erase report.slot })
  else (.blocked, c)

/-- Keeps a place that has become free for the first in the queue. -/
def passOn (c : Channel) : Channel :=
  match c.waiting with
  | [] => c
  | slot :: rest => { c with waiting := rest, reserved := c.reserved ++ [slot] }

/-- Takes the oldest report. -/
def receive? (c : Channel) : Option (Report × Channel) :=
  match c.queue with
  | [] => none
  | report :: rest => some (report, passOn { c with queue := rest })

/-- A session gives up its turn, and the place that may be kept for it. -/
def abandon (c : Channel) (slot : Nat) : Channel :=
  if slot ∈ c.reserved then passOn { c with reserved := c.reserved.erase slot }
  else { c with waiting := c.waiting.erase slot }

/-- Ends the receiving, and loses the reports that have not been received. -/
def drop (c : Channel) : Channel := { c with isOpen := false, queue := [] }

end Channel

end EchoLoad
