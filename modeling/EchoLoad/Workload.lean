import EchoLoad.Config

/-!
# Workloads

A workload decides the shape of the sessions: how many round trips each one makes and how large each
message is. All sessions of a run draw from the same two sequences.
-/

namespace EchoLoad

structure Workload where
  /-- The round trips of the session that draws at this position, from 0. -/
  count : Nat → Nat
  /-- The size of the message that is drawn at this position, from 0. -/
  size : Nat → Nat
  maxSize : Nat
  /-- The size of all messages, if it does not vary. -/
  fixedSize : Option Nat

namespace Workload

def minReadBuffer : Nat := 128

/-- The longest buffer that can be set up. -/
def maxBuffer : Nat := 9223372036854775807

/-- The length of the buffer that the replies are read into. -/
def readBuffer (w : Workload) : Nat := max w.maxSize minReadBuffer

/-- Draws from two amounts by two sequences of random numbers. -/
def ofAmounts (count size : Amount) (randomCount randomSize : Nat → Nat) : Workload :=
  { count := fun i => count.draw (randomCount i)
    size := fun i => size.draw (randomSize i)
    maxSize := size.largest
    fixedSize := size.fixed? }

def constant (count size : Nat) : Workload :=
  { count := fun _ => count, size := fun _ => size, maxSize := size, fixedSize := some size }

/-- Sizes in turn, and again from the first one; the largest may be given. -/
def cycling (count : Nat) (sizes : List Nat) (maxSize : Option Nat) : Workload :=
  { count := fun _ => count
    size := fun i => sizes.getD (i % sizes.length) 0
    maxSize := maxSize.getD (sizes.foldl max 0)
    fixedSize := none }

end Workload

def Config.workload (c : Config) (randomCount randomSize : Nat → Nat) : Workload :=
  .ofAmounts c.count c.size randomCount randomSize

end EchoLoad
