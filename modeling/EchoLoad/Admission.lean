/-!
# Admission

The ceiling of a run: at most `concurrency` tokens are held at once. Tokens are numbered from 0 in
the order in which they are handed out; the number is the slot of the session.
-/

namespace EchoLoad

structure Admission where
  concurrency : Nat
  /-- How many tokens can be handed out now. -/
  free : Nat
  /-- The slots of the tokens that are held. -/
  held : List Nat
  /-- The slot of the next token. -/
  next : Nat
  /-- Whether tokens are handed out at all. -/
  isOpen : Bool := true
  deriving DecidableEq, Repr

namespace Admission

/-- The most tokens that can be managed. -/
def maxPermits : Nat := 2305843009213693951

/-- No token is held yet. There is no such ceiling above the limit. -/
def ofConcurrency? (concurrency : Nat) : Option Admission :=
  if concurrency ≤ maxPermits then
    some { concurrency, free := concurrency, held := [], next := 0 }
  else none

/-- Hands out a token, unless all are held or none are handed out any more. -/
def acquire? (a : Admission) : Option (Nat × Admission) :=
  if a.free = 0 ∨ a.isOpen = false then none
  else some (a.next, { a with free := a.free - 1, held := a.next :: a.held, next := a.next + 1 })

def release (a : Admission) (slot : Nat) : Admission :=
  if slot ∈ a.held then { a with free := a.free + 1, held := a.held.erase slot } else a

def inUse (a : Admission) : Nat := a.concurrency - a.free

/-- How many tokens have ever been handed out. -/
def admitted (a : Admission) : Nat := a.next

end Admission

end EchoLoad
