import EchoLoad.Error

/-!
# Outcomes of calls

A call on a connection gives a value or an error, or it is given up while it still waits for data,
or the code behind it panics.
-/

namespace EchoLoad

inductive Outcome (α : Type) where
  | value (a : α)
  | error (e : Error)
  | waiting
  | panicked
  deriving DecidableEq, Repr

namespace Outcome

def map {α β : Type} (f : α → β) : Outcome α → Outcome β
  | value a => value (f a)
  | error e => error e
  | waiting => waiting
  | panicked => panicked

/-- The outcome of a call that can only fail on its stream. -/
def ofFault {α : Type} (a : α) : Option StreamFault → Outcome α
  | none => value a
  | some f => error (.ofFault f)

end Outcome

end EchoLoad
