import EchoLoad.Session.Basic

/-!
# Pools of sessions

The sessions of a run, and what they share. A pool is driven from outside: sessions are admitted,
moved and aborted in any order, and reports are received.
-/

namespace EchoLoad

structure Pool (κ : Type) where
  shared : Shared
  /-- Every session ever started, in the order of starting, less those that were taken away. -/
  sessions : List (Session κ) := []

namespace Pool

/-- A pool without sessions, if its ceiling and its channel can be set up. -/
def empty? {κ : Type} (concurrency capacity : Nat) : Option (Pool κ) := do
  let channel ← Channel.ofCapacity? capacity
  let admission ← Admission.ofConcurrency? concurrency
  pure { shared := { admission, channel, trace := {} } }

def session? {κ : Type} (p : Pool κ) (slot : Nat) : Option (Session κ) :=
  p.sessions.find? fun s => s.slot == slot

/-- Puts a session in the place of the one in its slot. -/
def update {κ : Type} (p : Pool κ) (s : Session κ) (shared : Shared) : Pool κ :=
  { shared, sessions := p.sessions.map fun t => if t.slot = s.slot then s else t }

/-- Lets a session in, if a token is free. -/
def launch? {κ : Type} (p : Pool κ) : Option (Nat × Pool κ) :=
  (p.shared.admission.acquire?).map fun (slot, admission) =>
    let channel := { p.shared.channel with senders := p.shared.channel.senders + 1 }
    ( slot,
      { shared := { p.shared with admission, channel }
        sessions := p.sessions ++ [{ slot }] } )

def step? {κ : Type} (plan : Plan κ) (p : Pool κ) (slot : Nat) : Option (Pool κ) := do
  let s ← p.session? slot
  let (s, shared) ← s.step plan p.shared
  pure (p.update s shared)

/-- Lets a session act until it has to wait. -/
def poll {κ : Type} (plan : Plan κ) (p : Pool κ) (slot : Nat) : Pool κ :=
  match p.session? slot with
  | none => p
  | some s =>
    let (s, shared) := s.run plan p.shared
    p.update s shared

def abort {κ : Type} (p : Pool κ) (slot : Nat) : Pool κ :=
  match p.session? slot with
  | none => p
  | some s =>
    let (s, shared) := s.abort p.shared
    p.update s shared

def remove {κ : Type} (p : Pool κ) (slot : Nat) : Pool κ :=
  { p with sessions := p.sessions.filter fun s => s.slot != slot }

def receive? {κ : Type} (p : Pool κ) : Option (Report × Pool κ) :=
  (p.shared.channel.receive?).map fun (report, channel) =>
    (report, { p with shared := { p.shared with channel } })

def dropReceiver {κ : Type} (p : Pool κ) : Pool κ :=
  { p with shared := { p.shared with channel := p.shared.channel.drop } }

def openConnections {κ : Type} (p : Pool κ) : Nat :=
  p.sessions.countP fun s => s.phase.conn?.isSome

end Pool

end EchoLoad
