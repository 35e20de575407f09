import EchoLoad.Proofs.Frame.RoundTrip

/-!
# Messages as a conforming peer sends them

A peer may cut a message into fragments, the first one a data frame and the others continuations,
and may send pings and pongs of its own before every fragment. `Dispatch` holds one message with all
these choices; `Dispatch.frames` is what the peer sends, `Dispatch.bytes` the message that it means,
and `Dispatch.pongs` the answers it is owed.
-/

namespace EchoLoad

/-- A control frame that the peer sends between fragments. -/
inductive Interlude where
  | ping (payload : Bytes)
  | pong (payload : Bytes)
  deriving DecidableEq, Repr

namespace Interlude

def frame : Interlude → Frame
  | ping payload => .whole .ping payload
  | pong payload => .whole .pong payload

/-- The answer that is owed. -/
def pongs : Interlude → List Frame
  | ping payload => [.whole .pong payload]
  | pong _ => []

end Interlude

structure Fragment where
  /-- What is sent before the fragment. -/
  interludes : List Interlude := []
  payload : Bytes
  deriving DecidableEq, Repr

namespace Fragment

/-- The data frame of a fragment. -/
def frame (g : Fragment) (fin : Bool) (opcode : Opcode) : Frame :=
  { fin, opcode, masked := false, payload := g.payload }

def frames (g : Fragment) (fin : Bool) (opcode : Opcode) : List Frame :=
  g.interludes.map Interlude.frame ++ [g.frame fin opcode]

def pongs (g : Fragment) : List Frame := g.interludes.flatMap Interlude.pongs

/-- No frame has a payload that is too long for its kind. -/
structure Conforms (g : Fragment) : Prop where
  payload : g.payload.length ≤ Frame.maxPayload
  interlude : ∀ i ∈ g.interludes, i.frame.payload.length ≤ Frame.maxControlPayload

instance (g : Fragment) : Decidable g.Conforms :=
  decidable_of_decidable_of_iff
    (p := g.payload.length ≤ Frame.maxPayload ∧
      ∀ i ∈ g.interludes, i.frame.payload.length ≤ Frame.maxControlPayload)
    ⟨fun h => ⟨h.1, h.2⟩, fun h => ⟨h.payload, h.interlude⟩⟩

/-- The frames of the fragments after the first one, the last of them marked as the last. -/
def continuations : List Fragment → List Frame
  | [] => []
  | g :: rest => g.frames rest.isEmpty .continuation ++ continuations rest

end Fragment

/-- A message with the choices of the peer about it. -/
structure Dispatch where
  isBinary : Bool
  first : Fragment
  more : List Fragment := []
  deriving DecidableEq, Repr

namespace Dispatch

def opcode (m : Dispatch) : Opcode := if m.isBinary then .binary else .text

def fragments (m : Dispatch) : List Fragment := m.first :: m.more

def frames (m : Dispatch) : List Frame :=
  m.first.frames m.more.isEmpty m.opcode ++ Fragment.continuations m.more

/-- The message itself. -/
def bytes (m : Dispatch) : Bytes := m.fragments.flatMap Fragment.payload

def pongs (m : Dispatch) : List Frame := m.fragments.flatMap Fragment.pongs

/-- The bytes on the stream; a peer does not mask. -/
def wire (m : Dispatch) : Bytes := m.frames.flatMap fun f => f.encode none

/-- Frames of a size that is allowed, and a message within the limit of the receiver. -/
structure Conforms (limit : Nat) (m : Dispatch) : Prop where
  fragment : ∀ g ∈ m.fragments, g.Conforms
  size : m.bytes.length ≤ limit

instance (limit : Nat) (m : Dispatch) : Decidable (m.Conforms limit) :=
  decidable_of_decidable_of_iff
    (p := (∀ g ∈ m.fragments, g.Conforms) ∧ m.bytes.length ≤ limit)
    ⟨fun h => ⟨h.1, h.2⟩, fun h => ⟨h.fragment, h.size⟩⟩

theorem opcode_not_control (m : Dispatch) : m.opcode.isControl = false := by
  unfold opcode
  cases m.isBinary <;> rfl

end Dispatch

theorem Interlude.legal_frame {i : Interlude}
    (h : i.frame.payload.length ≤ Frame.maxControlPayload) : i.frame.Legal := by
  have hle : Frame.maxControlPayload ≤ Frame.maxPayload := by decide
  cases i with
  | ping payload => exact ⟨Nat.le_trans h hle, fun _ => ⟨rfl, h⟩⟩
  | pong payload => exact ⟨Nat.le_trans h hle, fun _ => ⟨rfl, h⟩⟩

theorem Fragment.Conforms.legal_frame {g : Fragment} (h : g.Conforms) (fin : Bool)
    {opcode : Opcode} (ho : opcode.isControl = false) : (g.frame fin opcode).Legal :=
  ⟨h.payload, fun hc => absurd (ho.symm.trans hc) (by decide)⟩

end EchoLoad
