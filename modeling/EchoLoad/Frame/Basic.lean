import EchoLoad.Bytes

/-!
# Frames

The unit that travels on an open connection (RFC 6455, section 5): a final-fragment flag, an opcode
and a payload, which a client hides under a four-byte key.

* `Opcode.ofCode?_code`: the code of an opcode names it.
* `MaskKey.apply_apply`: the mask is its own inverse.
-/

namespace EchoLoad

inductive Opcode where
  | continuation
  | text
  | binary
  | close
  | ping
  | pong
  deriving DecidableEq, Repr

namespace Opcode

def code : Opcode → UInt8
  | continuation => 0x0
  | text => 0x1
  | binary => 0x2
  | close => 0x8
  | ping => 0x9
  | pong => 0xA

/-- The opcode with this code; the other codes are reserved. -/
def ofCode? (code : UInt8) : Option Opcode :=
  if code = 0x0 then some continuation
  else if code = 0x1 then some text
  else if code = 0x2 then some binary
  else if code = 0x8 then some close
  else if code = 0x9 then some ping
  else if code = 0xA then some pong
  else none

/-- Close, ping and pong manage the connection, the others carry messages. -/
def isControl (op : Opcode) : Bool := op.code &&& 0x8 ≠ 0

/-- The English name, capitalised, as connection reports write it. -/
def name : Opcode → String
  | continuation => "Continuation"
  | text => "Text"
  | binary => "Binary"
  | close => "Close"
  | ping => "Ping"
  | pong => "Pong"

@[simp] theorem ofCode?_code (op : Opcode) : ofCode? op.code = some op := by
  cases op <;> rfl

theorem code_of_ofCode? {c : UInt8} {op : Opcode} (h : ofCode? c = some op) : op.code = c := by
  unfold ofCode? at h
  repeat' split at h
  all_goals first
    | (cases h; subst_vars; rfl)
    | cases h

end Opcode

/-- The four bytes that hide a payload. -/
structure MaskKey where
  byte0 : UInt8
  byte1 : UInt8
  byte2 : UInt8
  byte3 : UInt8
  deriving DecidableEq, Repr

namespace MaskKey

def toList (k : MaskKey) : Bytes := [k.byte0, k.byte1, k.byte2, k.byte3]

def ofList? : Bytes → Option MaskKey
  | [a, b, c, d] => some ⟨a, b, c, d⟩
  | _ => none

/-- The four bytes of a word, least significant first. -/
def ofWord (w : UInt32) : MaskKey :=
  ⟨w.toUInt8, (w >>> 8).toUInt8, (w >>> 16).toUInt8, (w >>> 24).toUInt8⟩

/-- The byte that hides position `i`: the key repeats. -/
def byte (k : MaskKey) (i : Nat) : UInt8 :=
  match i % 4 with
  | 0 => k.byte0
  | 1 => k.byte1
  | 2 => k.byte2
  | _ => k.byte3

/-- Each byte is combined with the key byte of its position by exclusive or. -/
def apply (k : MaskKey) (data : Bytes) : Bytes := data.mapIdx fun i b => b ^^^ k.byte i

@[simp] theorem length_toList (k : MaskKey) : k.toList.length = 4 := rfl

@[simp] theorem ofList?_toList (k : MaskKey) : ofList? k.toList = some k := rfl

@[simp] theorem length_apply (k : MaskKey) (data : Bytes) :
    (k.apply data).length = data.length := by
  simp [apply]

theorem getElem?_apply (k : MaskKey) (data : Bytes) (i : Nat) :
    (k.apply data)[i]? = data[i]?.map (· ^^^ k.byte i) := by
  simp [apply]

@[simp] theorem apply_apply (k : MaskKey) (data : Bytes) : k.apply (k.apply data) = data := by
  apply List.ext_getElem?
  intro i
  rw [getElem?_apply, getElem?_apply, Option.map_map]
  cases data[i]? with
  | none => rfl
  | some b =>
    simp only [Option.map_some, Function.comp_apply, UInt8.xor_assoc, UInt8.xor_self,
      UInt8.xor_zero]

end MaskKey

structure Frame where
  /-- Set on the last fragment of a message. -/
  fin : Bool
  opcode : Opcode
  /-- Whether the frame arrived masked. For a frame to be sent, the key is chosen on writing. -/
  masked : Bool
  /-- The payload in the clear. -/
  payload : Bytes
  deriving DecidableEq, Repr

namespace Frame

def maxControlPayload : Nat := 125

/-- Longest payload accepted from the peer. -/
def maxPayload : Nat := 16 * 1024 * 1024

/-- A frame that is a whole message. -/
def whole (opcode : Opcode) (payload : Bytes) : Frame :=
  { fin := true, opcode, masked := false, payload }

def closing (code : UInt16) : Frame := whole .close (BigEndian.ofNat 2 code.toNat)

/-- The status code of a close frame, if it carries one. -/
def closeCode (f : Frame) : Option UInt16 :=
  match f.opcode, f.payload with
  | .close, hi :: lo :: _ => some (UInt16.ofNat (BigEndian.toNat [hi, lo]))
  | _, _ => none

end Frame

end EchoLoad
