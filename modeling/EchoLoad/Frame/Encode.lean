import EchoLoad.Frame.Basic

/-!
# The wire form of a frame

`Frame.encode` writes the shortest form of the length: in the second byte up to 125, in two further
bytes up to 65535, else in eight. `length_encode` gives its size. `Frame.writeTo` writes it into a
buffer that others use as well: `writeTo_eq` says that it only appends.
-/

namespace EchoLoad

/-- Masks the bytes of a buffer from position `start` on, where they stand. -/
def MaskKey.applyFrom (k : MaskKey) (start : Nat) (buffer : Bytes) : Bytes :=
  buffer.take start ++ k.apply (buffer.drop start)

theorem MaskKey.applyFrom_append (k : MaskKey) (front back : Bytes) :
    k.applyFrom front.length (front ++ back) = front ++ k.apply back := by
  rw [applyFrom, List.take_left, List.drop_left]

namespace Frame

/-- The seven length bits of the second byte. -/
def lengthCode (n : Nat) : UInt8 :=
  if n ≤ 125 then UInt8.ofNat n else if n ≤ 65535 then 126 else 127

/-- The bytes that carry a length too large for the second byte. -/
def extendedLength (n : Nat) : Bytes :=
  if n ≤ 125 then [] else if n ≤ 65535 then BigEndian.ofNat 2 n else BigEndian.ofNat 8 n

/-- The first byte: the final flag above the opcode. -/
def leadByte (f : Frame) : UInt8 := if f.fin then 0x80 ||| f.opcode.code else f.opcode.code

/-- The payload as it is sent: the key and the hidden bytes, or the bytes in the clear. -/
def body (f : Frame) : Option MaskKey → Bytes
  | none => f.payload
  | some key => key.toList ++ key.apply f.payload

/-- The wire form of `f`, masked if a key is given. -/
def encode (f : Frame) (key : Option MaskKey) : Bytes :=
  let n := f.payload.length
  let maskBit : UInt8 := if key.isSome then 0x80 else 0
  f.leadByte :: (maskBit ||| lengthCode n) :: (extendedLength n ++ f.body key)

/-- Writes `f` behind what stands in a buffer. The payload goes there in the clear and is masked
afterwards. -/
def writeTo (f : Frame) (buffer : Bytes) (key : Option MaskKey) : Bytes :=
  let n := f.payload.length
  let maskBit : UInt8 := if key.isSome then 0x80 else 0
  let buffer := buffer ++ [f.leadByte]
  let buffer := buffer ++ [maskBit ||| lengthCode n]
  let buffer := buffer ++ extendedLength n
  match key with
  | none => buffer ++ f.payload
  | some key =>
    let buffer := buffer ++ key.toList
    key.applyFrom buffer.length (buffer ++ f.payload)

/-- The number of bytes of the wire form. -/
def wireSize (f : Frame) (masked : Bool) : Nat :=
  let n := f.payload.length
  let extended := if n ≤ 125 then 0 else if n ≤ 65535 then 2 else 8
  2 + extended + (if masked then 4 else 0) + n

theorem length_extendedLength (n : Nat) :
    (extendedLength n).length = if n ≤ 125 then 0 else if n ≤ 65535 then 2 else 8 := by
  unfold extendedLength
  split
  · rfl
  · split <;> simp

theorem length_encode (f : Frame) (key : Option MaskKey) :
    (f.encode key).length = f.wireSize key.isSome := by
  cases key <;> simp [encode, wireSize, body, length_extendedLength] <;> omega

/-- What stands in the buffer is left alone, and the wire form comes behind it. -/
theorem writeTo_eq (f : Frame) (buffer : Bytes) (key : Option MaskKey) :
    f.writeTo buffer key = buffer ++ f.encode key := by
  cases key with
  | none => simp [writeTo, encode, body]
  | some k =>
    simp only [writeTo, MaskKey.applyFrom_append]
    simp [encode, body]

end Frame

end EchoLoad
