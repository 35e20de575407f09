import EchoLoad.Frame.Basic

/-!
# Reading a frame off the front of a buffer

`Frame.parse` gives the frame and the number of bytes it takes, nothing while the buffer holds no
complete frame, or the first fault of the header. `consumed_of_parse` bounds the number of bytes:
at least two, and no more than the buffer holds.
-/

namespace EchoLoad.Frame

/-- Why a header cannot begin a frame. -/
inductive Malformed where
  | reservedBits
  | reservedOpcode (code : UInt8)
  | oversized (length : Nat)
  | fragmentedControl
  | longControl (length : Nat)
  deriving DecidableEq, Repr

def Malformed.text : Malformed → String
  | reservedBits => "reserved bits set"
  | reservedOpcode code => "reserved opcode 0x" ++ String.ofList (Nat.toDigits 16 code.toNat)
  | oversized length => s!"payload of {length} bytes exceeds {maxPayload}"
  | fragmentedControl => "fragmented control frame"
  | longControl length => s!"control frame payload of {length} bytes"

/-- How many bytes after the second one carry the length, by its seven length bits. -/
def extendedWidth (code : UInt8) : Nat :=
  if code = 126 then 2 else if code = 127 then 8 else 0

/-- The announced length: the seven bits themselves, or the number in the `extended` bytes. -/
def announcedLength (code : UInt8) (extended : Bytes) : Nat :=
  if extendedWidth code = 0 then code.toNat else BigEndian.toNat extended

/-- The first rule that a complete header breaks. -/
def checkHeader (fin : Bool) (opcode : Opcode) (length : Nat) : Except Malformed Unit :=
  if length > maxPayload then .error (.oversized length)
  else if opcode.isControl then
    if !fin then .error .fragmentedControl
    else if length > maxControlPayload then .error (.longControl length)
    else .ok ()
  else .ok ()

/-- The payload at the front of `rest`, and how many bytes it takes with its key; nothing while
bytes are missing. -/
def parseBody (masked : Bool) (length : Nat) (rest : Bytes) : Option (Bytes × Nat) :=
  if masked then
    match rest with
    | a :: b :: c :: d :: hidden =>
      let data := hidden.take length
      if data.length < length then none
      else some (MaskKey.apply ⟨a, b, c, d⟩ data, 4 + length)
    | _ => none
  else
    let data := rest.take length
    if data.length < length then none else some (data, length)

/-- The frame at the front of `buf` and the number of bytes it takes. -/
def parse (buf : Bytes) : Except Malformed (Option (Frame × Nat)) :=
  match buf with
  | byte0 :: byte1 :: rest =>
    if byte0 &&& 0x70 ≠ 0 then .error .reservedBits
    else match Opcode.ofCode? (byte0 &&& 0x0F) with
      | none => .error (.reservedOpcode (byte0 &&& 0x0F))
      | some opcode =>
        let fin : Bool := byte0 &&& 0x80 ≠ 0
        let masked : Bool := byte1 &&& 0x80 ≠ 0
        let code := byte1 &&& 0x7F
        let width := extendedWidth code
        let extended := rest.take width
        if extended.length < width then .ok none
        else
          let length := announcedLength code extended
          match checkHeader fin opcode length with
          | .error m => .error m
          | .ok () =>
            match parseBody masked length (rest.drop width) with
            | none => .ok none
            | some (payload, taken) =>
              .ok (some ({ fin, opcode, masked, payload }, 2 + width + taken))
  | _ => .ok none

theorem taken_of_parseBody {masked : Bool} {length : Nat} {rest payload : Bytes} {taken : Nat}
    (h : parseBody masked length rest = some (payload, taken)) : taken ≤ rest.length := by
  unfold parseBody at h
  split at h
  · split at h
    · simp only [List.length_take] at h
      split at h
      · cases h
      · cases h
        simp only [List.length_cons]
        omega
    · cases h
  · simp only [List.length_take] at h
    split at h
    · cases h
    · cases h
      omega

/-- A frame takes at least its two leading bytes, and only bytes that are there. -/
theorem consumed_of_parse {buf : Bytes} {f : Frame} {n : Nat}
    (h : parse buf = .ok (some (f, n))) : 2 ≤ n ∧ n ≤ buf.length := by
  unfold parse at h
  split at h
  · next byte0 byte1 rest =>
    split at h
    · cases h
    · split at h
      · cases h
      · dsimp only at h
        split at h
        · cases h
        · next hw =>
          split at h
          · cases h
          · split at h
            · cases h
            · next payload taken hb =>
              cases h
              have ht := taken_of_parseBody hb
              simp only [List.length_take, List.length_drop, List.length_cons] at hw ht ⊢
              omega
  · cases h

end EchoLoad.Frame
