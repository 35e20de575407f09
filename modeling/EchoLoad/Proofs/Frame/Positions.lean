import EchoLoad.Proofs.Frame.Extension

/-!
# Reading a frame by position

`Frame.parse` takes the bytes of a buffer one after the other and cannot miss any of them.
`Frame.parseAt` reads the same frame by position, in the order in which a header is decided, and fails
on every look at a position that the buffer does not have. `parseAt_eq`: it never fails, and it finds
what `Frame.parse` finds. So the tests of the length in it are made early enough.
-/

namespace EchoLoad.Frame

/-- The bytes from one position up to another, if the buffer has them all. -/
def slice? (buf : Bytes) (start stop : Nat) : Option Bytes :=
  if start ≤ stop ∧ stop ≤ buf.length then some ((buf.take stop).drop start) else none

/-- The announced length and the position behind it, once all bytes of the length are there. -/
def lengthAt (buf : Bytes) (code : UInt8) : Option (Option (Nat × Nat)) :=
  if code.toNat ≤ 125 then some (some (code.toNat, 2))
  else if code = 126 then
    if buf.length < 4 then some none
    else (slice? buf 2 4).map fun bytes => some (BigEndian.toNat bytes, 4)
  else
    if buf.length < 10 then some none
    else (slice? buf 2 10).map fun bytes => some (BigEndian.toNat bytes, 10)

/-- The key at a position. -/
def keyAt (buf : Bytes) (offset : Nat) : Option MaskKey := do
  let byte0 ← buf[offset]?
  let byte1 ← buf[offset + 1]?
  let byte2 ← buf[offset + 2]?
  let byte3 ← buf[offset + 3]?
  return { byte0, byte1, byte2, byte3 }

/-- The payload behind a header of `offset` bytes and the position behind it, once all its bytes are
there. -/
def bodyAt (buf : Bytes) (masked : Bool) (offset length : Nat) : Option (Option (Bytes × Nat)) :=
  if masked then
    if buf.length < offset + 4 then some none
    else do
      let key ← keyAt buf offset
      let stop := offset + 4 + length
      if buf.length < stop then return none
      let hidden ← slice? buf (offset + 4) stop
      return some (key.apply hidden, stop)
  else if buf.length < offset + length then some none
  else (slice? buf offset (offset + length)).map fun bytes => some (bytes, offset + length)

/-- The rest of a frame whose first byte says `fin` and `opcode`. -/
def frameAt (buf : Bytes) (fin : Bool) (opcode : Opcode) (byte1 : UInt8) :
    Option (Except Malformed (Option (Frame × Nat))) := do
  let masked : Bool := byte1 &&& 0x80 ≠ 0
  match ← lengthAt buf (byte1 &&& 0x7F) with
  | none => return .ok none
  | some (length, offset) =>
    match checkHeader fin opcode length with
    | .error m => return .error m
    | .ok () =>
      match ← bodyAt buf masked offset length with
      | none => return .ok none
      | some (payload, stop) => return .ok (some ({ fin, opcode, masked, payload }, stop))

/-- The frame at the front of a buffer, read by position; nothing at all if a position is looked at
that the buffer does not have. -/
def parseAt (buf : Bytes) : Option (Except Malformed (Option (Frame × Nat))) := do
  if buf.length < 2 then return .ok none
  let byte0 ← buf[0]?
  let byte1 ← buf[1]?
  if byte0 &&& 0x70 ≠ 0 then return .error .reservedBits
  match Opcode.ofCode? (byte0 &&& 0x0F) with
  | none => return .error (.reservedOpcode (byte0 &&& 0x0F))
  | some opcode => frameAt buf (byte0 &&& 0x80 ≠ 0) opcode byte1

theorem slice?_of_le {buf : Bytes} {start length : Nat} (h : start + length ≤ buf.length) :
    slice? buf start (start + length) = some ((buf.drop start).take length) := by
  rw [slice?, if_pos ⟨Nat.le_add_right _ _, h⟩, List.drop_take, Nat.add_sub_cancel_left]

/-- The seven length bits are the length itself, or they name the width of the bytes that carry it. -/
theorem lengthBits_cases (byte1 : UInt8) :
    let code := byte1 &&& 0x7F
    code.toNat ≤ 125 ∧ extendedWidth code = 0 ∨ code = 126 ∨ code = 127 := by
  intro code
  have hlt : code.toNat < 128 := by
    rw [UInt8.toNat_and]
    exact Nat.and_lt_two_pow _ (show (0x7F : UInt8).toNat < 2 ^ 7 by decide)
  by_cases h126 : code = 126
  · exact .inr (.inl h126)
  · by_cases h127 : code = 127
    · exact .inr (.inr h127)
    · have hne126 : code.toNat ≠ 126 := fun h => h126 (UInt8.toNat_inj.mp h)
      have hne127 : code.toNat ≠ 127 := fun h => h127 (UInt8.toNat_inj.mp h)
      refine .inl ⟨by omega, ?_⟩
      rw [extendedWidth, if_neg h126, if_neg h127]

theorem lengthAt_cons (byte0 byte1 : UInt8) (rest : Bytes) :
    let code := byte1 &&& 0x7F
    let width := extendedWidth code
    lengthAt (byte0 :: byte1 :: rest) code = some
      (if rest.length < width then none
      else some (announcedLength code (rest.take width), 2 + width)) := by
  intro code width
  rcases lengthBits_cases byte1 with ⟨hsmall, hwidth⟩ | hcode | hcode
  · have hwidth : width = 0 := hwidth
    rw [lengthAt, if_pos hsmall, hwidth, if_neg (Nat.not_lt_zero _), announcedLength, if_pos hwidth]
  · have hcode : code = 126 := hcode
    have hwidth : width = 2 := by simp only [width, hcode]; rfl
    rw [hwidth, hcode, lengthAt, if_neg (by decide), if_pos rfl]
    by_cases hshort : rest.length < 2
    · rw [if_pos hshort, if_pos (by simp only [List.length_cons]; omega)]
    · rw [if_neg hshort, if_neg (by simp only [List.length_cons]; omega)]
      rw [@slice?_of_le (byte0 :: byte1 :: rest) 2 2 (by simp only [List.length_cons]; omega)]
      rfl
  · have hcode : code = 127 := hcode
    have hwidth : width = 8 := by simp only [width, hcode]; rfl
    rw [hwidth, hcode, lengthAt, if_neg (by decide), if_neg (by decide)]
    by_cases hshort : rest.length < 8
    · rw [if_pos hshort, if_pos (by simp only [List.length_cons]; omega)]
    · rw [if_neg hshort, if_neg (by simp only [List.length_cons]; omega)]
      rw [@slice?_of_le (byte0 :: byte1 :: rest) 2 8 (by simp only [List.length_cons]; omega)]
      rfl

theorem keyAt_eq {buf hidden : Bytes} {offset : Nat} {key : MaskKey}
    (h : buf.drop offset = key.toList ++ hidden) : keyAt buf offset = some key := by
  have hbyte : ∀ i, buf[offset + i]? = (key.toList ++ hidden)[i]? := by
    intro i
    rw [← h, List.getElem?_drop]
  have h0 : buf[offset]? = some key.byte0 := hbyte 0
  have h1 : buf[offset + 1]? = some key.byte1 := hbyte 1
  have h2 : buf[offset + 2]? = some key.byte2 := hbyte 2
  have h3 : buf[offset + 3]? = some key.byte3 := hbyte 3
  simp only [keyAt, h0, h1, h2, h3]
  rfl

theorem bodyAt_eq {buf : Bytes} {offset : Nat} (h : offset ≤ buf.length) (masked : Bool)
    (length : Nat) : bodyAt buf masked offset length =
      some ((parseBody masked length (buf.drop offset)).map fun body =>
        (body.1, offset + body.2)) := by
  have hrest : (buf.drop offset).length = buf.length - offset := List.length_drop
  cases masked with
  | false =>
    rw [bodyAt, if_neg (by decide), parseBody_clear]
    by_cases hshort : buf.length < offset + length
    · rw [if_pos hshort, if_pos (by omega)]
      rfl
    · rw [if_neg hshort, if_neg (by omega), slice?_of_le (by omega)]
      rfl
  | true =>
    rw [bodyAt, if_pos rfl]
    by_cases hkey : buf.length < offset + 4
    · rw [if_pos hkey, parseBody_of_short (by omega)]
      rfl
    · obtain ⟨key, hidden, hsplit⟩ := @exists_key (buf.drop offset) (by omega)
      have hhidden : buf.drop (offset + 4) = hidden := by
        rw [← List.drop_drop, hsplit]
        rfl
      have hlen : hidden.length = buf.length - (offset + 4) := by
        rw [← hhidden, List.length_drop]
      rw [if_neg hkey, keyAt_eq hsplit, hsplit, parseBody_masked]
      by_cases hshort : buf.length < offset + 4 + length
      · rw [if_pos (show hidden.length < length by omega)]
        simp only [Option.bind_eq_bind, Option.bind_some, if_pos hshort]
        rfl
      · rw [if_neg (show ¬ hidden.length < length by omega)]
        simp only [Option.bind_eq_bind, Option.bind_some, if_neg hshort]
        rw [slice?_of_le (by omega), hhidden]
        simp only [Option.bind_some, Option.map_some, Nat.add_assoc]
        rfl

theorem frameAt_eq {byte0 byte1 : UInt8} {rest : Bytes} {opcode : Opcode}
    (hr : byte0 &&& 0x70 = 0) (ho : Opcode.ofCode? (byte0 &&& 0x0F) = some opcode) :
    frameAt (byte0 :: byte1 :: rest) (byte0 &&& 0x80 ≠ 0) opcode byte1 =
      some (parse (byte0 :: byte1 :: rest)) := by
  unfold frameAt
  rw [lengthAt_cons]
  by_cases hw : rest.length < extendedWidth (byte1 &&& 0x7F)
  · rw [if_pos hw, parse_cons_of_short hr ho hw]
    rfl
  · have hle : extendedWidth (byte1 &&& 0x7F) ≤ rest.length := Nat.le_of_not_lt hw
    rw [if_neg hw, parse_cons hr ho hle]
    generalize announcedLength (byte1 &&& 0x7F) (rest.take (extendedWidth (byte1 &&& 0x7F))) = length
    have hoffset : 2 + extendedWidth (byte1 &&& 0x7F) ≤ (byte0 :: byte1 :: rest).length := by
      simp only [List.length_cons]
      omega
    have hdrop : (byte0 :: byte1 :: rest).drop (2 + extendedWidth (byte1 &&& 0x7F)) =
        rest.drop (extendedWidth (byte1 &&& 0x7F)) := by
      rw [← List.drop_drop]
      rfl
    have hbody := bodyAt_eq hoffset (byte1 &&& 0x80 ≠ 0) length
    rw [hdrop] at hbody
    simp only [Option.bind_eq_bind, Option.bind_some, hbody]
    cases checkHeader (byte0 &&& 0x80 ≠ 0) opcode length with
    | error m => rfl
    | ok _ =>
      cases parseBody (byte1 &&& 0x80 ≠ 0) length (rest.drop (extendedWidth (byte1 &&& 0x7F))) with
      | none => rfl
      | some body => rfl

/-- No look falls outside the buffer, and reading by position finds the same. -/
theorem parseAt_eq (buf : Bytes) : parseAt buf = some (parse buf) := by
  match buf with
  | [] | [_] => rfl
  | byte0 :: byte1 :: rest =>
    have hlong : ¬ (byte0 :: byte1 :: rest).length < 2 := by
      simp only [List.length_cons]
      omega
    have h0 : (byte0 :: byte1 :: rest)[0]? = some byte0 := rfl
    have h1 : (byte0 :: byte1 :: rest)[1]? = some byte1 := rfl
    rw [parseAt, if_neg hlong]
    simp only [h0, h1, Option.bind_eq_bind, Option.bind_some]
    cases stage byte0 byte1 rest with
    | reservedBits hr =>
      rw [if_pos hr, parse_of_reservedBits _ _ hr]
      rfl
    | reservedOpcode hr ho =>
      rw [if_neg (not_not_intro hr), ho, parse_of_reservedOpcode _ _ hr ho]
      rfl
    | short hr ho _ | whole hr ho _ =>
      rw [if_neg (not_not_intro hr), ho]
      exact frameAt_eq hr ho

end EchoLoad.Frame
