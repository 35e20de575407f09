import EchoLoad.Proofs.Frame.Grammar
import EchoLoad.Proofs.Frame.RoundTrip

/-!
# Writing again what was read

A length may stand on the wire in a longer form than it needs, and such a frame is read like any other.
`Frame.writeTo` always writes the shortest form. So a frame that is read and written again under its
own key never grows; it comes out byte for byte as it came if and only if its length was in the shortest
form, and else it loses just the bytes that the longer form had too many
(`writeTo_of_parse`).

`take_of_parse` is the reason: what is read is the wire form of the frame but for the form of its
length.
-/

namespace EchoLoad.Frame

/-- The number of bytes before the key if the length is written in its shortest form. -/
def shortestSize (length : Nat) : Nat :=
  if length ≤ 125 then 2 else if length ≤ 65535 then 4 else 10

/-- The mask key on the wire, if the header announces one. -/
def Header.key? (h : Header) (buf : Bytes) : Option MaskKey := keyBefore h.masked (buf.drop h.size)

/-- The wire form of a frame, with its length in a form that is given. -/
def encodeWith (f : Frame) (key : Option MaskKey) (code : UInt8) (extended : Bytes) : Bytes :=
  f.leadByte :: ((if key.isSome then 0x80 else 0) ||| code) :: (extended ++ f.body key)

/-! ## The leading bytes -/

theorem lead_eq_of_opcode : ∀ b : UInt8, b &&& 0x70 = 0 → ∀ opcode ∈ Opcode.ofCode? (b &&& 0x0F),
    (if b &&& 0x80 ≠ 0 then 0x80 ||| opcode.code else opcode.code) = b :=
  forall_byte (by decide +kernel)

theorem maskBit_or_length : ∀ b : UInt8,
    ((if decide (b &&& 0x80 ≠ 0) then 0x80 else 0) ||| (b &&& 0x7F)) = b :=
  forall_byte (by decide +kernel)

theorem Layout.leadByte {byte0 byte1 : UInt8} {rest : Bytes} {f : Frame} {n : Nat}
    (h : Layout byte0 byte1 rest f n) : f.leadByte = byte0 := by
  have hlead := lead_eq_of_opcode byte0 h.reserved f.opcode h.opcode
  rw [Frame.leadByte, h.fin]
  simpa using hlead

/-! ## The form of the length -/

/-- A length is written in one of the three forms: in the second byte itself, in two bytes, or in
eight. -/
inductive LengthForm : (code : UInt8) → (extended : Bytes) → (length : Nat) → Prop where
  | short {code : UInt8} (h : code.toNat ≤ 125) : LengthForm code [] code.toNat
  | two {extended : Bytes} (h : extended.length = 2) :
      LengthForm 126 extended (BigEndian.toNat extended)
  | eight {extended : Bytes} (h : extended.length = 8) :
      LengthForm 127 extended (BigEndian.toNat extended)

theorem lengthForm_take {byte1 : UInt8} {rest : Bytes}
    (h : extendedWidth (byte1 &&& 0x7F) ≤ rest.length) :
    LengthForm (byte1 &&& 0x7F) (rest.take (extendedWidth (byte1 &&& 0x7F)))
      (announcedLength (byte1 &&& 0x7F) (rest.take (extendedWidth (byte1 &&& 0x7F)))) := by
  rcases lengthBits_cases byte1 with ⟨hsmall, hwidth⟩ | hcode | hcode
  · rw [announcedLength, if_pos hwidth, hwidth]
    exact .short hsmall
  · rw [hcode] at h ⊢
    exact .two (List.length_take_of_le h)
  · rw [hcode] at h ⊢
    exact .eight (List.length_take_of_le h)

namespace LengthForm

variable {code : UInt8} {extended : Bytes} {length : Nat}

/-- How many bytes each form takes, and what fits into it. -/
theorem cases_size (h : LengthForm code extended length) :
    extended.length = 0 ∧ length ≤ 125 ∨ extended.length = 2 ∧ length ≤ 65535 ∨
      extended.length = 8 := by
  cases h with
  | short hcode => exact .inl ⟨rfl, hcode⟩
  | two hlength =>
    have hlt := BigEndian.toNat_lt extended
    rw [hlength] at hlt
    exact .inr (.inl ⟨hlength, Nat.le_of_lt_succ hlt⟩)
  | eight hlength => exact .inr (.inr hlength)

theorem shortestSize_le (h : LengthForm code extended length) :
    shortestSize length ≤ 2 + extended.length := by
  have hcases := h.cases_size
  unfold shortestSize
  split
  · omega
  · split <;> omega

/-- The shortest form is the one that is written. -/
theorem eq_of_shortest (h : LengthForm code extended length)
    (hsize : 2 + extended.length = shortestSize length) :
    code = lengthCode length ∧ extended = extendedLength length := by
  unfold shortestSize at hsize
  unfold lengthCode extendedLength
  cases h with
  | short hcode => rw [if_pos hcode, if_pos hcode, UInt8.ofNat_toNat]; exact ⟨rfl, rfl⟩
  | two hlength =>
    split at hsize
    · omega
    · next hlong =>
      split at hsize
      · next htwo =>
        rw [if_neg hlong, if_pos htwo, if_neg hlong, if_pos htwo, BigEndian.ofNat_toNat hlength]
        exact ⟨rfl, rfl⟩
      · omega
  | eight hlength =>
    split at hsize
    · omega
    · next hlong =>
      split at hsize
      · omega
      · next height =>
        rw [if_neg hlong, if_neg height, if_neg hlong, if_neg height, BigEndian.ofNat_toNat hlength]
        exact ⟨rfl, rfl⟩

end LengthForm

theorem shortestSize_eq (length : Nat) : shortestSize length = 2 + (extendedLength length).length := by
  rw [length_extendedLength]
  unfold shortestSize
  split
  · rfl
  · split <;> rfl

theorem wireSize_eq (f : Frame) (key : Option MaskKey) :
    f.wireSize key.isSome = shortestSize f.payload.length + (f.body key).length := by
  rw [← length_encode, shortestSize_eq]
  simp only [encode, List.length_cons, List.length_append]
  omega

/-! ## Writing again -/

/-- What is read stands on the wire as it would be written, but for the form of its length. -/
theorem take_of_parse {buf : Bytes} {f : Frame} {n : Nat} (h : parse buf = .ok (some (f, n))) :
    let header := Header.read buf
    let key := header.key? buf
    key.isSome = f.masked ∧ n = header.size + (f.body key).length ∧
      ∃ code extended, LengthForm code extended f.payload.length ∧
        header.size = 2 + extended.length ∧ buf.take n = f.encodeWith key code extended := by
  intro header key
  obtain ⟨byte0, byte1, rest, rfl, hlayout⟩ := layout_of_parse h
  obtain ⟨taken, hn, hbody⟩ := hlayout.body
  obtain ⟨hlength, hsome, htake, htaken⟩ := body_of_parseBody hbody
  have hread : header = _ := Header.read_cons byte0 byte1 rest
  have hsize : header.size = 2 + extendedWidth (byte1 &&& 0x7F) := by rw [hread]
  have hmasked : header.masked = f.masked := by rw [hread, hlayout.masked]
  have hkey : keyBefore f.masked (rest.drop (extendedWidth (byte1 &&& 0x7F))) = key := by
    simp only [key, Header.key?, hmasked, hsize, ← List.drop_drop]
    rfl
  rw [hkey] at hsome htake htaken
  have hextended := List.length_take_of_le hlayout.width
  refine ⟨hsome, by omega, _, _, hlength ▸ lengthForm_take hlayout.width, by omega, ?_⟩
  have hsecond := maskBit_or_length byte1
  rw [← hlayout.masked] at hsecond
  have hsplit : (byte0 :: byte1 :: rest).take n =
      byte0 :: byte1 :: rest.take (extendedWidth (byte1 &&& 0x7F) + taken) := by
    rw [hn, Nat.add_assoc, Nat.add_comm 2]
    rfl
  rw [encodeWith, hlayout.leadByte, hsome, hsecond, hsplit, List.take_add, htake]

/-- A form of the length that is not the shortest has two, six or eight bytes too many. -/
theorem LengthForm.surplus {code : UInt8} {extended : Bytes} {length : Nat}
    (h : LengthForm code extended length) (hlong : 2 + extended.length ≠ shortestSize length) :
    extended.length = 2 ∧ length ≤ 125 ∧ 2 + extended.length = shortestSize length + 2 ∨
      extended.length = 8 ∧ length ≤ 125 ∧ 2 + extended.length = shortestSize length + 8 ∨
      extended.length = 8 ∧ 126 ≤ length ∧ length ≤ 65535 ∧
        2 + extended.length = shortestSize length + 6 := by
  have hcases := h.cases_size
  revert hlong
  unfold shortestSize
  split
  · omega
  · split <;> omega

/-- A frame that was read is written again under the key it came with. What is written is no longer
than what was read, and is read as the same frame. It is the same bytes if and only if the length was in
its shortest form. Otherwise it lacks the surplus of the form that was used: two bytes or eight for
a length that fits into the second byte, six for one that fits into two bytes. -/
theorem writeTo_of_parse {buf : Bytes} {f : Frame} {n : Nat}
    (h : parse buf = .ok (some (f, n))) :
    let header := Header.read buf
    let key := header.key? buf
    let length := f.payload.length
    let written := f.writeTo [] key
    let w := f.wireSize f.masked
    key.isSome = f.masked ∧ written.length = w ∧ w ≤ n ∧ parse written = .ok (some (f, w)) ∧
      (written = buf.take n ↔ header.size = shortestSize length) ∧
      (header.size ≠ shortestSize length →
        header.size = 4 ∧ length ≤ 125 ∧ n - w = 2 ∨
        header.size = 10 ∧ length ≤ 125 ∧ n - w = 8 ∨
        header.size = 10 ∧ 126 ≤ length ∧ length ≤ 65535 ∧ n - w = 6) := by
  intro header key length written w
  obtain ⟨hsome, hn, code, extended, hform, hsize, htake⟩ := take_of_parse h
  have hn : n = header.size + (f.body key).length := hn
  have hsize : header.size = 2 + extended.length := hsize
  have hform : LengthForm code extended length := hform
  have hwritten : written = f.encode key := f.writeTo_eq [] key
  have hw : w = shortestSize length + (f.body key).length := by
    rw [← wireSize_eq f key, hsome]
  have hlength : written.length = w := by rw [hwritten, length_encode, hsome]
  have hle := hform.shortestSize_le
  have hread : parse written = .ok (some (f, w)) := by
    have hback := parse_encode_append (legal_of_parse h) key []
    rwa [List.append_nil, hsome, ← hwritten] at hback
  refine ⟨hsome, hlength, by omega, hread, ⟨?_, ?_⟩, ?_⟩
  · intro heq
    have hn : n = w := by
      have htaken : (buf.take n).length = n := List.length_take_of_le (consumed_of_parse h).2
      rw [← htaken, ← heq, hlength]
    omega
  · intro hshortest
    obtain ⟨hcode, hextended⟩ := hform.eq_of_shortest (hsize.symm.trans hshortest)
    rw [hwritten, htake, hcode, hextended]
    rfl
  · intro hlong
    have hsurplus := hform.surplus (hsize ▸ hlong)
    omega

/-- A masked text of two bytes whose length came in eight. -/
theorem writeTo_of_parse_long_form :
    let buf : Bytes := [0x81, 0xFF, 0, 0, 0, 0, 0, 0, 0, 2, 1, 2, 3, 4, 0x49, 0x6B, 0x89]
    let f : Frame := ⟨true, .text, true, [0x48, 0x69]⟩
    parse buf = .ok (some (f, 16)) ∧
      parse (f.writeTo [] (some ⟨1, 2, 3, 4⟩)) = .ok (some (f, 8)) ∧
      f.writeTo [] (some ⟨1, 2, 3, 4⟩) ≠ buf.take 16 := by
  intro buf f
  have hparse : parse buf = .ok (some (f, 16)) := by rfl
  have hkey : (Header.read buf).key? buf = some ⟨1, 2, 3, 4⟩ := by decide
  have hsize : (Header.read buf).size ≠ shortestSize f.payload.length := by decide
  obtain ⟨-, -, -, hread, hsame, -⟩ := writeTo_of_parse hparse
  rw [hkey] at hread hsame
  exact ⟨hparse, hread, fun heq => hsize (hsame.mp heq)⟩

end EchoLoad.Frame
