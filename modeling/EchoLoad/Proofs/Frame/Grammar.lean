import EchoLoad.Proofs.Frame.Positions

/-!
# The grammar of frames

What the bytes at the front of a buffer announce, read off their positions (`Header.read`), and which
of it cannot begin a frame (`Header.Faulty`). `Frame.parse_grammar`: this decides the outcome of
`Frame.parse`. A header that is faulty is refused, any other is a frame once the buffer has as many
bytes as announced, and until then there is nothing to read yet.

A header of two bytes and one with a longer length are treated alike: `Header.read_cons` says what
its fields are in the words of `Frame.parse`, which are settled for all bytes at once.
-/

namespace EchoLoad.Frame

/-- What the bytes before the key announce. -/
structure Header where
  /-- One of the three bits below the final flag is set. -/
  reserved : Bool
  fin : Bool
  /-- The lower half of the first byte. -/
  opcode : Nat
  masked : Bool
  /-- The number of bytes before the key. -/
  size : Nat
  /-- The length of the payload. -/
  length : Nat
  deriving DecidableEq, Repr

namespace Header

/-- The header at the front of a buffer. Bytes that are missing count as zero. -/
def read (buf : Bytes) : Header :=
  let byte0 := (buf.getD 0 0).toNat
  let byte1 := (buf.getD 1 0).toNat
  let code := byte1 % 128
  let size := if code < 126 then 2 else if code = 126 then 4 else 10
  { reserved := byte0.testBit 6 || byte0.testBit 5 || byte0.testBit 4
    fin := byte0.testBit 7
    opcode := byte0 % 16
    masked := byte1.testBit 7
    size
    length := if code < 126 then code else BigEndian.toNat ((buf.take size).drop 2) }

variable (h : Header)

def keySize : Nat := if h.masked then 4 else 0

/-- The number of bytes of the whole frame. -/
def total : Nat := h.size + h.keySize + h.length

/-- The header cannot begin a frame. What it says about the length counts once all bytes of the length
are there: a payload has no more than 2^24 bytes, and a control frame is whole and has no more than
125. -/
def Faulty (available : Nat) : Prop :=
  2 ≤ available ∧ (h.reserved = true ∨ h.opcode ∉ [0, 1, 2, 8, 9, 10] ∨
    h.size ≤ available ∧ (16777216 < h.length ∨ 8 ≤ h.opcode ∧ h.fin = false ∨
      8 ≤ h.opcode ∧ 125 < h.length))

/-- The byte of the payload at a position, in the clear. -/
def payloadByte (buf : Bytes) (i : Nat) : UInt8 :=
  let byte := buf.getD (h.size + h.keySize + i) 0
  if h.masked then byte ^^^ buf.getD (h.size + i % 4) 0 else byte

end Header

/-! ## The two leading bytes -/

/-- A property of bytes holds of all of them if it holds of the numbers below 256. -/
theorem forall_byte {P : UInt8 → Prop} (h : ∀ n < 256, P (UInt8.ofNat n)) (b : UInt8) : P b := by
  have hb := h b.toNat b.toNat_lt
  rwa [UInt8.ofNat_toNat] at hb

theorem bits_lead : ∀ b : UInt8,
    (b.toNat.testBit 6 || b.toNat.testBit 5 || b.toNat.testBit 4) = decide (b &&& 0x70 ≠ 0) ∧
      b.toNat.testBit 7 = decide (b &&& 0x80 ≠ 0) ∧ b.toNat % 16 = (b &&& 0x0F).toNat :=
  forall_byte (by decide +kernel)

theorem bits_length : ∀ b : UInt8,
    b.toNat % 128 = (b &&& 0x7F).toNat ∧
      (if (b &&& 0x7F).toNat < 126 then 2 else if (b &&& 0x7F).toNat = 126 then 4 else 10) =
        2 + extendedWidth (b &&& 0x7F) ∧
      (extendedWidth (b &&& 0x7F) = 0 ↔ (b &&& 0x7F).toNat < 126) :=
  forall_byte (by decide +kernel)

/-- The numbers of the opcodes, and which of them are those of control frames. -/
theorem ofCode?_spec : ∀ b : UInt8,
    (Opcode.ofCode? (b &&& 0x0F) = none ↔ (b &&& 0x0F).toNat ∉ [0, 1, 2, 8, 9, 10]) ∧
      ∀ opcode ∈ Opcode.ofCode? (b &&& 0x0F),
        (opcode.isControl = true ↔ 8 ≤ (b &&& 0x0F).toNat) :=
  forall_byte (by decide +kernel)

namespace Header

variable (byte0 byte1 : UInt8) (rest : Bytes)

theorem read_cons : read (byte0 :: byte1 :: rest) =
    { reserved := byte0 &&& 0x70 ≠ 0
      fin := byte0 &&& 0x80 ≠ 0
      opcode := (byte0 &&& 0x0F).toNat
      masked := byte1 &&& 0x80 ≠ 0
      size := 2 + extendedWidth (byte1 &&& 0x7F)
      length := announcedLength (byte1 &&& 0x7F)
        (rest.take (extendedWidth (byte1 &&& 0x7F))) } := by
  obtain ⟨hreserved, hfin, hopcode⟩ := bits_lead byte0
  obtain ⟨-, hmasked, -⟩ := bits_lead byte1
  obtain ⟨hcode, hsize, hwidth⟩ := bits_length byte1
  have h0 : (byte0 :: byte1 :: rest).getD 0 0 = byte0 := rfl
  have h1 : (byte0 :: byte1 :: rest).getD 1 0 = byte1 := rfl
  have hlength : ((byte0 :: byte1 :: rest).take (2 + extendedWidth (byte1 &&& 0x7F))).drop 2 =
      rest.take (extendedWidth (byte1 &&& 0x7F)) := by
    rw [Nat.add_comm]
    rfl
  simp only [read, h0, h1, hreserved, hfin, hopcode, hmasked, hsize, hlength, hwidth, hcode,
    announcedLength]

end Header

/-- What is wrong with a header whose bytes are all there. -/
theorem checkHeader_eq_error_iff (fin : Bool) (opcode : Opcode) (length : Nat) :
    (∃ m, checkHeader fin opcode length = .error m) ↔
      maxPayload < length ∨ opcode.isControl = true ∧ fin = false ∨
        opcode.isControl = true ∧ maxControlPayload < length := by
  unfold checkHeader
  by_cases hlong : maxPayload < length
  · rw [if_pos hlong]
    exact ⟨fun _ => .inl hlong, fun _ => ⟨_, rfl⟩⟩
  · rw [if_neg hlong]
    cases opcode.isControl with
    | false => simp [hlong]
    | true =>
      cases fin with
      | false => simp
      | true =>
        by_cases hcontrol : maxControlPayload < length
        · simp [hcontrol]
        · simp [hlong, hcontrol]

namespace Header

variable {byte0 byte1 : UInt8} {rest : Bytes} {opcode : Opcode}

theorem faulty_of_reservedBits (hr : byte0 &&& 0x70 ≠ 0) :
    (read (byte0 :: byte1 :: rest)).Faulty (byte0 :: byte1 :: rest).length := by
  rw [read_cons]
  exact ⟨by simp only [List.length_cons]; omega, .inl (decide_eq_true hr)⟩

theorem faulty_of_reservedOpcode (ho : Opcode.ofCode? (byte0 &&& 0x0F) = none) :
    (read (byte0 :: byte1 :: rest)).Faulty (byte0 :: byte1 :: rest).length := by
  rw [read_cons]
  exact ⟨by simp only [List.length_cons]; omega, .inr (.inl ((ofCode?_spec byte0).1.mp ho))⟩

/-- Behind a first byte that is in order, a header is faulty if all of it is there and is refused. -/
theorem faulty_iff (hr : byte0 &&& 0x70 = 0) (ho : Opcode.ofCode? (byte0 &&& 0x0F) = some opcode) :
    (read (byte0 :: byte1 :: rest)).Faulty (byte0 :: byte1 :: rest).length ↔
      extendedWidth (byte1 &&& 0x7F) ≤ rest.length ∧
        ∃ m, checkHeader (read (byte0 :: byte1 :: rest)).fin opcode
          (read (byte0 :: byte1 :: rest)).length = .error m := by
  obtain ⟨hnone, hsome⟩ := ofCode?_spec byte0
  have hknown : ¬ (byte0 &&& 0x0F).toNat ∉ [0, 1, 2, 8, 9, 10] := by
    rw [← hnone, ho]
    nofun
  have hcontrol := hsome opcode ho
  have hlength : (byte0 :: byte1 :: rest).length = 2 + rest.length := by
    simp only [List.length_cons]
    omega
  rw [checkHeader_eq_error_iff, hcontrol, read_cons, hlength]
  have hmax : maxPayload = 16777216 := by decide
  simp only [Faulty, hr, hknown, hmax, maxControlPayload, ne_eq, not_true_eq_false, decide_false,
    Bool.false_eq_true, false_or, Nat.add_le_add_iff_left, Nat.le_add_right, true_and]

end Header

/-! ## The payload -/

theorem take_drop_eq_map {buf : Bytes} {start length : Nat} (h : start + length ≤ buf.length) :
    (buf.drop start).take length = (List.range length).map fun i => buf.getD (start + i) 0 := by
  apply List.ext_getElem?
  intro i
  by_cases hi : i < length
  · have hbyte : start + i < buf.length := by omega
    rw [List.getElem?_take_of_lt hi, List.getElem?_drop, List.getElem?_map, List.getElem?_range hi,
      Option.map_some, List.getD_eq_getElem?_getD, List.getElem?_eq_getElem hbyte, Option.getD_some]
  · rw [List.getElem?_eq_none (by rw [List.length_take]; omega),
      List.getElem?_eq_none (by rw [List.length_map, List.length_range]; omega)]

theorem byte_eq_getD (key : MaskKey) (hidden : Bytes) (i : Nat) :
    key.byte i = (key.toList ++ hidden).getD (i % 4) 0 := by
  have hlt : i % 4 < 4 := Nat.mod_lt _ (by decide)
  unfold MaskKey.byte
  match i % 4, hlt with
  | 0, _ | 1, _ | 2, _ | 3, _ => rfl

theorem apply_map_range (key : MaskKey) (f : Nat → UInt8) (length : Nat) :
    key.apply ((List.range length).map f) =
      (List.range length).map fun i => f i ^^^ key.byte i := by
  apply List.ext_getElem?
  intro i
  rw [MaskKey.getElem?_apply, List.getElem?_map, List.getElem?_map]
  by_cases hi : i < length
  · rw [List.getElem?_range hi]
    rfl
  · rw [List.getElem?_eq_none (by rw [List.length_range]; omega)]
    rfl

theorem Header.parseBody_eq (h : Header) {buf : Bytes} (hsize : h.size ≤ buf.length) :
    parseBody h.masked h.length (buf.drop h.size) =
      if buf.length < h.total then none
      else some ((List.range h.length).map (h.payloadByte buf), h.keySize + h.length) := by
  have hrest : (buf.drop h.size).length = buf.length - h.size := List.length_drop
  cases hmasked : h.masked with
  | false =>
    have hkey : h.keySize = 0 := by
      rw [keySize, hmasked]
      rfl
    have hbytes : h.payloadByte buf = fun i => buf.getD (h.size + i) 0 := by
      funext i
      rw [payloadByte, hmasked, hkey]
      rfl
    rw [parseBody_clear, total, hkey]
    by_cases hshort : buf.length < h.size + 0 + h.length
    · rw [if_pos hshort, if_pos (by omega)]
    · rw [if_neg hshort, if_neg (by omega), take_drop_eq_map (by omega), Nat.zero_add, hbytes]
  | true =>
    have hkey : h.keySize = 4 := by
      rw [keySize, hmasked]
      rfl
    rw [total, hkey]
    by_cases hfour : (buf.drop h.size).length < 4
    · rw [parseBody_of_short hfour, if_pos (by omega)]
    · obtain ⟨key, hidden, hsplit⟩ := exists_key (Nat.le_of_not_lt hfour)
      have hhidden : hidden = buf.drop (h.size + 4) := by
        rw [← List.drop_drop, hsplit]
        rfl
      have hlen : hidden.length = buf.length - (h.size + 4) := by rw [hhidden, List.length_drop]
      rw [hsplit, parseBody_masked]
      by_cases hshort : buf.length < h.size + 4 + h.length
      · rw [if_pos hshort, if_pos (by omega)]
      · have hbytes : h.payloadByte buf =
            fun i => buf.getD (h.size + 4 + i) 0 ^^^ key.byte i := by
          funext i
          have hbyte : (buf.drop h.size).getD (i % 4) 0 = buf.getD (h.size + i % 4) 0 := by
            simp only [List.getD_eq_getElem?_getD, List.getElem?_drop]
          rw [byte_eq_getD key hidden, ← hsplit, hbyte, payloadByte, hmasked, hkey]
          rfl
        rw [if_neg hshort, if_neg (by omega), hhidden, take_drop_eq_map (by omega), apply_map_range,
          hbytes]

/-! ## The outcome -/

/-- The frame that a header announces, once its opcode is known. -/
def Header.frame (h : Header) (opcode : Opcode) (buf : Bytes) : Frame :=
  { fin := h.fin, opcode, masked := h.masked,
    payload := (List.range h.length).map (h.payloadByte buf) }

/-- Behind a first byte that is in order, and with all bytes of the length, reading is a matter of what
the header says. -/
theorem parse_of_read {byte0 byte1 : UInt8} {rest : Bytes} {opcode : Opcode}
    (hr : byte0 &&& 0x70 = 0) (ho : Opcode.ofCode? (byte0 &&& 0x0F) = some opcode)
    (hw : extendedWidth (byte1 &&& 0x7F) ≤ rest.length) :
    let buf := byte0 :: byte1 :: rest
    let h := Header.read buf
    parse buf = (checkHeader h.fin opcode h.length).map fun _ =>
      if buf.length < h.total then none else some (h.frame opcode buf, h.total) := by
  intro buf h
  have hread : h = _ := Header.read_cons byte0 byte1 rest
  have hfin : h.fin = decide (byte0 &&& 0x80 ≠ 0) := by rw [hread]
  have hmasked : h.masked = decide (byte1 &&& 0x80 ≠ 0) := by rw [hread]
  have hsize : h.size = 2 + extendedWidth (byte1 &&& 0x7F) := by rw [hread]
  have hlength : h.length = announcedLength (byte1 &&& 0x7F)
      (rest.take (extendedWidth (byte1 &&& 0x7F))) := by rw [hread]
  have hdrop : rest.drop (extendedWidth (byte1 &&& 0x7F)) = buf.drop h.size := by
    rw [hsize, ← List.drop_drop]
    rfl
  have hle : h.size ≤ buf.length := by
    rw [hsize]
    simp only [buf, List.length_cons]
    omega
  have hbody := h.parseBody_eq hle
  rw [parse_cons hr ho hw, ← hfin, ← hmasked, ← hlength, ← hsize, hdrop, hbody]
  congr 1
  funext _
  by_cases hshort : buf.length < h.total
  · rw [if_pos hshort, if_pos hshort]
    rfl
  · rw [if_neg hshort, if_neg hshort, Option.map_some, ← Nat.add_assoc]
    rfl

/-- The outcome of reading a buffer, by what stands at its front. -/
inductive Verdict (buf : Bytes) (h : Header) : Except Malformed (Option (Frame × Nat)) → Prop where
  | refused (m : Malformed) (hfaulty : h.Faulty buf.length) : Verdict buf h (.error m)
  | incomplete (hsound : ¬ h.Faulty buf.length) (hshort : buf.length < h.total) :
      Verdict buf h (.ok none)
  | frame {opcode : Opcode} (hsound : ¬ h.Faulty buf.length) (hcomplete : h.total ≤ buf.length)
      (hopcode : opcode.code.toNat = h.opcode) :
      Verdict buf h (.ok (some (h.frame opcode buf, h.total)))

theorem two_le_total_read (buf : Bytes) : 2 ≤ (Header.read buf).total := by
  have hsize : 2 ≤ (Header.read buf).size := by
    simp only [Header.read]
    split
    · exact Nat.le_refl 2
    · split <;> decide
  rw [Header.total]
  omega

theorem verdict_of_short {buf : Bytes} (h : buf.length < 2) :
    Verdict buf (Header.read buf) (.ok none) := by
  have htotal := two_le_total_read buf
  exact .incomplete (fun hfaulty => by have := hfaulty.1; omega) (by omega)

theorem verdict_parse (buf : Bytes) : Verdict buf (Header.read buf) (parse buf) := by
  match buf with
  | [] | [_] => exact verdict_of_short (by simp)
  | byte0 :: byte1 :: rest =>
    have hlength : (byte0 :: byte1 :: rest).length = 2 + rest.length := by
      simp only [List.length_cons]
      omega
    cases stage byte0 byte1 rest with
    | reservedBits hr =>
      rw [parse_of_reservedBits _ _ hr]
      exact .refused _ (Header.faulty_of_reservedBits hr)
    | reservedOpcode hr ho =>
      rw [parse_of_reservedOpcode _ _ hr ho]
      exact .refused _ (Header.faulty_of_reservedOpcode ho)
    | short hr ho hw =>
      rw [parse_cons_of_short hr ho hw]
      refine .incomplete ?_ ?_
      · rw [Header.faulty_iff hr ho]
        exact fun hfaulty => absurd hfaulty.1 (Nat.not_le.mpr hw)
      · rw [hlength, Header.total, Header.read_cons]
        dsimp only
        omega
    | @whole opcode hr ho hw =>
      have hfaulty := @Header.faulty_iff byte0 byte1 rest opcode hr ho
      rw [parse_of_read hr ho hw]
      cases hc : checkHeader (Header.read (byte0 :: byte1 :: rest)).fin opcode
          (Header.read (byte0 :: byte1 :: rest)).length with
      | error m => exact .refused m (hfaulty.mpr ⟨hw, m, hc⟩)
      | ok _ =>
        have hsound : ¬ (Header.read (byte0 :: byte1 :: rest)).Faulty
            (byte0 :: byte1 :: rest).length := by
          rw [hfaulty, hc]
          rintro ⟨-, m, hm⟩
          cases hm
        dsimp only [Except.map]
        split
        · next hshort => exact .incomplete hsound hshort
        · next hcomplete =>
          refine .frame hsound (Nat.le_of_not_lt hcomplete) ?_
          rw [Opcode.code_of_ofCode? ho, Header.read_cons]

theorem parse_eq_error_iff (buf : Bytes) :
    (∃ m, parse buf = .error m) ↔ (Header.read buf).Faulty buf.length := by
  have hverdict := verdict_parse buf
  generalize parse buf = result at hverdict ⊢
  cases hverdict with
  | refused m hfaulty => exact ⟨fun _ => hfaulty, fun _ => ⟨m, rfl⟩⟩
  | incomplete hsound _ | frame hsound _ _ => simp [hsound]

theorem parse_eq_none_iff (buf : Bytes) : parse buf = .ok none ↔
    ¬ (Header.read buf).Faulty buf.length ∧ buf.length < (Header.read buf).total := by
  have hverdict := verdict_parse buf
  generalize parse buf = result at hverdict ⊢
  cases hverdict with
  | refused m hfaulty => simp [hfaulty]
  | incomplete hsound hshort => exact ⟨fun _ => ⟨hsound, hshort⟩, fun _ => rfl⟩
  | frame hsound hcomplete _ => simp [hsound, hcomplete]

theorem exists_frame_iff (buf : Bytes) : (∃ f n, parse buf = .ok (some (f, n))) ↔
    ¬ (Header.read buf).Faulty buf.length ∧ (Header.read buf).total ≤ buf.length := by
  have hverdict := verdict_parse buf
  generalize parse buf = result at hverdict ⊢
  cases hverdict with
  | refused m hfaulty => simp [hfaulty]
  | incomplete hsound hshort => simp [hsound, hshort]
  | frame hsound hcomplete _ => exact ⟨fun _ => ⟨hsound, hcomplete⟩, fun _ => ⟨_, _, rfl⟩⟩

/-- A frame that is read is the one that the header announces. -/
theorem eq_frame_of_parse {buf : Bytes} {f : Frame} {n : Nat}
    (h : parse buf = .ok (some (f, n))) :
    f = (Header.read buf).frame f.opcode buf ∧ n = (Header.read buf).total ∧
      f.opcode.code.toNat = (Header.read buf).opcode := by
  have hverdict := verdict_parse buf
  rw [h] at hverdict
  cases hverdict with
  | frame _ _ hopcode => exact ⟨rfl, rfl, hopcode⟩

/-- The header decides what is read, byte for byte. A buffer is refused if and only if its header is
faulty. Otherwise the frame that is announced is read if and only if all its bytes are there, and it
takes exactly these; while some are missing there is nothing to read yet. None of this looks at a
position that the buffer does not have. -/
theorem parse_grammar (buf : Bytes) :
    let h := Header.read buf
    ((∃ m, parse buf = .error m) ↔ h.Faulty buf.length) ∧
      ((∃ f n, parse buf = .ok (some (f, n))) ↔
        ¬ h.Faulty buf.length ∧ h.total ≤ buf.length) ∧
      (∀ f n, parse buf = .ok (some (f, n)) →
        n = h.total ∧ 2 ≤ n ∧ n ≤ buf.length ∧
          f.fin = h.fin ∧ f.opcode.code.toNat = h.opcode ∧ f.masked = h.masked ∧
          f.payload.length = h.length ∧
          ∀ i < h.length, f.payload[i]? = some (h.payloadByte buf i)) ∧
      (parse buf = .ok none ↔ ¬ h.Faulty buf.length ∧ buf.length < h.total) ∧
      parseAt buf = some (parse buf) := by
  intro h
  refine ⟨parse_eq_error_iff buf, exists_frame_iff buf, ?_, parse_eq_none_iff buf, parseAt_eq buf⟩
  intro f n hparse
  obtain ⟨hf, htotal, hopcode⟩ := eq_frame_of_parse hparse
  obtain ⟨htwo, hle⟩ := consumed_of_parse hparse
  have hpayload : f.payload = (List.range h.length).map (h.payloadByte buf) :=
    congrArg Frame.payload hf
  refine ⟨htotal, htwo, hle, congrArg Frame.fin hf, hopcode, congrArg Frame.masked hf, ?_, ?_⟩
  · rw [hpayload, List.length_map, List.length_range]
  · intro i hi
    rw [hpayload, List.getElem?_map, List.getElem?_range hi, Option.map_some]

/-- A masked text whose length is written in two bytes though one would do, with the beginning of another
frame behind it. -/
theorem parse_grammar_long_form :
    let buf : Bytes := [0x81, 0xFE, 0, 2, 1, 2, 3, 4, 0x49, 0x6B, 0x89]
    let h := Header.read buf
    h.size = 4 ∧ h.masked = true ∧ h.length = 2 ∧ ¬ h.Faulty buf.length ∧
      ∃ f, parse buf = .ok (some (f, 10)) ∧ f.opcode.code.toNat = 1 ∧
        f.payload[1]? = some (0x6B ^^^ 2) := by
  intro buf h
  have hparse : parse buf = .ok (some (⟨true, .text, true, [0x48, 0x69]⟩, 10)) := by rfl
  obtain ⟨-, hframe, hfields, -⟩ := parse_grammar buf
  obtain ⟨hsound, -⟩ := hframe.mp ⟨_, _, hparse⟩
  obtain ⟨-, -, -, -, hopcode, -, -, hpayload⟩ := hfields _ _ hparse
  have htext : h.opcode = 1 := by decide
  have hbyte : h.payloadByte buf 1 = 0x6B ^^^ 2 := by decide
  exact ⟨by decide, by decide, by decide, hsound, _, hparse, hopcode.trans htext,
    (hpayload 1 (by decide)).trans (congrArg some hbyte)⟩

end EchoLoad.Frame
