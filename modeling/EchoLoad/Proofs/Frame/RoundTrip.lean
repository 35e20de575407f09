import EchoLoad.Frame.Encode
import EchoLoad.Proofs.Frame.Extension

/-!
# Reading back what was written

`Frame.parse_encode_append`: the wire form of a frame that may be sent is read back, whatever
follows it, with exactly as many bytes as it has. What the two leading bytes say is settled
byte by byte (`leadByte_*`, `lengthCode_*`); the length is a matter of `BigEndian.toNat_ofNat`.
-/

namespace EchoLoad.Frame

/-- What may travel in one frame: no payload above the limit, and a control frame is short and
whole. -/
structure Legal (f : Frame) : Prop where
  short : f.payload.length ≤ maxPayload
  control : f.opcode.isControl = true → f.fin = true ∧ f.payload.length ≤ maxControlPayload

/-! ## The leading bytes -/

theorem leadByte_reserved (f : Frame) : f.leadByte &&& 0x70 = 0 := by
  unfold leadByte
  cases f.fin <;> cases f.opcode <;> decide

theorem leadByte_opcode (f : Frame) : Opcode.ofCode? (f.leadByte &&& 0x0F) = some f.opcode := by
  unfold leadByte
  cases f.fin <;> cases f.opcode <;> decide

theorem leadByte_fin (f : Frame) : decide (f.leadByte &&& 0x80 ≠ 0) = f.fin := by
  unfold leadByte
  cases f.fin <;> cases f.opcode <;> decide

theorem lengthCode_eq_ofNat (n : Nat) : ∃ k < 128, lengthCode n = UInt8.ofNat k := by
  unfold lengthCode
  split
  · exact ⟨n, by omega, rfl⟩
  · split
    · exact ⟨126, by omega, rfl⟩
    · exact ⟨127, by omega, rfl⟩

/-- The mask bit stands above the length. -/
theorem maskBit_lengthCode (masked : Bool) (n : Nat) :
    (((if masked then 0x80 else 0 : UInt8) ||| lengthCode n) &&& 0x7F) = lengthCode n ∧
      decide ((((if masked then 0x80 else 0 : UInt8) ||| lengthCode n) &&& 0x80) ≠ 0) = masked := by
  have hbits : ∀ k < 128, ∀ b : Bool,
      (((if b then 0x80 else 0 : UInt8) ||| UInt8.ofNat k) &&& 0x7F) = UInt8.ofNat k ∧
        decide ((((if b then 0x80 else 0 : UInt8) ||| UInt8.ofNat k) &&& 0x80) ≠ 0) = b := by
    decide +kernel
  obtain ⟨k, hk, hc⟩ := lengthCode_eq_ofNat n
  rw [hc]
  exact hbits k hk masked

/-! ## The length -/

theorem extendedWidth_lengthCode (n : Nat) :
    extendedWidth (lengthCode n) = (extendedLength n).length := by
  have hsmall : ∀ k ≤ 125, extendedWidth (UInt8.ofNat k) = 0 := by decide +kernel
  rw [length_extendedLength]
  unfold lengthCode
  split
  · next h => exact hsmall n h
  · split <;> rfl

theorem announcedLength_lengthCode {n : Nat} (h : n ≤ maxPayload) :
    announcedLength (lengthCode n) (extendedLength n) = n := by
  unfold announcedLength
  rw [extendedWidth_lengthCode, length_extendedLength]
  unfold lengthCode extendedLength
  by_cases h₁ : n ≤ 125
  · simp only [h₁, if_true]
    exact UInt8.toNat_ofNat_of_lt' (show n < 256 by omega)
  · by_cases h₂ : n ≤ 65535
    · simp only [h₁, h₂, if_true, if_false]
      rw [if_neg (by decide), BigEndian.toNat_ofNat]
      exact Nat.mod_eq_of_lt (by simp only [BigEndian.limit]; omega)
    · simp only [h₁, h₂, if_false]
      rw [if_neg (by decide), BigEndian.toNat_ofNat]
      exact Nat.mod_eq_of_lt (by simp only [BigEndian.limit, maxPayload] at h ⊢; omega)

theorem checkHeader_of_legal {f : Frame} (h : f.Legal) :
    checkHeader f.fin f.opcode f.payload.length = .ok () := by
  have hs := h.short
  unfold checkHeader
  rw [if_neg (by omega)]
  split
  · next hc =>
    obtain ⟨hfin, hlen⟩ := h.control hc
    rw [hfin, if_neg (by simp), if_neg (by omega)]
  · rfl

theorem legal_of_checkHeader {f : Frame}
    (h : checkHeader f.fin f.opcode f.payload.length = .ok ()) : f.Legal := by
  unfold checkHeader at h
  split at h
  · cases h
  · next hshort =>
    refine ⟨Nat.le_of_not_gt hshort, fun hcontrol => ?_⟩
    rw [if_pos hcontrol] at h
    split at h
    · cases h
    · next hfin =>
      split at h
      · cases h
      · next hlong => exact ⟨by simpa using hfin, Nat.le_of_not_gt hlong⟩

/-! ## The payload -/

theorem parseBody_body (f : Frame) (key : Option MaskKey) (rest : Bytes) :
    parseBody key.isSome f.payload.length (f.body key ++ rest) =
      some (f.payload, (f.body key).length) := by
  cases key with
  | none => simp [parseBody, body]
  | some k =>
    have hlen := MaskKey.length_apply k f.payload
    simp only [parseBody, body, Option.isSome_some, if_true, MaskKey.toList, List.cons_append,
      List.nil_append]
    rw [List.take_append_of_le_length (by omega), List.take_of_length_le (by omega),
      if_neg (by omega)]
    simp only [MaskKey.apply_apply, List.length_cons, hlen]
    rw [Nat.add_comm]

/-- The key before a masked payload. -/
def keyBefore (masked : Bool) (rest : Bytes) : Option MaskKey :=
  if masked then MaskKey.ofList? (rest.take 4) else none

/-- The other way round: what is taken for a payload is its form on the wire, under the key that stands
there. -/
theorem body_of_parseBody {f : Frame} {length taken : Nat} {rest : Bytes}
    (h : parseBody f.masked length rest = some (f.payload, taken)) :
    f.payload.length = length ∧ (keyBefore f.masked rest).isSome = f.masked ∧
      rest.take taken = f.body (keyBefore f.masked rest) ∧
      taken = (f.body (keyBefore f.masked rest)).length := by
  cases hm : f.masked with
  | false =>
    rw [hm, parseBody_clear] at h
    split at h
    · cases h
    · next hlong =>
      obtain ⟨hpayload, rfl⟩ := Prod.mk.inj (Option.some.inj h)
      have hlength : f.payload.length = length := by
        rw [← hpayload, List.length_take_of_le (Nat.le_of_not_lt hlong)]
      exact ⟨hlength, rfl, hpayload, hlength.symm⟩
  | true =>
    by_cases hfour : rest.length < 4
    · rw [hm, parseBody_of_short hfour] at h
      cases h
    · obtain ⟨key, hidden, rfl⟩ := exists_key (Nat.le_of_not_lt hfour)
      have hkey : keyBefore true (key.toList ++ hidden) = some key := rfl
      rw [hm, parseBody_masked] at h
      split at h
      · cases h
      · next hlong =>
        obtain ⟨hpayload, rfl⟩ := Prod.mk.inj (Option.some.inj h)
        have hlength : f.payload.length = length := by
          rw [← hpayload, MaskKey.length_apply, List.length_take_of_le (Nat.le_of_not_lt hlong)]
        have hbody : f.body (some key) = key.toList ++ hidden.take length := by
          rw [body, ← hpayload, MaskKey.apply_apply]
        have htake : (key.toList ++ hidden).take (4 + length) = key.toList ++ hidden.take length := by
          rw [Nat.add_comm]
          rfl
        rw [hkey, hbody, htake, List.length_append, MaskKey.length_toList,
          List.length_take_of_le (Nat.le_of_not_lt hlong)]
        exact ⟨hlength, rfl, rfl, rfl⟩

/-- A frame that is read is one that may travel. -/
theorem legal_of_parse {buf : Bytes} {f : Frame} {n : Nat} (h : parse buf = .ok (some (f, n))) :
    f.Legal := by
  obtain ⟨byte0, byte1, rest, -, hlayout⟩ := layout_of_parse h
  obtain ⟨taken, -, hbody⟩ := hlayout.body
  apply legal_of_checkHeader
  rw [(body_of_parseBody hbody).1]
  exact hlayout.header

theorem parse_encode_append {f : Frame} (h : f.Legal) (key : Option MaskKey) (rest : Bytes) :
    parse (f.encode key ++ rest) =
      .ok (some ({ f with masked := key.isSome }, f.wireSize key.isSome)) := by
  obtain ⟨hcode, hmask⟩ := maskBit_lengthCode key.isSome f.payload.length
  have hwidth := extendedWidth_lengthCode f.payload.length
  have hsize := length_encode f key
  have hbody := parseBody_body f key rest
  simp only [encode, List.length_cons, List.length_append] at hsize
  simp only [encode, List.cons_append, List.append_assoc]
  rw [parse_cons (leadByte_reserved f) (leadByte_opcode f)
    (by rw [hcode, hwidth, List.length_append]; omega)]
  rw [hcode, hwidth, leadByte_fin, hmask, List.take_left, List.drop_left,
    announcedLength_lengthCode h.short, checkHeader_of_legal h, hbody]
  simp only [Except.map, Option.map_some]
  congr 3
  omega

end EchoLoad.Frame
