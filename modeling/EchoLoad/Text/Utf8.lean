import EchoLoad.Bytes

/-!
# UTF-8

Characters to bytes and back. `decode?_eq_some_iff`: exactly the encoded texts can be decoded, so no
overlong form, no surrogate and nothing above U+10FFFF is read. `exists_of_mem_encode`: a byte below
128 comes from the ASCII character of this number, and never from a part of another one.
-/

namespace EchoLoad.Utf8

def encode (cs : List Char) : Bytes := cs.flatMap String.utf8EncodeChar

def decode? (bs : Bytes) : Option (List Char) :=
  (String.fromUTF8? ⟨bs.toArray⟩).map String.toList

@[simp] theorem encode_append (cs ds : List Char) : encode (cs ++ ds) = encode cs ++ encode ds :=
  List.flatMap_append

theorem utf8EncodeChar_ne_nil (c : Char) : String.utf8EncodeChar c ≠ [] := by
  rw [← List.length_pos_iff, String.length_utf8EncodeChar]
  exact c.utf8Size_pos

theorem encode_eq_nil_iff {cs : List Char} : encode cs = [] ↔ cs = [] := by
  cases cs with
  | nil => exact ⟨fun _ => rfl, fun _ => rfl⟩
  | cons c cs =>
    rw [encode, List.flatMap_cons, List.append_eq_nil_iff]
    exact ⟨fun h => absurd h.1 (utf8EncodeChar_ne_nil c), nofun⟩

theorem eq_of_mem_utf8EncodeChar {b : UInt8} {c : Char} (h : b ∈ String.utf8EncodeChar c)
    (hb : b.toNat < 0x80) : c.toNat = b.toNat := by
  have hhigh : ∀ n, 0x80 ≤ n → n < 0x100 → b ≠ UInt8.ofNat n := by
    rintro n hle hlt rfl
    rw [UInt8.toNat_ofNat_of_lt' hlt] at hb
    omega
  unfold String.utf8EncodeChar at h
  simp only [Char.toNat_val, List.mem_cons, List.not_mem_nil, or_false, apply_ite (b ∈ ·)] at h
  split at h
  · next hle =>
    have hlt : c.toNat < UInt8.size := Nat.lt_of_le_of_lt hle (by decide)
    rw [h, UInt8.toNat_ofNat_of_lt' hlt]
  split at h
  · rcases h with h | h
    all_goals exact absurd h (hhigh _ (by omega) (by omega))
  split at h
  · rcases h with h | h | h
    all_goals exact absurd h (hhigh _ (by omega) (by omega))
  · rcases h with h | h | h | h
    all_goals exact absurd h (hhigh _ (by omega) (by omega))

theorem exists_of_mem_encode {b : UInt8} {cs : List Char} (h : b ∈ encode cs)
    (hb : b.toNat < 0x80) : ∃ c ∈ cs, c.toNat = b.toNat := by
  obtain ⟨c, hc, hmem⟩ := List.mem_flatMap.mp h
  exact ⟨c, hc, eq_of_mem_utf8EncodeChar hmem hb⟩

theorem toByteArray_ofList (cs : List Char) :
    (String.ofList cs).toByteArray = ⟨(encode cs).toArray⟩ := by
  rw [String.toByteArray_ofList]
  apply ByteArray.ext
  simp [encode, List.utf8Encode]

@[simp] theorem decode?_encode (cs : List Char) : decode? (encode cs) = some cs := by
  have hv : (⟨(encode cs).toArray⟩ : ByteArray).IsValidUTF8 := by
    rw [← toByteArray_ofList]
    exact (String.ofList cs).isValidUTF8
  have hs : String.fromUTF8 ⟨(encode cs).toArray⟩ hv = String.ofList cs :=
    String.toByteArray_inj.1 (toByteArray_ofList cs).symm
  simp [decode?, String.fromUTF8?, hv, hs]

theorem decode?_eq_some_iff {bs : Bytes} {cs : List Char} :
    decode? bs = some cs ↔ bs = encode cs := by
  constructor
  · intro h
    obtain ⟨s, hs, rfl⟩ := Option.map_eq_some_iff.1 h
    unfold String.fromUTF8? at hs
    split at hs
    · next hv =>
      cases hs
      have hb : (String.fromUTF8 ⟨bs.toArray⟩ hv).toByteArray = ⟨bs.toArray⟩ := rfl
      have hl := toByteArray_ofList (String.fromUTF8 ⟨bs.toArray⟩ hv).toList
      rw [String.ofList_toList, hb] at hl
      simpa using congrArg (fun b => b.data.toList) hl
    · cases hs
  · rintro rfl
    exact decode?_encode cs

end EchoLoad.Utf8
