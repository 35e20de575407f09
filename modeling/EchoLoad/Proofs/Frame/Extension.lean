import EchoLoad.Frame.Parse

/-!
# Reading ahead of the stream

A buffer is read again each time bytes arrive, so what has been read off a part of the stream must
not depend on what comes later. `Frame.parse_append`: once the bytes at the front of a buffer make
up a frame, or break a rule, more bytes behind them change nothing.

`Frame.stage` takes the reading apart at the end of the length: before it only bytes can be missing,
and what the two leading bytes allow has been decided; from there on it goes as `Frame.parse_cons`
says. The other way round, `Frame.layout_of_parse` says how a frame that has been found lies at the front
of the buffer.

`Frame.parse_of_isPrefix_take`: before the last byte of a frame is there, nothing has been found, since
what is found is found again when more bytes are there. `Frame.parse_stable` puts both together.
-/

namespace EchoLoad.Frame

/-- The reading of a buffer that holds the whole length. -/
theorem parse_cons {byte0 byte1 : UInt8} {rest : Bytes} {opcode : Opcode}
    (hr : byte0 &&& 0x70 = 0) (ho : Opcode.ofCode? (byte0 &&& 0x0F) = some opcode)
    (hw : extendedWidth (byte1 &&& 0x7F) ≤ rest.length) :
    let width := extendedWidth (byte1 &&& 0x7F)
    let length := announcedLength (byte1 &&& 0x7F) (rest.take width)
    parse (byte0 :: byte1 :: rest) =
      (checkHeader (byte0 &&& 0x80 ≠ 0) opcode length).map fun _ =>
        (parseBody (byte1 &&& 0x80 ≠ 0) length (rest.drop width)).map fun body =>
          ({ fin := byte0 &&& 0x80 ≠ 0, opcode, masked := byte1 &&& 0x80 ≠ 0, payload := body.1 },
            2 + width + body.2) := by
  intro width length
  have hfull : ¬(rest.take width).length < width := by
    rw [List.length_take]
    omega
  simp only [parse, hr, ho, ne_eq, not_true_eq_false, if_false]
  rw [if_neg hfull]
  cases checkHeader (byte0 &&& 0x80 ≠ 0) opcode length with
  | error m => rfl
  | ok _ =>
    cases parseBody (byte1 &&& 0x80 ≠ 0) length (rest.drop width) with
    | none => rfl
    | some body => rfl

/-- While a part of the length is missing there is nothing to read yet. -/
theorem parse_cons_of_short {byte0 byte1 : UInt8} {rest : Bytes} {opcode : Opcode}
    (hr : byte0 &&& 0x70 = 0) (ho : Opcode.ofCode? (byte0 &&& 0x0F) = some opcode)
    (hw : rest.length < extendedWidth (byte1 &&& 0x7F)) :
    parse (byte0 :: byte1 :: rest) = .ok none := by
  have hshort : (rest.take (extendedWidth (byte1 &&& 0x7F))).length <
      extendedWidth (byte1 &&& 0x7F) := by
    rw [List.length_take]
    omega
  simp only [parse, hr, ho, ne_eq, not_true_eq_false, if_false]
  rw [if_pos hshort]

theorem parse_of_reservedBits {byte0 : UInt8} (byte1 : UInt8) (rest : Bytes)
    (hr : byte0 &&& 0x70 ≠ 0) : parse (byte0 :: byte1 :: rest) = .error .reservedBits := by
  simp only [parse]
  rw [if_pos hr]

theorem parse_of_reservedOpcode {byte0 : UInt8} (byte1 : UInt8) (rest : Bytes)
    (hr : byte0 &&& 0x70 = 0) (ho : Opcode.ofCode? (byte0 &&& 0x0F) = none) :
    parse (byte0 :: byte1 :: rest) = .error (.reservedOpcode (byte0 &&& 0x0F)) := by
  simp only [parse, hr, ho, ne_eq, not_true_eq_false, if_false]

/-- How far the reading of a buffer gets before the frame itself is looked at. -/
inductive Stage (byte0 byte1 : UInt8) (rest : Bytes) : Prop where
  | reservedBits (hr : byte0 &&& 0x70 ≠ 0)
  | reservedOpcode (hr : byte0 &&& 0x70 = 0) (ho : Opcode.ofCode? (byte0 &&& 0x0F) = none)
  | short {opcode : Opcode} (hr : byte0 &&& 0x70 = 0)
      (ho : Opcode.ofCode? (byte0 &&& 0x0F) = some opcode)
      (hw : rest.length < extendedWidth (byte1 &&& 0x7F))
  | whole {opcode : Opcode} (hr : byte0 &&& 0x70 = 0)
      (ho : Opcode.ofCode? (byte0 &&& 0x0F) = some opcode)
      (hw : extendedWidth (byte1 &&& 0x7F) ≤ rest.length)

theorem stage (byte0 byte1 : UInt8) (rest : Bytes) : Stage byte0 byte1 rest := by
  by_cases hr : byte0 &&& 0x70 = 0
  · cases ho : Opcode.ofCode? (byte0 &&& 0x0F) with
    | none => exact .reservedOpcode hr ho
    | some opcode =>
      by_cases hw : rest.length < extendedWidth (byte1 &&& 0x7F)
      · exact .short hr ho hw
      · exact .whole hr ho (Nat.le_of_not_lt hw)
  · exact .reservedBits hr

/-- How a frame lies at the front of a buffer. -/
structure Layout (byte0 byte1 : UInt8) (rest : Bytes) (f : Frame) (n : Nat) : Prop where
  reserved : byte0 &&& 0x70 = 0
  opcode : Opcode.ofCode? (byte0 &&& 0x0F) = some f.opcode
  fin : f.fin = decide (byte0 &&& 0x80 ≠ 0)
  masked : f.masked = decide (byte1 &&& 0x80 ≠ 0)
  width : extendedWidth (byte1 &&& 0x7F) ≤ rest.length
  header : checkHeader f.fin f.opcode (announcedLength (byte1 &&& 0x7F)
    (rest.take (extendedWidth (byte1 &&& 0x7F)))) = .ok ()
  body : ∃ taken, n = 2 + extendedWidth (byte1 &&& 0x7F) + taken ∧
    parseBody f.masked (announcedLength (byte1 &&& 0x7F)
      (rest.take (extendedWidth (byte1 &&& 0x7F)))) (rest.drop (extendedWidth (byte1 &&& 0x7F))) =
        some (f.payload, taken)

theorem layout_of_parse {buf : Bytes} {f : Frame} {n : Nat} (h : parse buf = .ok (some (f, n))) :
    ∃ byte0 byte1 rest, buf = byte0 :: byte1 :: rest ∧ Layout byte0 byte1 rest f n := by
  match buf with
  | [] | [_] => cases h
  | byte0 :: byte1 :: rest =>
    refine ⟨byte0, byte1, rest, rfl, ?_⟩
    cases stage byte0 byte1 rest with
    | reservedBits hr =>
      rw [parse_of_reservedBits _ _ hr] at h
      cases h
    | reservedOpcode hr ho =>
      rw [parse_of_reservedOpcode _ _ hr ho] at h
      cases h
    | short hr ho hw =>
      rw [parse_cons_of_short hr ho hw] at h
      cases h
    | @whole opcode hr ho hw =>
      rw [parse_cons hr ho hw] at h
      cases hc : checkHeader (byte0 &&& 0x80 ≠ 0) opcode
          (announcedLength (byte1 &&& 0x7F) (rest.take (extendedWidth (byte1 &&& 0x7F)))) with
      | error m =>
        rw [hc] at h
        cases h
      | ok _ =>
        cases hb : parseBody (byte1 &&& 0x80 ≠ 0)
            (announcedLength (byte1 &&& 0x7F) (rest.take (extendedWidth (byte1 &&& 0x7F))))
            (rest.drop (extendedWidth (byte1 &&& 0x7F))) with
        | none =>
          rw [hc, hb] at h
          cases h
        | some body =>
          rw [hc, hb] at h
          cases h
          exact ⟨hr, ho, rfl, rfl, hw, hc, body.2, rfl, hb⟩

/-! ## The payload -/

theorem exists_key {rest : Bytes} (h : 4 ≤ rest.length) :
    ∃ (key : MaskKey) (hidden : Bytes), rest = key.toList ++ hidden := by
  match rest, h with
  | a :: b :: c :: d :: hidden, _ => exact ⟨⟨a, b, c, d⟩, hidden, rfl⟩

theorem parseBody_clear (length : Nat) (rest : Bytes) : parseBody false length rest =
    if rest.length < length then none else some (rest.take length, length) := by
  have hlt : (rest.take length).length < length ↔ rest.length < length := by
    rw [List.length_take]
    omega
  simp only [parseBody, Bool.false_eq_true, if_false, hlt]

theorem parseBody_masked (length : Nat) (key : MaskKey) (hidden : Bytes) :
    parseBody true length (key.toList ++ hidden) =
      if hidden.length < length then none
      else some (key.apply (hidden.take length), 4 + length) := by
  have hlt : (hidden.take length).length < length ↔ hidden.length < length := by
    rw [List.length_take]
    omega
  simp only [parseBody, if_true, MaskKey.toList, List.cons_append, List.nil_append, hlt]

theorem parseBody_of_short {rest : Bytes} (h : rest.length < 4) (length : Nat) :
    parseBody true length rest = none := by
  match rest, h with
  | [], _ | [_], _ | [_, _], _ | [_, _, _], _ => rfl

theorem parseBody_append {masked : Bool} {length : Nat} {rest : Bytes} {body : Bytes × Nat}
    (h : parseBody masked length rest = some body) (ext : Bytes) :
    parseBody masked length (rest ++ ext) = some body := by
  have hmore : ∀ bytes : Bytes, ¬bytes.length < length → ¬(bytes ++ ext).length < length ∧
      (bytes ++ ext).take length = bytes.take length := by
    intro bytes hb
    rw [List.length_append]
    exact ⟨by omega, List.take_append_of_le_length (Nat.le_of_not_lt hb)⟩
  cases masked with
  | false =>
    rw [parseBody_clear] at h ⊢
    split at h
    · cases h
    · next hlong =>
      obtain ⟨hmore, htake⟩ := hmore rest hlong
      rw [if_neg hmore, htake]
      exact h
  | true =>
    by_cases hkey : rest.length < 4
    · rw [parseBody_of_short hkey] at h
      cases h
    · obtain ⟨key, hidden, rfl⟩ := exists_key (Nat.le_of_not_lt hkey)
      rw [parseBody_masked] at h
      rw [List.append_assoc, parseBody_masked]
      split at h
      · cases h
      · next hlong =>
        obtain ⟨hmore, htake⟩ := hmore hidden hlong
        rw [if_neg hmore, htake]
        exact h

/-! ## More bytes -/

/-- A result that has been reached does not change when more bytes arrive. -/
theorem parse_append {buf : Bytes} (h : parse buf ≠ .ok none) (ext : Bytes) :
    parse (buf ++ ext) = parse buf := by
  match buf with
  | [] | [_] => exact absurd rfl h
  | byte0 :: byte1 :: rest =>
    cases stage byte0 byte1 rest with
    | reservedBits hr =>
      rw [List.cons_append, List.cons_append, parse_of_reservedBits _ _ hr,
        parse_of_reservedBits _ _ hr]
    | reservedOpcode hr ho =>
      rw [List.cons_append, List.cons_append, parse_of_reservedOpcode _ _ hr ho,
        parse_of_reservedOpcode _ _ hr ho]
    | short hr ho hw => exact absurd (parse_cons_of_short hr ho hw) h
    | @whole opcode hr ho hw =>
      rw [parse_cons hr ho hw] at h ⊢
      rw [List.cons_append, List.cons_append,
        parse_cons hr ho (by rw [List.length_append]; omega),
        List.take_append_of_le_length hw, List.drop_append_of_le_length hw]
      cases hc : checkHeader (byte0 &&& 0x80 ≠ 0) opcode
          (announcedLength (byte1 &&& 0x7F) (rest.take (extendedWidth (byte1 &&& 0x7F)))) with
      | error m => rfl
      | ok _ =>
        cases hb : parseBody (byte1 &&& 0x80 ≠ 0)
            (announcedLength (byte1 &&& 0x7F) (rest.take (extendedWidth (byte1 &&& 0x7F))))
            (rest.drop (extendedWidth (byte1 &&& 0x7F))) with
        | none =>
          rw [hc, hb] at h
          exact absurd rfl h
        | some body => rw [parseBody_append hb]

/-- A part of the bytes of a frame is incomplete: it is not malformed, and no shorter frame. -/
theorem parse_of_isPrefix_take {buf front : Bytes} {f : Frame} {n : Nat}
    (h : parse buf = .ok (some (f, n))) (hfront : front <+: buf.take n)
    (hne : front ≠ buf.take n) : parse front = .ok none := by
  by_cases hnone : parse front = .ok none
  · exact hnone
  · obtain ⟨rest, hrest⟩ := hfront.trans (List.take_prefix n buf)
    have hfound := parse_append hnone rest
    rw [hrest, h] at hfound
    -- What is found in the part is the whole frame, which takes more bytes than the part has.
    have htaken := (consumed_of_parse hfound.symm).2
    have hlength : (buf.take n).length ≤ front.length := by
      rw [List.length_take]
      omega
    exact absurd (hfront.eq_of_length_le hlength) hne

/-- A frame that has been found, or a rule that has been broken, is found again in the same way
whatever bytes follow. A frame of which a part has arrived is neither found nor malformed before all
of its bytes are there. -/
theorem parse_stable (buf : Bytes) :
    (parse buf ≠ .ok none → ∀ ext, parse (buf ++ ext) = parse buf) ∧
      ∀ f n, parse buf = .ok (some (f, n)) →
        ∀ front, front <+: buf.take n → front ≠ buf.take n → parse front = .ok none :=
  ⟨parse_append, fun _ _ h _ => parse_of_isPrefix_take h⟩

/-- The first fragment of a message, and the beginning of a ping behind it. -/
theorem parse_stable_fragment :
    let buf : Bytes := [0x01, 0x02, 0x48, 0x69, 0x89]
    let fragment : Frame := ⟨false, .text, false, [0x48, 0x69]⟩
    parse buf = .ok (some (fragment, 4)) ∧ (∀ ext, parse (buf ++ ext) = .ok (some (fragment, 4))) ∧
      parse [0x01, 0x02, 0x48] = .ok none := by
  intro buf fragment
  have hparse : parse buf = .ok (some (fragment, 4)) := by rfl
  have hfound : parse buf ≠ .ok none := by
    rw [hparse]
    nofun
  obtain ⟨hstable, hpart⟩ := parse_stable buf
  refine ⟨hparse, fun ext => (hstable hfound ext).trans hparse, ?_⟩
  exact hpart fragment 4 hparse [0x01, 0x02, 0x48] (by decide) (by decide)

end EchoLoad.Frame
