import EchoLoad.Proofs.Handshake.Head

/-!
# The lines of a head

A head is a row of lines, each with its line end, and an empty line behind them. Cut at every line
end (`splitLines`), it falls into the lines again, as long as no line holds a line end of its own
(`splitLines_joinLines`). If no line is empty either, then the first blank line is the last one, so
the head ends where it should (`endsAt_joinLines`).

The lines of a head are text. A text and its bytes hold the same line ends (`isInfix_encode_iff`).
-/

namespace EchoLoad.Handshake

/-- Carriage return and line feed. -/
def lineEnd : Bytes := [13, 10]

/-- The bytes between the line ends. -/
def splitLines : Bytes → List Bytes
  | [] => [[]]
  | 13 :: 10 :: bytes => [] :: splitLines bytes
  | b :: bytes => (splitLines bytes).modifyHead (b :: ·)

/-- Every line with its line end. -/
def joinLines (lines : List Bytes) : Bytes := lines.flatMap (· ++ lineEnd)

variable {bytes front line : Bytes} {lines : List Bytes}

theorem splitLines_ne_nil (bytes : Bytes) : splitLines bytes ≠ [] := by
  fun_induction splitLines bytes with
  | case1 => exact List.cons_ne_nil _ _
  | case2 => exact List.cons_ne_nil _ _
  | case3 b bytes hnot ih =>
    obtain ⟨line, lines, heq⟩ := List.exists_cons_of_ne_nil ih
    rw [heq]
    exact List.cons_ne_nil _ _

theorem splitLines_cons {b : UInt8} (h : ¬ lineEnd <+: b :: bytes) :
    splitLines (b :: bytes) = (splitLines bytes).modifyHead (b :: ·) := by
  rw [splitLines]
  rintro rest rfl rfl
  exact h ⟨rest, rfl⟩

/-- A line end separates what stands before it from what stands behind it. -/
theorem splitLines_append (front bytes : Bytes) :
    splitLines (front ++ lineEnd ++ bytes) = splitLines front ++ splitLines bytes := by
  fun_induction splitLines front with
  | case1 => rfl
  | case2 front ih => exact congrArg ([] :: ·) ih
  | case3 b front hnot ih =>
    have hcons : ¬ lineEnd <+: b :: (front ++ lineEnd ++ bytes) := by
      rintro ⟨rest, heq⟩
      cases front with
      | nil => cases heq
      | cons c front =>
        cases heq
        exact hnot _ rfl rfl
    obtain ⟨line, lines, heq⟩ := List.exists_cons_of_ne_nil (splitLines_ne_nil front)
    rw [List.cons_append, List.cons_append, splitLines_cons hcons, ih, heq]
    rfl

theorem splitLines_joinLines_append (lines : List Bytes) (bytes : Bytes) :
    splitLines (joinLines lines ++ bytes) = lines.flatMap splitLines ++ splitLines bytes := by
  induction lines with
  | nil => rfl
  | cons line lines ih =>
    show splitLines (line ++ lineEnd ++ joinLines lines ++ bytes) = _
    rw [List.append_assoc, splitLines_append, ih, List.flatMap_cons, List.append_assoc]

/-- What stands before the first carriage return belongs to the first line. -/
theorem splitLines_append_of_notMem (h : 13 ∉ front) (bytes : Bytes) :
    splitLines (front ++ bytes) = (splitLines bytes).modifyHead (front ++ ·) := by
  induction front with
  | nil =>
    obtain ⟨line, lines, heq⟩ := List.exists_cons_of_ne_nil (splitLines_ne_nil bytes)
    rw [List.nil_append, heq]
    rfl
  | cons b front ih =>
    rw [List.mem_cons, not_or] at h
    have hcons : ¬ lineEnd <+: b :: (front ++ bytes) := by
      rintro ⟨rest, heq⟩
      exact h.1 (List.cons.inj heq).1
    obtain ⟨line, lines, heq⟩ := List.exists_cons_of_ne_nil (splitLines_ne_nil bytes)
    rw [List.cons_append, splitLines_cons hcons, ih h.2, heq]
    rfl

/-- There is one line exactly if there is no line end. -/
theorem length_splitLines_eq_one_iff : (splitLines bytes).length = 1 ↔ ¬ lineEnd <:+: bytes := by
  fun_induction splitLines bytes with
  | case1 => decide
  | case2 bytes ih =>
    have hpos := List.length_pos_iff.mpr (splitLines_ne_nil bytes)
    constructor
    · intro h
      rw [List.length_cons] at h
      omega
    · exact fun h => absurd ⟨[], bytes, rfl⟩ h
  | case3 b bytes hnot ih =>
    have hhere : ¬ lineEnd <+: b :: bytes := by
      rintro ⟨rest, heq⟩
      cases heq
      exact hnot _ rfl rfl
    rw [List.length_modifyHead, ih, List.infix_cons_iff, not_or]
    exact ⟨fun h => ⟨hhere, h⟩, fun h => h.2⟩

/-- A line end does not begin before the first carriage return. -/
theorem isInfix_append_iff_of_notMem (h : 13 ∉ front) :
    lineEnd <:+: front ++ bytes ↔ lineEnd <:+: bytes := by
  have hnot : ¬ lineEnd <:+: front ++ bytes ↔ ¬ lineEnd <:+: bytes := by
    rw [← length_splitLines_eq_one_iff, ← length_splitLines_eq_one_iff,
      splitLines_append_of_notMem h, List.length_modifyHead]
  exact Decidable.not_iff_not.mp hnot

theorem splitLines_eq_self (h : ¬ lineEnd <:+: bytes) : splitLines bytes = [bytes] := by
  induction bytes with
  | nil => rfl
  | cons b bytes ih =>
    rw [List.infix_cons_iff, not_or] at h
    rw [splitLines_cons h.1, ih h.2]
    rfl

theorem flatMap_splitLines (h : ∀ line ∈ lines, ¬ lineEnd <:+: line) :
    lines.flatMap splitLines = lines := by
  induction lines with
  | nil => rfl
  | cons line lines ih =>
    rw [List.forall_mem_cons] at h
    rw [List.flatMap_cons, splitLines_eq_self h.1, ih h.2]
    rfl

/-- The lines that have been joined are found again. -/
theorem splitLines_joinLines (h : ∀ line ∈ lines, ¬ lineEnd <:+: line) (bytes : Bytes) :
    splitLines (joinLines lines ++ bytes) = lines ++ splitLines bytes := by
  rw [splitLines_joinLines_append, flatMap_splitLines h]

theorem eq_nil_of_splitLines (h : splitLines bytes = [[]]) : bytes = [] := by
  cases bytes with
  | nil => rfl
  | cons b bytes =>
    have hone : (splitLines (b :: bytes)).length = 1 := by rw [h]; rfl
    rw [splitLines_eq_self (length_splitLines_eq_one_iff.mp hone)] at h
    cases h

/-- Two line ends in a row are an empty line. -/
theorem splitLines_mark (front bytes : Bytes) :
    splitLines (front ++ headMark ++ bytes) = splitLines front ++ [] :: splitLines bytes := by
  have hmark : front ++ headMark ++ bytes = front ++ lineEnd ++ (lineEnd ++ bytes) := by
    simp only [headMark, lineEnd, List.append_assoc, List.cons_append, List.nil_append]
  rw [hmark, splitLines_append]
  rfl

theorem joinLines_append (front back : List Bytes) :
    joinLines (front ++ back) = joinLines front ++ joinLines back := List.flatMap_append

/-! ## Lines of text -/

theorem notMem_encode {cs : List Char} (h : '\r' ∉ cs) : 13 ∉ Utf8.encode cs := by
  intro hmem
  obtain ⟨c, hc, heq⟩ := Utf8.exists_of_mem_encode hmem (by decide)
  obtain rfl : c = '\r' := Char.toNat_inj.mp heq
  exact h hc

theorem not_isInfix_encode {cs : List Char} (h : '\r' ∉ cs) : ¬ lineEnd <:+: Utf8.encode cs :=
  fun hpart => notMem_encode h (hpart.subset List.mem_cons_self)

theorem isPrefix_encode_iff {cs : List Char} : [10] <+: Utf8.encode cs ↔ ['\n'] <+: cs := by
  constructor
  · rintro ⟨rest, hrest⟩
    cases cs with
    | nil => cases hrest
    | cons c cs =>
      obtain ⟨b, bs, hb⟩ := List.exists_cons_of_ne_nil (Utf8.utf8EncodeChar_ne_nil c)
      rw [Utf8.encode, List.flatMap_cons, hb] at hrest
      obtain rfl : 10 = b := (List.cons.inj hrest).1
      have heq : c.toNat = 10 :=
        Utf8.eq_of_mem_utf8EncodeChar (hb ▸ List.mem_cons_self) (by decide)
      obtain rfl : c = '\n' := Char.toNat_inj.mp heq
      exact ⟨cs, rfl⟩
  · rintro ⟨rest, rfl⟩
    exact ⟨Utf8.encode rest, rfl⟩

/-- A text holds a line end if its bytes do. -/
theorem isInfix_encode_iff {cs : List Char} :
    lineEnd <:+: Utf8.encode cs ↔ ['\r', '\n'] <:+: cs := by
  induction cs with
  | nil => decide
  | cons c cs ih =>
    have hencode : Utf8.encode (c :: cs) = String.utf8EncodeChar c ++ Utf8.encode cs := rfl
    rw [hencode, List.infix_cons_iff, ← ih]
    by_cases hc : c = '\r'
    · subst hc
      show lineEnd <:+: 13 :: Utf8.encode cs ↔ _
      rw [List.infix_cons_iff, lineEnd, List.cons_prefix_cons, List.cons_prefix_cons,
        isPrefix_encode_iff]
      simp
    · have hnot : 13 ∉ String.utf8EncodeChar c := by
        intro hmem
        have heq := Utf8.eq_of_mem_utf8EncodeChar hmem (by decide)
        exact hc (Char.toNat_inj.mp heq)
      have hhere : ¬ ['\r', '\n'] <+: c :: cs := fun h => hc (List.cons_prefix_cons.mp h).1.symm
      rw [isInfix_append_iff_of_notMem hnot, or_iff_right hhere]

/-- In a text, too, a line end does not begin before the first carriage return. -/
theorem isInfix_text_append_iff {front : List Char} (h : '\r' ∉ front) (cs : List Char) :
    ['\r', '\n'] <:+: front ++ cs ↔ ['\r', '\n'] <:+: cs := by
  rw [← isInfix_encode_iff, Utf8.encode_append, isInfix_append_iff_of_notMem (notMem_encode h),
    isInfix_encode_iff]

/-- Lines of text are encoded one by one. -/
theorem encode_flatMap (ls : List (List Char)) :
    Utf8.encode (ls.flatMap (· ++ ['\r', '\n'])) = joinLines (ls.map Utf8.encode) := by
  induction ls with
  | nil => rfl
  | cons line ls ih =>
    rw [List.flatMap_cons, Utf8.encode_append, Utf8.encode_append, ih]
    rfl

/-- Lines that are not empty and hold no line end make up a head with one blank line, at its end. -/
theorem endsAt_joinLines (hne : lines ≠ [])
    (h : ∀ line ∈ lines, line ≠ [] ∧ ¬ lineEnd <:+: line) :
    EndsAt (joinLines lines ++ lineEnd) (joinLines lines ++ lineEnd).length := by
  have hsplit : splitLines (joinLines lines ++ lineEnd) = lines ++ [[], []] :=
    splitLines_joinLines (fun line hline => (h line hline).2) lineEnd
  constructor
  · rw [List.take_length, ← List.dropLast_concat_getLast hne, joinLines_append]
    refine ⟨joinLines lines.dropLast ++ lines.getLast hne, ?_⟩
    simp [joinLines, headMark, lineEnd]
  · rintro i hi ⟨front, hfront⟩
    rw [← List.take_append_drop i (joinLines lines ++ lineEnd), ← hfront, splitLines_mark] at hsplit
    -- Behind the first empty piece there is the last one, so nothing is left behind the mark.
    have hlast : splitLines ((joinLines lines ++ lineEnd).drop i) = [[]] := by
      have hpos := List.length_pos_iff.mpr (splitLines_ne_nil ((joinLines lines ++ lineEnd).drop i))
      rcases List.append_eq_append_iff.mp hsplit with ⟨back, hlines, hrest⟩ | ⟨back, -, hrest⟩
      · cases back with
        | nil => exact (List.cons.inj hrest).2
        | cons line back =>
          have hempty : [] ∈ lines := by
            rw [hlines, ← (List.cons.inj hrest).1]
            exact List.mem_append_right _ List.mem_cons_self
          exact absurd rfl (h [] hempty).1
      · cases back with
        | nil => exact (List.cons.inj hrest).2.symm
        | cons line back =>
          have hlength := congrArg List.length hrest
          simp only [List.length_append, List.length_cons, List.length_nil] at hlength
          omega
    have hrest := congrArg List.length (eq_nil_of_splitLines hlast)
    rw [List.length_drop, List.length_nil] at hrest
    omega

end EchoLoad.Handshake
