import EchoLoad.Text.Lower
import Mathlib.Data.List.Infix

/-!
# Lower case by any tables

The lower-case form of a character outside ASCII is looked up in tables, and it may depend on the
characters around it, as that of a sigma does at the end of a word. `LowersTo` leaves all this open.
It asks for the ASCII characters that `lowerChar` shows, and where it shows none there must be some
others.

A form and `lower` are then `Alike` (`LowersTo.alike`): no ASCII word tells them apart, neither by
being the text nor by standing in it. And how the ASCII letters of the text are written makes no
difference (`lower_map_toLower`).
-/

namespace EchoLoad.Text

/-- There are no other characters than those of ASCII. -/
def Ascii (cs : List Char) : Prop := ∀ c ∈ cs, c.toNat < 0x80

/-- There are characters, and none of them is one of ASCII. -/
structure Foreign (cs : List Char) : Prop where
  nonempty : cs ≠ []
  outside : ∀ c ∈ cs, 0x80 ≤ c.toNat

/-- A lower-case form of a text. -/
inductive LowersTo : List Char → List Char → Prop where
  | nil : LowersTo [] []
  | shown {cs form : List Char} (c : Char) (h : LowersTo cs form) :
      LowersTo (c :: cs) (lowerChar c ++ form)
  | foreign {c : Char} {cs part form : List Char} (hc : Foreign (lowerChar c))
      (hpart : Foreign part) (h : LowersTo cs form) : LowersTo (c :: cs) (part ++ form)

/-- No ASCII word tells the two texts apart. -/
structure Alike (cs ds : List Char) : Prop where
  eq_iff : ∀ word, Ascii word → (cs = word ↔ ds = word)
  prefix_iff : ∀ word, Ascii word → (word <+: cs ↔ word <+: ds)
  infix_iff : ∀ word, Ascii word → (word <:+: cs ↔ word <:+: ds)

section

variable {c : Char} {cs ds part word : List Char}

theorem Ascii.of_cons (h : Ascii (c :: cs)) : Ascii cs :=
  fun d hd => h d (List.mem_cons_of_mem c hd)

theorem Foreign.prefix_iff (h : Foreign part) (hword : Ascii word) :
    word <+: part ++ cs ↔ word = [] := by
  constructor
  · intro hbegin
    obtain ⟨c, rest, rfl⟩ := List.exists_cons_of_ne_nil h.nonempty
    cases word with
    | nil => rfl
    | cons d word =>
      rw [List.cons_append, List.cons_prefix_cons] at hbegin
      have hc := h.outside c List.mem_cons_self
      have hd := hword d List.mem_cons_self
      rw [hbegin.1] at hd
      omega
  · rintro rfl
    exact List.nil_prefix

theorem Foreign.append_ne (h : Foreign part) (hword : Ascii word) : part ++ cs ≠ word := by
  rintro rfl
  have hbegin := (h.prefix_iff hword).mp (List.prefix_refl (part ++ cs))
  exact h.nonempty (List.append_eq_nil_iff.mp hbegin).1

/-- A word does not begin outside ASCII. -/
theorem infix_append_iff_of_outside (h : ∀ c ∈ part, 0x80 ≤ c.toNat) (hword : Ascii word) :
    word <:+: part ++ cs ↔ word <:+: cs := by
  by_cases hempty : word = []
  · rw [hempty]
    exact iff_of_true List.nil_infix List.nil_infix
  induction part with
  | nil => rfl
  | cons c part ih =>
    have hhere : ¬ word <+: c :: (part ++ cs) := by
      have hforeign : Foreign (c :: part) := ⟨List.cons_ne_nil c part, h⟩
      rw [← List.cons_append, hforeign.prefix_iff hword]
      exact hempty
    rw [List.cons_append, List.infix_cons_iff, or_iff_right hhere]
    exact ih fun d hd => h d (List.mem_cons_of_mem c hd)

theorem Alike.refl (cs : List Char) : Alike cs cs :=
  ⟨fun _ _ => .rfl, fun _ _ => .rfl, fun _ _ => .rfl⟩

theorem Alike.cons (h : Alike cs ds) (c : Char) : Alike (c :: cs) (c :: ds) := by
  have hbegin : ∀ word, Ascii word → (word <+: c :: cs ↔ word <+: c :: ds) := by
    intro word hword
    cases word with
    | nil => exact iff_of_true List.nil_prefix List.nil_prefix
    | cons d word =>
      rw [List.cons_prefix_cons, List.cons_prefix_cons, h.prefix_iff word hword.of_cons]
  refine ⟨?_, hbegin, ?_⟩
  · intro word hword
    cases word with
    | nil => simp
    | cons d word => rw [List.cons.injEq, List.cons.injEq, h.eq_iff word hword.of_cons]
  · intro word hword
    rw [List.infix_cons_iff, List.infix_cons_iff, hbegin word hword, h.infix_iff word hword]

theorem Alike.append (h : Alike cs ds) (front : List Char) : Alike (front ++ cs) (front ++ ds) := by
  induction front with
  | nil => exact h
  | cons c front ih => exact ih.cons c

/-- What stands outside ASCII may be exchanged. -/
theorem Alike.foreign {part' : List Char} (h : Alike cs ds) (hpart : Foreign part)
    (hpart' : Foreign part') : Alike (part ++ cs) (part' ++ ds) := by
  refine ⟨?_, ?_, ?_⟩
  · intro word hword
    exact iff_of_false (hpart.append_ne hword) (hpart'.append_ne hword)
  · intro word hword
    rw [hpart.prefix_iff hword, hpart'.prefix_iff hword]
  · intro word hword
    rw [infix_append_iff_of_outside hpart.outside hword,
      infix_append_iff_of_outside hpart'.outside hword, h.infix_iff word hword]

theorem LowersTo.alike {form : List Char} (h : LowersTo cs form) : Alike form (lower cs) := by
  induction h with
  | nil => exact .refl []
  | shown c h ih => exact ih.append (lowerChar c)
  | foreign hc hpart h ih => exact ih.foreign hpart hc

/-- `lower` is such a form. -/
theorem lowersTo_lower (cs : List Char) : LowersTo cs (lower cs) := by
  induction cs with
  | nil => exact .nil
  | cons c cs ih => exact .shown c ih

end

/-! ## The case of ASCII letters -/

theorem toLower_of_outside {c : Char} (h : 0x80 ≤ c.toNat) : c.toLower = c := by
  unfold Char.toLower
  rw [dif_neg]
  rintro ⟨-, hle⟩
  have hnat : c.toNat ≤ 90 := hle
  omega

theorem lowerChar_toLower (c : Char) : lowerChar c.toLower = lowerChar c := by
  by_cases hc : c.toNat < 0x80
  · have hall : ∀ n < 0x80, lowerChar (Char.ofNat n).toLower = lowerChar (Char.ofNat n) := by
      decide +kernel
    rw [← Char.ofNat_toNat c]
    exact hall c.toNat hc
  · rw [toLower_of_outside (Nat.le_of_not_lt hc)]

theorem lower_map_toLower (cs : List Char) : lower (cs.map Char.toLower) = lower cs := by
  rw [lower, List.flatMap_map]
  simp only [lowerChar_toLower]
  rfl

end EchoLoad.Text
