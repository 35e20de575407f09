import EchoLoad.Text.Blank
import EchoLoad.Text.Split
import Mathlib.Data.List.DropRight

/-!
# How a text is laid out

Each function that takes a text apart is set against a relation that says how the parts make up the
text.

* `Lined`: the lines of a text (`lines_eq_iff`). Every line feed ends a line, and one carriage return
  before it belongs to the end; the last line may do without.
* `Worded`: the words of a text, with blanks between them and around them (`words_eq_iff`).
* `Trimmed`: what is left of a text between the blanks at its ends (`trim_eq_iff`).
* A text is cut at its first colon, say, if there is none before the cut (`splitOnce?_eq_some_iff`),
  and what a text contains is a part of it in one piece (`contains_iff`).
-/

namespace EchoLoad.Text

/-! ## Lines -/

/-- The lines of a text. -/
inductive Lined : List Char → List (List Char) → Prop where
  | nil : Lined [] []
  | last {line : List Char} (hne : line ≠ []) (hline : '\n' ∉ line) : Lined line [line]
  | returned {line text : List Char} {ls : List (List Char)} (hline : '\n' ∉ line)
      (h : Lined text ls) : Lined (line ++ '\r' :: '\n' :: text) (line :: ls)
  | fed {line text : List Char} {ls : List (List Char)} (hline : '\n' ∉ line)
      (hreturn : line.getLast? ≠ some '\r') (h : Lined text ls) :
      Lined (line ++ '\n' :: text) (line :: ls)

theorem lines_eq_singleton {line : List Char} (hne : line ≠ []) (h : '\n' ∉ line) :
    lines line = [line] := by
  induction line with
  | nil => exact absurd rfl hne
  | cons c line ih =>
    rw [List.mem_cons, not_or] at h
    have hline : lines line = [] ∧ line = [] ∨ lines line = [line] := by
      by_cases hline : line = []
      · exact .inl ⟨by rw [hline, lines], hline⟩
      · exact .inr (ih hline h.2)
    rw [lines]
    · rcases hline with ⟨hlines, rfl⟩ | hlines
      · rw [hlines]
      · rw [hlines]
    · exact fun heq => h.1 heq.symm
    · rintro rest - rfl
      exact h.2 List.mem_cons_self

theorem lines_append_feed {line : List Char} (h : '\n' ∉ line)
    (hreturn : line.getLast? ≠ some '\r') (cs : List Char) :
    lines (line ++ '\n' :: cs) = line :: lines cs := by
  induction line with
  | nil => rfl
  | cons c line ih =>
    rw [List.mem_cons, not_or] at h
    have hlast : line.getLast? ≠ some '\r' := by
      intro hlast
      apply hreturn
      rw [List.getLast?_cons, hlast, Option.getD_some]
    rw [List.cons_append, lines, ih h.2 hlast]
    · exact fun heq => h.1 heq.symm
    · rintro rest rfl heq
      cases line with
      | nil => exact hreturn rfl
      | cons d line =>
        cases heq
        exact h.2 List.mem_cons_self

theorem lines_of_lined {text : List Char} {ls : List (List Char)} (h : Lined text ls) :
    lines text = ls := by
  induction h with
  | nil => rfl
  | last hne hline => exact lines_eq_singleton hne hline
  | returned hline h ih => rw [lines_append hline, ih]
  | fed hline hreturn h ih => rw [lines_append_feed hline hreturn, ih]

theorem Lined.eq_nil {text : List Char} (h : Lined text []) : text = [] := by
  cases h
  rfl

/-- A character in front of the first line, unless it is an end of this line. -/
theorem Lined.cons {c : Char} {cs line : List Char} {ls : List (List Char)}
    (h : Lined cs (line :: ls)) (hc : c ≠ '\n') (hend : c = '\r' → ∀ rest, cs ≠ '\n' :: rest) :
    Lined (c :: cs) ((c :: line) :: ls) := by
  have hcons {line : List Char} (hline : '\n' ∉ line) : '\n' ∉ c :: line := by
    rw [List.mem_cons, not_or]
    exact ⟨hc.symm, hline⟩
  cases h with
  | last hne hline => exact .last (List.cons_ne_nil _ _) (hcons hline)
  | returned hline h => exact .returned (hcons hline) h
  | fed hline hreturn h =>
    refine .fed (hcons hline) ?_ h
    intro hlast
    cases line with
    | nil => exact hend (Option.some.inj hlast) _ rfl
    | cons d line =>
      rw [List.getLast?_cons_cons] at hlast
      exact hreturn hlast

theorem lined_lines (text : List Char) : Lined text (lines text) := by
  fun_induction lines text with
  | case1 => exact .nil
  | case2 cs ih => exact .fed List.not_mem_nil (by simp) ih
  | case3 cs ih => exact .returned List.not_mem_nil ih
  | case4 c cs hfeed hend hnone ih =>
    rw [hnone] at ih
    obtain rfl := ih.eq_nil
    refine .last (List.cons_ne_nil _ _) ?_
    intro hmem
    exact hfeed (List.mem_singleton.mp hmem).symm
  | case5 c cs hfeed hend line rest hlines ih =>
    rw [hlines] at ih
    exact ih.cons hfeed fun hc rest hcs => hend rest hc hcs

theorem lines_eq_iff {text : List Char} {ls : List (List Char)} : lines text = ls ↔ Lined text ls := by
  constructor
  · rintro rfl
    exact lined_lines text
  · exact lines_of_lined

/-! ## Blanks and words -/

/-- There are no other characters than blanks. -/
def Blank (cs : List Char) : Prop := ∀ c ∈ cs, isBlank c = true

theorem Blank.cons {c : Char} {cs : List Char} (hc : isBlank c = true) (h : Blank cs) :
    Blank (c :: cs) := by
  intro d hd
  rcases List.mem_cons.mp hd with rfl | hd
  · exact hc
  · exact h d hd

/-- `core` is the text without the blanks at its ends. -/
structure Trimmed (cs core : List Char) : Prop where
  around : ∃ front back, Blank front ∧ Blank back ∧ cs = front ++ core ++ back
  first : ∀ c rest, core = c :: rest → isBlank c = false
  last : ∀ rest c, core = rest ++ [c] → isBlank c = false

theorem trim_of_trimmed {cs core : List Char} (h : Trimmed cs core) : trim cs = core := by
  obtain ⟨⟨front, back, hfront, hback, rfl⟩, hfirst, hlast⟩ := h
  have hdrop : (front ++ core ++ back).dropWhile isBlank = (core ++ back).dropWhile isBlank := by
    rw [List.append_assoc, List.dropWhile_append_of_pos hfront]
  unfold trim
  cases core with
  | nil =>
    rw [hdrop, List.nil_append, List.dropWhile_eq_nil_iff.mpr hback]
    rfl
  | cons c core =>
    have hc : ¬ isBlank c = true := by
      rw [hfirst c core rfl]
      exact Bool.false_ne_true
    have hcore : (c :: core).rdropWhile isBlank = c :: core := by
      rw [List.rdropWhile_eq_self_iff]
      intro hne
      rw [hlast _ _ (List.dropLast_concat_getLast hne).symm]
      exact Bool.false_ne_true
    rw [hdrop, List.cons_append, List.dropWhile_cons_of_neg hc, ← List.cons_append,
      List.reverse_append, List.dropWhile_append_of_pos]
    · exact hcore
    · intro d hd
      exact hback d (List.mem_reverse.mp hd)

theorem trimmed_trim (cs : List Char) : Trimmed cs (trim cs) := by
  have htrim : trim cs = (cs.dropWhile isBlank).rdropWhile isBlank := rfl
  refine ⟨⟨cs.takeWhile isBlank, (cs.dropWhile isBlank).rtakeWhile isBlank, ?_, ?_, ?_⟩, ?_, ?_⟩
  · intro c hc
    exact List.mem_takeWhile_imp hc
  · intro c hc
    exact List.mem_rtakeWhile_imp hc
  · rw [htrim, List.append_assoc, List.rdropWhile_append_rtakeWhile,
      List.takeWhile_append_dropWhile]
  · intro c rest hcore
    obtain ⟨back, hback⟩ : trim cs <+: cs.dropWhile isBlank := List.rdropWhile_prefix _ _
    have hhead := List.head?_dropWhile_not isBlank cs
    rw [← hback, hcore] at hhead
    exact hhead
  · intro rest c hcore
    have hne : (cs.dropWhile isBlank).rdropWhile isBlank ≠ [] := by
      rw [← htrim, hcore]
      simp
    have hlast := List.rdropWhile_last_not isBlank _ hne
    simp only [← htrim, hcore, List.getLast_append_singleton] at hlast
    simpa using hlast

theorem trim_eq_iff {cs core : List Char} : trim cs = core ↔ Trimmed cs core := by
  constructor
  · rintro rfl
    exact trimmed_trim cs
  · exact trim_of_trimmed

/-- The words of a text: they hold no blanks, and there are blanks between them. -/
inductive Worded : List Char → List (List Char) → Prop where
  | blank {cs : List Char} (h : Blank cs) : Worded cs []
  | word {before word after : List Char} {ws : List (List Char)} (hbefore : Blank before)
      (hne : word ≠ []) (hword : ∀ c ∈ word, isBlank c = false)
      (hafter : ∀ c rest, after = c :: rest → isBlank c = true) (h : Worded after ws) :
      Worded (before ++ word ++ after) (word :: ws)

theorem words_cons (c : Char) (cs : List Char) :
    words (c :: cs) =
      if isBlank c then words cs
      else match cs, words cs with
        | d :: _, word :: rest => if isBlank d then [c] :: word :: rest else (c :: word) :: rest
        | _, rest => [c] :: rest := rfl

theorem words_append_of_blank {before : List Char} (h : Blank before) (cs : List Char) :
    words (before ++ cs) = words cs := by
  induction before with
  | nil => rfl
  | cons c before ih =>
    rw [List.cons_append, words_cons, if_pos (h c List.mem_cons_self)]
    exact ih fun d hd => h d (List.mem_cons_of_mem c hd)

theorem words_of_blank {cs : List Char} (h : Blank cs) : words cs = [] := by
  rw [← List.append_nil cs, words_append_of_blank h]
  rfl

theorem words_append {word after : List Char} (hne : word ≠ [])
    (hword : ∀ c ∈ word, isBlank c = false)
    (hafter : ∀ c rest, after = c :: rest → isBlank c = true) :
    words (word ++ after) = word :: words after := by
  induction word with
  | nil => exact absurd rfl hne
  | cons c word ih =>
    have hc : ¬ isBlank c = true := by
      rw [hword c List.mem_cons_self]
      exact Bool.false_ne_true
    rw [List.cons_append, words_cons, if_neg hc]
    cases word with
    | nil =>
      cases after with
      | nil => rfl
      | cons d after =>
        rw [List.nil_append]
        cases words (d :: after) with
        | nil => rfl
        | cons next rest => simp only [if_pos (hafter d after rfl)]
    | cons d word =>
      have hd : ¬ isBlank d = true := by
        rw [hword d (by simp)]
        exact Bool.false_ne_true
      rw [ih (List.cons_ne_nil _ _) fun e he => hword e (List.mem_cons_of_mem c he)]
      simp only [List.cons_append, if_neg hd]

theorem words_of_worded {cs : List Char} {ws : List (List Char)} (h : Worded cs ws) :
    words cs = ws := by
  induction h with
  | blank h => exact words_of_blank h
  | word hbefore hne hword hafter h ih =>
    rw [List.append_assoc, words_append_of_blank hbefore, words_append hne hword hafter, ih]

theorem Worded.eq_blank {cs : List Char} (h : Worded cs []) : Blank cs := by
  cases h with
  | blank h => exact h

/-- A blank in front of the words. -/
theorem Worded.cons_blank {c : Char} {cs : List Char} {ws : List (List Char)} (h : Worded cs ws)
    (hc : isBlank c = true) : Worded (c :: cs) ws := by
  cases h with
  | blank h => exact .blank (h.cons hc)
  | word hbefore hne hword hafter h => exact .word (hbefore.cons hc) hne hword hafter h

/-- A word of one character in front of a text that begins with a blank, if with anything. -/
theorem Worded.after {c : Char} {cs : List Char} {ws : List (List Char)} (h : Worded cs ws)
    (hc : isBlank c = false) (hcs : ∀ d rest, cs = d :: rest → isBlank d = true) :
    Worded (c :: cs) ([c] :: ws) := by
  show Worded ([] ++ [c] ++ cs) _
  refine .word (by simp [Blank]) (List.cons_ne_nil c []) ?_ hcs h
  intro d hd
  rw [List.mem_singleton.mp hd]
  exact hc

/-- One more character in front of the first word. -/
theorem Worded.cons {c d : Char} {cs word : List Char} {ws : List (List Char)}
    (h : Worded (d :: cs) (word :: ws)) (hc : isBlank c = false) (hd : isBlank d = false) :
    Worded (c :: d :: cs) ((c :: word) :: ws) := by
  generalize htext : d :: cs = text at h
  cases h with
  | @word before _ after _ hbefore hne hword hafter h =>
    cases before with
    | nil =>
      show Worded ([] ++ (c :: word) ++ after) _
      refine .word hbefore (List.cons_ne_nil c word) ?_ hafter h
      intro e he
      rcases List.mem_cons.mp he with rfl | he
      · exact hc
      · exact hword e he
    | cons e before =>
      obtain rfl : d = e := (List.cons.inj htext).1
      rw [hbefore d List.mem_cons_self] at hd
      cases hd

theorem worded_words (cs : List Char) : Worded cs (words cs) := by
  fun_induction words cs with
  | case1 => exact .blank (by simp [Blank])
  | case2 c cs hc ih => exact ih.cons_blank hc
  | case3 c hc d cs word rest hd hwords ih =>
    rw [hwords] at ih ⊢
    simp only [if_pos hd]
    refine ih.after (by simpa using hc) ?_
    rintro e rest heq
    cases heq
    exact hd
  | case4 c hc d cs word rest hd hwords ih =>
    rw [hwords] at ih ⊢
    simp only [if_neg hd]
    exact ih.cons (by simpa using hc) (by simpa using hd)
  | case5 c cs hc hnone ih =>
    cases cs with
    | nil => exact ih.after (by simpa using hc) (by simp)
    | cons d cs =>
      cases hwords : words (d :: cs) with
      | nil =>
        rw [hwords] at ih
        refine ih.after (by simpa using hc) ?_
        rintro e rest heq
        cases heq
        exact ih.eq_blank d List.mem_cons_self
      | cons word rest => exact absurd hwords (hnone d cs word rest rfl)

theorem words_eq_iff {cs : List Char} {ws : List (List Char)} : words cs = ws ↔ Worded cs ws := by
  constructor
  · rintro rfl
    exact worded_words cs
  · exact words_of_worded

/-! ## Parts -/

theorem splitOnce?_append {p : Char → Bool} {before : List Char} {c : Char}
    (h : ∀ x ∈ before, p x = false) (hc : p c = true) (after : List Char) :
    splitOnce? p (before ++ c :: after) = some (before, after) := by
  induction before with
  | nil => rw [List.nil_append, splitOnce?, if_pos hc]
  | cons d before ih =>
    have hd : ¬ p d = true := by
      rw [h d List.mem_cons_self]
      exact Bool.false_ne_true
    rw [List.cons_append, splitOnce?, if_neg hd, ih fun x hx => h x (List.mem_cons_of_mem d hx)]
    rfl

/-- The cut is at the first character of this kind. -/
theorem splitOnce?_eq_some_iff {c : Char} {cs before after : List Char} :
    splitOnce? (· == c) cs = some (before, after) ↔ cs = before ++ c :: after ∧ c ∉ before := by
  constructor
  · intro h
    obtain ⟨d, hd, hcs, hbefore⟩ := eq_of_splitOnce? h
    obtain rfl : d = c := by simpa using hd
    refine ⟨hcs, ?_⟩
    intro hmem
    simpa using hbefore d hmem
  · rintro ⟨rfl, hbefore⟩
    apply splitOnce?_append
    · intro x hx
      rw [beq_eq_false_iff_ne]
      rintro rfl
      exact hbefore hx
    · exact beq_self_eq_true c

theorem contains_iff {part cs : List Char} : contains part cs = true ↔ part <:+: cs := by
  induction cs with
  | nil => rw [contains, List.isEmpty_iff, List.infix_nil]
  | cons c cs ih =>
    rw [contains, Bool.or_eq_true, List.isPrefixOf_iff_prefix, ih, List.infix_cons_iff]

end EchoLoad.Text
