/-!
# Splitting text

Text under analysis is a list of characters.

* `splitOn p` cuts at every character that satisfies `p`.
* `lines` cuts after every line feed, and drops a carriage return that stands right before it. A
  last line needs no line feed, and keeps its carriage return then.
* `splitOnce? p` cuts at the first such character only.
-/

namespace EchoLoad.Text

/-- The pieces between the characters that satisfy `p`. -/
def splitOn (p : Char → Bool) : List Char → List (List Char)
  | [] => [[]]
  | c :: cs =>
    if p c then [] :: splitOn p cs
    else match splitOn p cs with
      | [] => [[c]]
      | piece :: pieces => (c :: piece) :: pieces

/-- The text before and after the first character that satisfies `p`, if there is one. -/
def splitOnce? (p : Char → Bool) : List Char → Option (List Char × List Char)
  | [] => none
  | c :: cs =>
    if p c then some ([], cs)
    else (splitOnce? p cs).map fun (before, after) => (c :: before, after)

/-- The lines of a text without their ends. -/
def lines : List Char → List (List Char)
  | [] => []
  | '\n' :: cs => [] :: lines cs
  | '\r' :: '\n' :: cs => [] :: lines cs
  | c :: cs => match lines cs with
    | [] => [[c]]
    | line :: rest => (c :: line) :: rest

/-- Whether `part` stands somewhere in `cs`. -/
def contains (part : List Char) : List Char → Bool
  | [] => part.isEmpty
  | c :: cs => part.isPrefixOf (c :: cs) || contains part cs

theorem lines_append {line : List Char} (h : '\n' ∉ line) (cs : List Char) :
    lines (line ++ '\r' :: '\n' :: cs) = line :: lines cs := by
  induction line with
  | nil => rfl
  | cons c line ih =>
    rw [List.mem_cons, not_or] at h
    rw [List.cons_append, lines, ih h.2]
    · exact fun heq => h.1 heq.symm
    · rintro rest rfl heq
      cases line with
      | nil => cases heq
      | cons d line =>
        cases heq
        exact h.2 List.mem_cons_self

/-- Lines that have been ended are found again. -/
theorem lines_flatMap {ls : List (List Char)} (h : ∀ line ∈ ls, '\n' ∉ line) :
    lines (ls.flatMap (· ++ ['\r', '\n'])) = ls := by
  induction ls with
  | nil => rfl
  | cons line ls ih =>
    have hrest := ih fun line hline => h line (List.mem_cons_of_mem _ hline)
    rw [List.flatMap_cons, List.append_assoc, List.cons_append, List.cons_append, List.nil_append,
      lines_append (h line List.mem_cons_self), hrest]

theorem eq_of_splitOnce? {p : Char → Bool} {cs before after : List Char}
    (h : splitOnce? p cs = some (before, after)) :
    ∃ c, p c = true ∧ cs = before ++ c :: after ∧ ∀ x ∈ before, p x = false := by
  induction cs generalizing before with
  | nil => simp [splitOnce?] at h
  | cons c cs ih =>
    unfold splitOnce? at h
    split at h
    · next hc =>
      cases h
      exact ⟨c, hc, rfl, by simp⟩
    · next hc =>
      obtain ⟨⟨b, a⟩, hba, heq⟩ := Option.map_eq_some_iff.1 h
      cases heq
      obtain ⟨d, hd, rfl, hall⟩ := ih hba
      refine ⟨d, hd, rfl, ?_⟩
      intro x hx
      cases List.mem_cons.1 hx with
      | inl hxc => simpa [hxc] using hc
      | inr hxb => exact hall x hxb

end EchoLoad.Text
