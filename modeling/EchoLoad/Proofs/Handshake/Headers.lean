import EchoLoad.Handshake.Response
import EchoLoad.Proofs.Text.Layout
import EchoLoad.Proofs.Text.LowerCase
import Mathlib.Data.List.Induction

/-!
# What the headers say

A line with a colon is a header (`Field`): its label stands before the first colon and its value
behind it, without the blanks around them. The label in lower case is the name, and any tables will
do for this (`low`, see `Text.LowersTo`), since the names that are looked up are ASCII words.

What a head says of a name is the value of its last header of this name (`Says`). This is what
`lookup?` finds (`lookup?_eq_iff`). It stays the same if the head is varied (`lookup?_of_varied`): if
headers of distinct names change their places, the letters of a label change their case, or there are
headers of other names.
-/

namespace EchoLoad.Handshake

/-- A line with its label and its value. -/
inductive Field : List Char → List Char → List Char → Prop where
  | mk {before after label value : List Char} (hbefore : ':' ∉ before)
      (hlabel : Text.Trimmed before label) (hvalue : Text.Trimmed after value) :
      Field (before ++ ':' :: after) label value

section

variable {line label value : List Char}

theorem field_iff :
    Field line label value ↔
      ∃ before after, Text.splitOnce? (· == ':') line = some (before, after) ∧
        Text.trim before = label ∧ Text.trim after = value := by
  constructor
  · intro h
    cases h with
    | mk hbefore hlabel hvalue =>
      exact ⟨_, _, Text.splitOnce?_eq_some_iff.mpr ⟨rfl, hbefore⟩, Text.trim_eq_iff.mpr hlabel,
        Text.trim_eq_iff.mpr hvalue⟩
  · rintro ⟨before, after, hcut, rfl, rfl⟩
    obtain ⟨rfl, hbefore⟩ := Text.splitOnce?_eq_some_iff.mp hcut
    exact .mk hbefore (Text.trim_eq_iff.mp rfl) (Text.trim_eq_iff.mp rfl)

theorem Field.label_eq {label' value' : List Char} (h : Field line label value)
    (h' : Field line label' value') : label = label' := by
  obtain ⟨before, after, hcut, rfl, -⟩ := field_iff.mp h
  obtain ⟨before', after', hcut', rfl, -⟩ := field_iff.mp h'
  rw [hcut] at hcut'
  cases hcut'
  rfl

theorem header?_of_field (h : Field line label value) :
    header? line = some (Text.lower label, value) := by
  obtain ⟨before, after, hcut, rfl, rfl⟩ := field_iff.mp h
  rw [header?, hcut]
  rfl

theorem header?_eq_some_iff {name : List Char} :
    header? line = some (name, value) ↔
      ∃ label, Field line label value ∧ Text.lower label = name := by
  constructor
  · intro h
    obtain ⟨⟨before, after⟩, hcut, heq⟩ := Option.map_eq_some_iff.mp h
    cases heq
    exact ⟨_, field_iff.mpr ⟨before, after, hcut, rfl, rfl⟩, rfl⟩
  · rintro ⟨label, hfield, rfl⟩
    exact header?_of_field hfield

end

section

variable (low : List Char → List Char)

/-- The line is a header of this name and value. -/
def IsHeader (line : List Char) (name : String) (value : List Char) : Prop :=
  ∃ label, Field line label value ∧ low label = name.toList

/-- The line is a header of this name. -/
def Names (line : List Char) (name : String) : Prop := ∃ value, IsHeader low line name value

/-- The value of the last header of this name, if there is one. -/
inductive Says (name : String) : List (List Char) → Option (List Char) → Prop where
  | nothing {head : List (List Char)} (h : ∀ line ∈ head, ¬ Names low line name) :
      Says name head none
  | last {front back : List (List Char)} {line value : List Char}
      (hline : IsHeader low line name value) (hback : ∀ line ∈ back, ¬ Names low line name) :
      Says name (front ++ line :: back) (some value)

/-- The lines are not headers of one name. -/
def Apart (line line' : List Char) : Prop :=
  ∀ name, Names low line name → ¬ Names low line' name

/-- The same header, but for the case of ASCII letters in its label and for blanks. -/
def Respelled (line line' : List Char) : Prop :=
  ∃ label label' value, Field line label value ∧ Field line' label' value ∧
    label'.map Char.toLower = label.map Char.toLower

/-- The second head comes from the first one by changes that are of no interest to those who ask for
these names. -/
inductive Varied (names : List String) : List (List Char) → List (List Char) → Prop where
  | refl (head : List (List Char)) : Varied names head head
  | trans {head head' head'' : List (List Char)} (h : Varied names head head')
      (h' : Varied names head' head'') : Varied names head head''
  | reorder (front back : List (List Char)) {block block' : List (List Char)}
      (hperm : block.Perm block') (happart : block.Pairwise (Apart low)) :
      Varied names (front ++ block ++ back) (front ++ block' ++ back)
  | respell (front back : List (List Char)) {line line' : List Char} (h : Respelled line line') :
      Varied names (front ++ line :: back) (front ++ line' :: back)
  | add (front back : List (List Char)) {line : List Char}
      (h : ∀ name ∈ names, ¬ Names low line name) :
      Varied names (front ++ back) (front ++ line :: back)

end

section

variable {low : List Char → List Char} {line label value : List Char}

theorem Field.not_names {name : String} (h : Field line label value)
    (hne : low label ≠ name.toList) : ¬ Names low line name := by
  rintro ⟨value', label', hfield, hlabel⟩
  rw [hfield.label_eq h] at hlabel
  exact hne hlabel

theorem Field.apart {line' label' value' : List Char} (h : Field line label value)
    (h' : Field line' label' value') (hne : low label ≠ low label') : Apart low line line' := by
  rintro name ⟨value'', label'', hfield, hlabel⟩
  apply h'.not_names
  rw [← hlabel, hfield.label_eq h]
  exact hne.symm

end

/-! ## Looking up -/

theorem lookup?_append (name : String) (front back : List Header) :
    lookup? name (front ++ back) = (lookup? name back).or (lookup? name front) := by
  simp only [lookup?, List.reverse_append, List.find?_append, Option.map_or]

theorem lookup?_singleton (name : String) (value : List Char) :
    lookup? name [(name.toList, value)] = some value := by
  simp [lookup?]

theorem lookup?_eq_none_iff {name : String} {hs : List Header} :
    lookup? name hs = none ↔ ∀ value, (name.toList, value) ∉ hs := by
  rw [lookup?, Option.map_eq_none_iff, List.find?_eq_none]
  constructor
  · intro h value hmem
    exact h _ (List.mem_reverse.mpr hmem) (beq_self_eq_true _)
  · rintro h ⟨name', value⟩ hmem hname
    obtain rfl : name' = name.toList := by simpa using hname
    exact h value (List.mem_reverse.mp hmem)

/-! ## The last header of a name -/

section

variable {low : List Char → List Char} {name : String}

theorem isHeader_iff (hlow : ∀ cs, Text.LowersTo cs (low cs)) (hname : Text.Ascii name.toList)
    {line value : List Char} :
    IsHeader low line name value ↔ header? line = some (name.toList, value) := by
  rw [header?_eq_some_iff]
  apply exists_congr
  intro label
  rw [(hlow label).alike.eq_iff _ hname]

/-- Nothing is found exactly if no line is a header of this name. -/
theorem lookup?_eq_none_iff_not_names (hlow : ∀ cs, Text.LowersTo cs (low cs))
    (hname : Text.Ascii name.toList) {head : List (List Char)} :
    lookup? name (head.filterMap header?) = none ↔ ∀ line ∈ head, ¬ Names low line name := by
  simp only [lookup?_eq_none_iff, List.mem_filterMap, Names, isHeader_iff hlow hname]
  constructor
  · rintro h line hline ⟨value, hvalue⟩
    exact h value ⟨line, hline, hvalue⟩
  · rintro h value ⟨line, hline, hvalue⟩
    exact h line hline ⟨value, hvalue⟩

theorem lookup?_of_says (hlow : ∀ cs, Text.LowersTo cs (low cs)) (hname : Text.Ascii name.toList)
    {head : List (List Char)} {said : Option (List Char)} (h : Says low name head said) :
    lookup? name (head.filterMap header?) = said := by
  cases h with
  | nothing h => exact (lookup?_eq_none_iff_not_names hlow hname).mpr h
  | last hline hback =>
    rw [List.filterMap_append, List.filterMap_cons_some ((isHeader_iff hlow hname).mp hline),
      ← List.singleton_append, lookup?_append, lookup?_append,
      (lookup?_eq_none_iff_not_names hlow hname).mpr hback, lookup?_singleton]
    rfl

/-- One more line, which is not a header of this name. -/
theorem Says.concat {head : List (List Char)} {line : List Char} {said : Option (List Char)}
    (h : Says low name head said) (hline : ¬ Names low line name) :
    Says low name (head ++ [line]) said := by
  have hall : ∀ {lines : List (List Char)}, (∀ l ∈ lines, ¬ Names low l name) →
      ∀ l ∈ lines ++ [line], ¬ Names low l name := by
    intro lines hlines l hl
    rcases List.mem_append.mp hl with hl | hl
    · exact hlines l hl
    · rw [List.mem_singleton.mp hl]
      exact hline
  cases h with
  | nothing h => exact .nothing (hall h)
  | last hlast hback =>
    rw [List.append_assoc]
    exact .last hlast (hall hback)

/-- Every head says something of every name: by the line that has come last, if this is a header of
the name, and otherwise by the lines before it. -/
theorem exists_says (low : List Char → List Char) (name : String) (head : List (List Char)) :
    ∃ said, Says low name head said := by
  induction head using List.reverseRecOn with
  | nil => exact ⟨none, .nothing (by simp)⟩
  | append_singleton head line ih =>
    by_cases hline : Names low line name
    · obtain ⟨value, hvalue⟩ := hline
      exact ⟨some value, .last hvalue (by simp)⟩
    · obtain ⟨said, hsaid⟩ := ih
      exact ⟨said, hsaid.concat hline⟩

theorem lookup?_eq_iff (hlow : ∀ cs, Text.LowersTo cs (low cs)) (hname : Text.Ascii name.toList)
    {head : List (List Char)} {said : Option (List Char)} :
    lookup? name (head.filterMap header?) = said ↔ Says low name head said := by
  constructor
  · intro h
    obtain ⟨said', hsaid⟩ := exists_says low name head
    rwa [← h, lookup?_of_says hlow hname hsaid]
  · exact lookup?_of_says hlow hname

/-! ## Varied heads -/

theorem Apart.symm {line line' : List Char} (h : Apart low line line') : Apart low line' line :=
  fun name hname' hname => h name hname hname'

/-- Of lines that are apart from each other, at most one is a header of this name. -/
theorem Says.perm {block block' : List (List Char)} {said : Option (List Char)}
    (h : Says low name block said) (hperm : block.Perm block')
    (happart : block.Pairwise (Apart low)) : Says low name block' said := by
  cases h with
  | nothing h =>
    apply Says.nothing
    intro line hline
    exact h line (hperm.mem_iff.mpr hline)
  | @last front back line value hline hback =>
    have hmem : line ∈ block' := hperm.mem_iff.mp (by simp)
    obtain ⟨front', back', rfl⟩ := List.append_of_mem hmem
    have happart' := happart.perm hperm Apart.symm
    have hcons := (List.pairwise_append.mp happart').2.1
    refine .last hline fun other hother hnames => ?_
    exact (List.pairwise_cons.mp hcons).1 other hother name ⟨value, hline⟩ hnames

theorem header?_of_respelled {line line' : List Char} (h : Respelled line line') :
    header? line' = header? line := by
  obtain ⟨label, label', value, hfield, hfield', hcase⟩ := h
  rw [header?_of_field hfield, header?_of_field hfield', ← Text.lower_map_toLower label', hcase,
    Text.lower_map_toLower]

theorem lookup?_of_varied (hlow : ∀ cs, Text.LowersTo cs (low cs)) (hname : Text.Ascii name.toList)
    {names : List String} {head head' : List (List Char)} (h : Varied low names head head')
    (hmem : name ∈ names) :
    lookup? name (head'.filterMap header?) = lookup? name (head.filterMap header?) := by
  induction h with
  | refl => rfl
  | trans h h' ih ih' => rw [ih', ih]
  | @reorder front back block block' hperm happart =>
    have hsaid := (lookup?_eq_iff hlow hname).mp (Eq.refl (lookup? name (block.filterMap header?)))
    have hblock := lookup?_of_says hlow hname (hsaid.perm hperm happart)
    simp only [List.filterMap_append, lookup?_append, hblock]
  | respell front back h =>
    rw [List.filterMap_append, List.filterMap_append, List.filterMap_cons, List.filterMap_cons,
      header?_of_respelled h]
  | @add front back line h =>
    have hnone : lookup? name ([line].filterMap header?) = none := by
      rw [lookup?_eq_none_iff_not_names hlow hname]
      intro other hother
      rw [List.mem_singleton.mp hother]
      exact h name hmem
    rw [← List.singleton_append]
    simp only [List.filterMap_append, lookup?_append, hnone, Option.or_none]

end

end EchoLoad.Handshake
