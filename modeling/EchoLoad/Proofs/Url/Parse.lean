import EchoLoad.Proofs.Url.Law
import EchoLoad.Url.Parse

/-!
# The reader that runs is lawful

`Url.parse` meets what is asked of a reader (`lawful_parse`). Every domain has been checked for
spaces and line ends, numbers are written in digits, and everything else has passed through an
encode set that holds the space. A special URL is not read without a host, and the default port is
dropped where the port is read.
-/

namespace EchoLoad.Url

variable {cs : List Char} {set : EncodeSet}

namespace PlainText

theorem flatMap {α : Type} {xs : List α} {f : α → List Char} (h : ∀ x ∈ xs, PlainText (f x)) :
    PlainText (xs.flatMap f) := by
  intro c hc
  obtain ⟨x, hx, hc⟩ := List.mem_flatMap.mp hc
  exact h x hx c hc

theorem intercalate {separator : String} {parts : List String}
    (hseparator : PlainText separator.toList) (h : ∀ part ∈ parts, PlainText part.toList) :
    PlainText (separator.intercalate parts).toList := by
  induction parts with
  | nil =>
    rw [String.intercalate_nil]
    decide
  | cons part parts ih =>
    rw [List.forall_mem_cons] at h
    by_cases hnil : parts = []
    · rw [hnil, String.intercalate_singleton]
      exact h.1
    · rw [String.intercalate_cons_of_ne_nil hnil, String.toList_append, String.toList_append]
      exact (h.1.append hseparator).append (ih h.2)

end PlainText

/-! ## Encoded components -/

/-- Line ends come before the space. -/
theorem isPlain_of_lt {c : Char} (h : 0x20 < c.toNat) : IsPlain c := by
  refine ⟨?_, ?_, ?_⟩
  all_goals
    rintro rfl
    exact absurd h (by decide)

theorem isPlain_of_isKept (hset : set ' ' = true) {c : Char} (h : isKept set c = true) :
    IsPlain c := by
  simp only [isKept, Bool.and_eq_true, decide_eq_true_eq, Bool.not_eq_true'] at h
  obtain ⟨⟨hlow, -⟩, hfree⟩ := h
  have hspace : c.toNat ≠ 0x20 := by
    intro heq
    obtain rfl : c = ' ' := Char.toNat_inj.mp heq
    rw [hset] at hfree
    cases hfree
  have hlow : 0x20 ≤ c.toNat := hlow
  exact isPlain_of_lt (by omega)

/-- Encoding keeps no space if the encode set holds it. -/
theorem plainText_percentEncode (hset : set ' ' = true) (cs : List Char) :
    PlainText (percentEncode set cs) := by
  have hdigits : PlainText "0123456789ABCDEF".toList := by decide
  intro c hc
  rcases mem_percentEncode hc with hc | rfl | hc
  · exact isPlain_of_isKept hset hc
  · decide
  · exact hdigits c hc

/-! ## Paths -/

namespace Path

/-- All segments are plain. -/
def PlainSegments (segments : List (List Char)) : Prop :=
  ∀ segment ∈ segments, PlainText segment

variable {segments : List (List Char)}

theorem PlainSegments.nil : PlainSegments [] := List.forall_mem_nil _

theorem PlainSegments.cons {segment : List Char} (hsegment : PlainText segment)
    (h : PlainSegments segments) : PlainSegments (segment :: segments) :=
  List.forall_mem_cons.mpr ⟨hsegment, h⟩

theorem PlainSegments.shorten (h : PlainSegments segments) : PlainSegments (shorten segments) := by
  cases segments with
  | nil => exact h
  | cons segment older =>
    rw [Path.shorten]
    split
    · exact h
    · exact (List.forall_mem_cons.mp h).2

/-- A final dot leaves an empty segment behind. -/
theorem PlainSegments.close (h : PlainSegments segments) (final : Bool) :
    PlainSegments (if final then [] :: segments else segments) := by
  split
  · exact .cons .nil h
  · exact h

namespace Trail

theorem plain_add {t : Trail} (h : PlainSegments t.segments) (final : Bool) (written : List Char) :
    PlainSegments (add false final t written).segments := by
  rw [add_of_not_file]
  unfold push
  split
  · exact h.shorten.close final
  split
  · exact h.close final
  · exact .cons (plainText_percentEncode (by decide) _) h

theorem plain_addAll {t : Trail} (h : PlainSegments t.segments) (written : List (List Char)) :
    PlainSegments (addAll false t written).segments := by
  fun_induction addAll false t written with
  | case1 t => exact h
  | case2 t written => exact plain_add h true written
  | case3 t written rest hrest ih => exact ih (plain_add h false written)

theorem plainText_text {t : Trail} (h : PlainSegments t.segments) :
    PlainText (t.text false).toList := by
  have hslash : PlainText (t.segments.reverse.flatMap ('/' :: ·)) :=
    .flatMap fun segment hsegment => .cons (by decide) (h segment (List.mem_reverse.mp hsegment))
  rwa [text, if_neg Bool.false_ne_true, String.toList_ofList]

end Trail

end Path

theorem plainText_parsePath (scheme : String) (cs : List Char) :
    PlainText (parsePath scheme cs).toList := by
  unfold parsePath
  dsimp only
  split
  · decide
  · exact Path.Trail.plainText_text (Path.Trail.plain_addAll .nil _)

/-! ## Hosts -/

theorem isPlain_of_not_isForbiddenInDomain {c : Char} (h : Host.isForbiddenInDomain c = false) :
    IsPlain c := by
  simp only [Host.isForbiddenInDomain, Bool.or_eq_false_iff, decide_eq_false_iff_not] at h
  obtain ⟨⟨⟨hfree, hlow⟩, -⟩, -⟩ := h
  have hspace : c.toNat ≠ 0x20 := by
    intro heq
    obtain rfl : c = ' ' := Char.toNat_inj.mp heq
    exact absurd hfree (by decide)
  have hlow : ¬ c.toNat < 0x20 := hlow
  exact isPlain_of_lt (by omega)

theorem Ipv4.plainText_text (address : Nat) : PlainText (Ipv4.text address).toList := by
  refine .intercalate (by decide) fun part hpart => ?_
  obtain ⟨b, -, rfl⟩ := List.mem_map.mp hpart
  exact plainText_toString _

theorem Ipv6.plainText_joined (groups : List Nat) : PlainText (Ipv6.joined groups).toList := by
  refine .intercalate (by decide) fun part hpart => ?_
  obtain ⟨g, -, rfl⟩ := List.mem_map.mp hpart
  rw [String.toList_ofList]
  exact plainText_toDigits (by decide) g

theorem Ipv6.plainText_text (groups : List Nat) : PlainText (Ipv6.text groups).toList := by
  unfold Ipv6.text
  dsimp only
  split
  · exact plainText_joined groups
  · rw [String.toList_append, String.toList_append]
    exact ((plainText_joined _).append (by decide)).append (plainText_joined _)

theorem Host.plainText_of_parseBracketed {host : Host} (h : Host.parseBracketed cs = .ok host) :
    PlainText host.text.toList := by
  unfold Host.parseBracketed at h
  split at h
  · cases h
  split at h
  · cases h
  next groups hgroups =>
    cases h
    rw [Host.text, String.toList_append, String.toList_append]
    exact (PlainText.append (by decide) (Ipv6.plainText_text groups)).append (by decide)

theorem Host.plainText_of_parseSpecial {host : Host} (h : Host.parseSpecial cs = .ok host) :
    PlainText host.text.toList := by
  unfold Host.parseSpecial at h
  split at h
  · exact plainText_of_parseBracketed h
  dsimp only at h
  split at h
  · cases h
  next hallowed =>
  split at h
  · cases h
  split at h
  · split at h
    · cases h
    · cases h
      exact Ipv4.plainText_text _
  · cases h
    rw [Host.text, String.toList_ofList]
    intro c hc
    refine isPlain_of_not_isForbiddenInDomain (Bool.eq_false_iff.mpr fun hforbidden => ?_)
    exact hallowed (List.any_eq_true.mpr ⟨c, hc, hforbidden⟩)

/-! ## The authority -/

variable {scheme : String} {rest : List Char} {authority : Authority} {w : Written}

theorem plainText_of_parseHost {host : Option Host} (h : parseHost true cs = .ok host) :
    ∃ name, host = some name ∧ PlainText name.text.toList := by
  rw [parseHost, if_pos rfl] at h
  split at h
  · cases h
  · cases hname : Host.parseSpecial cs with
    | error e =>
      rw [hname] at h
      cases h
    | ok name =>
      rw [hname] at h
      cases h
      exact ⟨name, rfl, Host.plainText_of_parseSpecial hname⟩

/-- A port is kept only if it is not the default port. -/
theorem ne_defaultPort_of_parsePort {port : Option Nat}
    (h : parsePort scheme cs = .ok (port, rest)) {n : Nat} (hn : port = some n) :
    defaultPort? scheme ≠ some n := by
  unfold parsePort at h
  dsimp only at h
  split at h
  · cases h
  split at h
  · cases h
  split at h
  · cases h
    cases hn
  · next hdefault =>
    cases h
    obtain rfl := Option.some.inj hn
    intro heq
    simp [heq] at hdefault

/-- The host of an authority has been read as a host, and its port is not the default one. -/
theorem of_parseAuthority (h : parseAuthority scheme cs = .ok (authority, rest)) :
    (∃ part, parseHost (isSpecial scheme) part = .ok authority.host) ∧
      ∀ n, authority.port = some n → defaultPort? scheme ≠ some n := by
  unfold parseAuthority at h
  simp only [bind, Except.bind, pure, Except.pure, throw, throwThe, MonadExceptOf.throw] at h
  split at h
  · cases h
  split at h
  · cases h
  next host hhost =>
  split at h
  · -- No port is written.
    split at h
    · cases h
    · cases h
      exact ⟨⟨_, hhost⟩, nofun⟩
  · split at h
    · cases h
    split at h
    · cases h
    next read hport =>
    split at h
    · cases h
    · cases h
      exact ⟨⟨_, hhost⟩, fun n => ne_defaultPort_of_parsePort hport⟩

/-! ## Whole URLs -/

theorem eq_of_parseAfterSlashes (h : parseAfterSlashes scheme cs = .ok w) :
    ∃ authority rest path query fragment, parseAuthority scheme cs = .ok (authority, rest) ∧
      w = assemble scheme (some authority) (parsePath scheme path) query fragment := by
  unfold parseAfterSlashes at h
  cases hauthority : parseAuthority scheme cs with
  | error e =>
    rw [hauthority] at h
    cases h
  | ok read =>
    obtain ⟨authority, rest⟩ := read
    rw [hauthority] at h
    cases h
    exact ⟨authority, rest, _, _, _, rfl, rfl⟩

theorem scheme_of_parseAfterSlashes (h : parseAfterSlashes scheme cs = .ok w) :
    w.scheme = scheme := by
  obtain ⟨authority, rest, path, query, fragment, -, rfl⟩ := eq_of_parseAfterSlashes h
  rfl

theorem scheme_of_parseFile (h : parseFile cs = .ok w) : w.scheme = "file" := by
  unfold parseFile at h
  simp only [bind, Except.bind, pure, Except.pure] at h
  split at h
  · cases h
    rfl
  split at h
  · cases h
    rfl
  split at h
  · cases h
  · cases h
    rfl

theorem scheme_of_parseGeneral (h : parseGeneral scheme cs = .ok w) : w.scheme = scheme := by
  unfold parseGeneral at h
  split at h
  · exact scheme_of_parseAfterSlashes h
  · cases h
    rfl

/-- A special URL that is no file URL is read from its authority on. -/
theorem parseAfterSlashes_of_parseWritten {s : String} (h : parseWritten s = .ok w)
    (hspecial : isSpecial w.scheme = true) (hfile : w.scheme ≠ "file") :
    ∃ cs, parseAfterSlashes w.scheme cs = .ok w := by
  unfold parseWritten at h
  dsimp only at h
  split at h
  · cases h
  next scheme rest hscheme =>
  split at h
  · exact absurd (scheme_of_parseFile h) hfile
  split at h
  · rw [scheme_of_parseAfterSlashes h]
    exact ⟨_, h⟩
  · next hgeneral =>
    rw [scheme_of_parseGeneral h] at hspecial
    exact absurd hspecial hgeneral

theorem written_of_parse {s : String} {u : Url} (h : parse s = .ok u) :
    ∃ w, parseWritten s = .ok w ∧ u = w.url := by
  unfold parse at h
  split at h
  · cases h
  · next w hw =>
    cases h
    exact ⟨w, hw, rfl⟩

theorem lawful_assemble {name : Host} (hname : authority.host = some name)
    (hplain : PlainText name.text.toList) (hport : authority.port ≠ some 80) (path : List Char)
    (query fragment : Option (List Char)) :
    (assemble "ws" (some authority) (parsePath "ws" path) query fragment).url.Lawful := by
  generalize hw : assemble "ws" (some authority) (parsePath "ws" path) query fragment = w
  have hhost : w.host? = some name := by rw [← hw, ← hname]; rfl
  have htext : w.url.hostText? = some name.text := congrArg (Option.map Host.text) hhost
  constructor
  · constructor
    · intro host hmem
      obtain rfl : name.text = host := Option.some.inj (htext.symm.trans hmem)
      exact hplain
    · rw [← hw]
      exact plainText_parsePath _ _
    · intro written hmem
      rw [← hw] at hmem
      obtain ⟨query, -, rfl⟩ := Option.map_eq_some_iff.mp hmem
      rw [String.toList_ofList]
      exact plainText_percentEncode (by decide) query
  · exact Option.isSome_iff_exists.mpr ⟨name, hhost⟩
  · exact Option.isSome_iff_exists.mpr ⟨name.text, htext⟩
  · rw [← hw]
    exact hport
  · rw [← hw]
    rfl

/-- Whatever text is read as a URL of the scheme `ws`, the URL is lawful. -/
theorem lawful_parse : Reader.Assures parse Lawful := by
  intro s u hu hscheme
  obtain ⟨w, hw, rfl⟩ := written_of_parse hu
  have hws : w.scheme = "ws" := hscheme
  obtain ⟨cs, hcs⟩ := parseAfterSlashes_of_parseWritten hw (by rw [hws]; rfl) (by rw [hws]; decide)
  rw [hws] at hcs
  obtain ⟨authority, rest, path, query, fragment, hauthority, rfl⟩ := eq_of_parseAfterSlashes hcs
  obtain ⟨⟨part, hpart⟩, hport⟩ := of_parseAuthority hauthority
  obtain ⟨name, hname, hplain⟩ := plainText_of_parseHost hpart
  exact lawful_assemble hname hplain (fun hkept => hport 80 hkept rfl) path query fragment

end EchoLoad.Url
