import EchoLoad.Connection.Upgrade
import EchoLoad.Proofs.Connection.Feed
import Mathlib.Logic.Relation

/-!
# Finding the end of a head

A head ends with the first blank line, that is with the first two line ends in a row.
`Handshake.EndsAt` says this of a position, whatever stands behind it, and the search finds exactly
this position (`headEnd?_eq_some_iff`).

The head is searched in a buffer that grows with every read, from its front each time. What is found
depends on the bytes and not on the reads (`readHead_of_endsAt`): the search succeeds as soon as the
buffer holds the head, and it leaves the bytes that have come with it to those who read on. Without a
blank line it goes on to the end of the stream (`readHead_of_ending`).

Above the limit it does depend on the reads. `Searched` collects the buffers that the search looks
at: it gives up as soon as one of them is above the limit and does not hold the end of the head
(`readHead_of_seen`), and otherwise it succeeds (`readHead_of_unseen`).
-/

namespace EchoLoad

namespace Handshake

/-- The first blank line ends behind the first `e` bytes. -/
structure EndsAt (bytes : Bytes) (e : Nat) : Prop where
  mark : headMark <:+ bytes.take e
  first : ∀ i < e, ¬ headMark <:+ bytes.take i

variable {bytes front back : Bytes} {e : Nat}

theorem EndsAt.unique {e' : Nat} (h : EndsAt bytes e) (h' : EndsAt bytes e') : e = e' := by
  rcases Nat.lt_trichotomy e e' with hlt | heq | hgt
  · exact absurd h.mark (h'.first e hlt)
  · exact heq
  · exact absurd h'.mark (h.first e' hgt)

theorem EndsAt.le_length (h : EndsAt bytes e) : e ≤ bytes.length := by
  refine Nat.le_of_not_lt fun hlt => ?_
  have hmark := h.mark
  rw [List.take_of_length_le (Nat.le_of_lt hlt)] at hmark
  apply h.first bytes.length hlt
  rw [List.take_length]
  exact hmark

/-- The position does not depend on what stands behind it. -/
theorem endsAt_append_iff (hle : e ≤ front.length) :
    EndsAt (front ++ back) e ↔ EndsAt front e := by
  have htake : ∀ i ≤ e, (front ++ back).take i = front.take i := fun i hi =>
    List.take_append_of_le_length (by omega)
  constructor
  · intro h
    refine ⟨htake e (Nat.le_refl e) ▸ h.mark, fun i hi => ?_⟩
    rw [← htake i (Nat.le_of_lt hi)]
    exact h.first i hi
  · intro h
    refine ⟨(htake e (Nat.le_refl e)).symm ▸ h.mark, fun i hi => ?_⟩
    rw [htake i (Nat.le_of_lt hi)]
    exact h.first i hi

/-! ## The search -/

theorem not_isSuffix_take_of_lt {i : Nat} (hi : i < 4) : ¬ headMark <:+ bytes.take i := by
  intro h
  have hlength := h.length_le
  have hmark : headMark.length = 4 := rfl
  rw [List.length_take] at hlength
  omega

theorem endsAt_of_isPrefix (h : headMark <+: bytes) : EndsAt bytes 4 := by
  obtain ⟨rest, rfl⟩ := h
  refine ⟨List.suffix_rfl, fun i hi => not_isSuffix_take_of_lt hi⟩

/-- If the bytes do not begin with a blank line, then its position is counted from the second one. -/
theorem endsAt_cons {b : UInt8} (h : ¬ headMark <+: b :: bytes) (hends : EndsAt bytes e) :
    EndsAt (b :: bytes) (e + 1) := by
  refine ⟨hends.mark.trans (List.suffix_cons b _), fun i hi hmark => ?_⟩
  cases i with
  | zero => exact not_isSuffix_take_of_lt (by decide) hmark
  | succ i =>
    rw [List.take_succ_cons, List.suffix_cons_iff] at hmark
    rcases hmark with heq | hmark
    · apply h
      rw [heq, ← List.take_succ_cons]
      exact List.take_prefix _ _
    · exact hends.first i (by omega) hmark

theorem endsAt_of_headEnd (h : headEnd? bytes = some e) : EndsAt bytes e := by
  induction bytes generalizing e with
  | nil => cases h
  | cons b bytes ih =>
    rw [headEnd?] at h
    by_cases hmark : headMark <+: b :: bytes
    · rw [if_pos (List.isPrefixOf_iff_prefix.mpr hmark)] at h
      cases h
      exact endsAt_of_isPrefix hmark
    · rw [if_neg (mt List.isPrefixOf_iff_prefix.mp hmark)] at h
      obtain ⟨e, he, rfl⟩ := Option.map_eq_some_iff.mp h
      exact endsAt_cons hmark (ih he)

theorem not_isInfix_of_headEnd (h : headEnd? bytes = none) : ¬ headMark <:+: bytes := by
  induction bytes with
  | nil => decide
  | cons b bytes ih =>
    rw [headEnd?] at h
    split at h
    · cases h
    · next hmark =>
      rw [List.infix_cons_iff, not_or]
      exact ⟨mt List.isPrefixOf_iff_prefix.mpr hmark, ih (Option.map_eq_none_iff.mp h)⟩

theorem EndsAt.isInfix (h : EndsAt bytes e) : headMark <:+: bytes :=
  h.mark.isInfix.trans (List.take_prefix e bytes).isInfix

theorem headEnd?_eq_some_iff : headEnd? bytes = some e ↔ EndsAt bytes e := by
  constructor
  · exact endsAt_of_headEnd
  · intro h
    cases hfound : headEnd? bytes with
    | none => exact absurd h.isInfix (not_isInfix_of_headEnd hfound)
    | some e' => rw [h.unique (endsAt_of_headEnd hfound)]

/-! ## The search in a growing buffer -/

/-- One more read: nothing has been found so far, the limit has not been passed, and bytes come. -/
inductive Fetch : Inbox → Inbox → Prop where
  | read {b : Inbox} {bytes : Bytes} {source : Source} (hnone : headEnd? b.buffer = none)
      (hle : b.buffer.length ≤ maxHead) (hr : b.source.read (headRoom b) = (.data bytes, source)) :
      Fetch b { b with buffer := b.buffer ++ bytes, source }

/-- On its way from an inbox, the search looks at this one. -/
abbrev Searched : Inbox → Inbox → Prop := Relation.ReflTransGen Fetch

theorem Fetch.readHead_eq {b b' : Inbox} (h : Fetch b b') : readHead b = readHead b' := by
  cases h with
  | read hnone hle hr =>
    rw [readHead, hnone]
    simp only [if_neg (Nat.not_lt.mpr hle)]
    split
    · next hr' =>
      cases hr.symm.trans hr'
      rfl
    all_goals
      next hr' => cases hr.symm.trans hr'

theorem Fetch.feed_eq {b b' : Inbox} (h : Fetch b b') : b'.feed = b.feed := by
  cases h with
  | @read _ _ _ _ hr => exact Source.feed_read_data hr b.buffer

theorem Searched.readHead_eq {b b' : Inbox} (h : Searched b b') : readHead b = readHead b' := by
  induction h with
  | refl => rfl
  | tail _ hf ih => exact ih.trans hf.readHead_eq

theorem Searched.feed_eq {b b' : Inbox} (h : Searched b b') : b'.feed = b.feed := by
  induction h with
  | refl => rfl
  | tail _ hf ih => exact hf.feed_eq.trans ih

/-- As long as nothing is found, the buffer does not reach to the end of the head. -/
theorem length_buffer_lt {b : Inbox} (h : EndsAt b.feed.bytes e) (hnone : headEnd? b.buffer = none) :
    b.buffer.length < e := by
  refine Nat.lt_of_not_le fun hle => ?_
  rw [Inbox.feed_eq, endsAt_append_iff hle, ← headEnd?_eq_some_iff, hnone] at h
  cases h

/-- What is found ends in the buffer. -/
theorem headEnd?_of_length_lt {b : Inbox} (h : EndsAt b.feed.bytes e) (hlt : b.buffer.length < e) :
    headEnd? b.buffer = none := by
  cases hfound : headEnd? b.buffer with
  | none => rfl
  | some n =>
    have hends := endsAt_of_headEnd hfound
    have hlength := hends.le_length
    rw [Inbox.feed_eq] at h
    obtain rfl := ((endsAt_append_iff hlength).mpr hends).unique h
    omega

/-- Then there are bytes to be read. A read that finds none would leave all of them in the buffer. -/
theorem halt?_eq_none {b : Inbox} {room : Nat} {reading : Reading} {source : Source}
    (h : EndsAt b.feed.bytes e) (hnone : headEnd? b.buffer = none)
    (hr : b.source.read room = (reading, source)) : reading.halt? = none := by
  cases hh : reading.halt? with
  | none => rfl
  | some halt =>
    have hlt := length_buffer_lt h hnone
    have hle := h.le_length
    rw [Inbox.feed, (Source.feed_read_halt hr hh b.buffer).1] at hle
    exact absurd hle (Nat.not_le_of_lt hlt)

/-- The head is found behind its last byte, unless the search looks at a part of it above the limit,
and what has come behind it stays where it is. -/
theorem readHead_of_unseen {b : Inbox} (h : EndsAt b.feed.bytes e)
    (hunseen : ∀ b', Searched b b' → maxHead < b'.buffer.length → e ≤ b'.buffer.length) :
    ∃ inbox, readHead b = (.complete e, inbox) ∧ e ≤ inbox.buffer.length ∧
      inbox.feed = b.feed := by
  fun_induction readHead b with
  | case1 b n hfound =>
    have hends := endsAt_of_headEnd hfound
    have hlength := hends.le_length
    rw [Inbox.feed_eq] at h
    obtain rfl := ((endsAt_append_iff hlength).mpr hends).unique h
    exact ⟨b, rfl, hlength, rfl⟩
  | case2 b hnone hlong =>
    have hlt := length_buffer_lt h hnone
    have hle := hunseen b .refl hlong
    omega
  | case3 b hnone hlong bytes source hr ih =>
    have hfetch := Fetch.read hnone (Nat.le_of_not_lt hlong) hr
    rw [← hfetch.feed_eq] at h
    obtain ⟨inbox, hread, hlength, hsame⟩ := ih h fun b' hs => hunseen b' (.head hfetch hs)
    exact ⟨inbox, hread, hlength, hsame.trans hfetch.feed_eq⟩
  | case4 b hnone hlong source hr => cases halt?_eq_none h hnone hr
  | case5 b hnone hlong f source hr => cases halt?_eq_none h hnone hr
  | case6 b hnone hlong source hr => cases halt?_eq_none h hnone hr

/-- The head is found behind its last byte, if it is within the limit. -/
theorem readHead_of_endsAt {b : Inbox} (h : EndsAt b.feed.bytes e) (hle : e ≤ maxHead) :
    ∃ inbox, readHead b = (.complete e, inbox) ∧ e ≤ inbox.buffer.length ∧
      inbox.feed = b.feed :=
  readHead_of_unseen h fun _ _ hlong => Nat.le_trans hle (Nat.le_of_lt hlong)

/-- A part of the head above the limit, once it is looked at, ends the search. -/
theorem readHead_of_seen {b b' : Inbox} (h : EndsAt b.feed.bytes e) (hs : Searched b b')
    (hlong : maxHead < b'.buffer.length) (hlt : b'.buffer.length < e) :
    readHead b = (.refused .headTooLong, b') := by
  rw [← hs.feed_eq] at h
  rw [hs.readHead_eq, readHead, headEnd?_of_length_lt h hlt]
  exact if_pos hlong

/-- Without a blank line the search goes on to the end of the stream, if that comes within the
limit. -/
theorem readHead_of_ending {b : Inbox} (h : ¬ headMark <:+: b.feed.bytes)
    (hle : b.feed.bytes.length ≤ maxHead) (hend : b.feed.halt = .ending) :
    (readHead b).1 = .refused .closedEarly := by
  fun_induction readHead b with
  | case1 b n hfound =>
    rw [Inbox.feed_eq] at h
    have hfront := (endsAt_of_headEnd hfound).isInfix
    exact absurd (hfront.trans (List.prefix_append _ _).isInfix) h
  | case2 b hnone hlong =>
    rw [Inbox.feed_eq, List.length_append] at hle
    omega
  | case3 b hnone hlong bytes source hr ih =>
    have hfeed := Source.feed_read_data hr b.buffer
    rw [Inbox.feed, ← hfeed] at h hle hend
    exact ih h hle hend
  | case4 b hnone hlong source hr => rfl
  | case5 b hnone hlong f source hr =>
    rw [Inbox.feed, (Source.feed_read_halt hr rfl b.buffer).1] at hend
    cases hend
  | case6 b hnone hlong source hr =>
    rw [Inbox.feed, (Source.feed_read_halt hr rfl b.buffer).1] at hend
    cases hend

end Handshake

end EchoLoad
