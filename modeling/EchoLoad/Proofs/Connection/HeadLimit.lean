import EchoLoad.Proofs.Connection.Opening
import EchoLoad.Proofs.Handshake.Lines

/-!
# The limit of a head

A head may be `maxHead` bytes long, but the search looks for its end before it looks at its size,
and it looks at the size only between two reads. So a head above the limit is refused if a read ends
in the part of it that is above (`Caught`), and otherwise it is judged like any other
(`upgrade_unless_caught`). A head whose end comes along with the first byte above the limit passes;
only a head of more than twice the limit never does, because the buffer does not grow further
(`Searched.length_le`).
-/

namespace EchoLoad

open Handshake

namespace Source

variable {s s' : Source} {room : Nat} {bytes : Bytes}

theorem length_advance_le {arrivals : List Arrival}
    (h : Source.advance room arrivals = (.data bytes, s')) : bytes.length ≤ room := by
  fun_induction Source.advance room arrivals with
  | case2 rest ih => exact ih h
  | case3 b bs rest =>
    cases h
    exact List.length_take_le _ _
  | case1 | case4 | case5 | case6 => cases h

theorem read_of_current (h : s.current ≠ []) (room : Nat) :
    s.read room = (.data (s.current.take room), { s with current := s.current.drop room }) := by
  unfold Source.read
  split
  · next hcurrent => exact absurd hcurrent h
  · rfl

/-- A read brings no more than there is room for. -/
theorem length_read_le (h : s.read room = (.data bytes, s')) : bytes.length ≤ room := by
  unfold Source.read at h
  split at h
  · exact length_advance_le h
  · cases h
    exact List.length_take_le _ _

end Source

namespace Handshake

variable {b b' : Inbox} {e : Nat}

theorem grownCapacity_le (capacity length : Nat) :
    grownCapacity capacity length ≤ max capacity (2 * length) := by
  fun_induction grownCapacity capacity length with
  | case1 c hc ih => omega
  | case2 c hc => omega

/-- A buffer within the limit has room for as much again. -/
theorem Fetch.length_le (h : Fetch b b') : b'.buffer.length ≤ 2 * maxHead := by
  cases h with
  | read hnone hle hr =>
    have hroom := Source.length_read_le hr
    have hgrown := grownCapacity_le 1024 b.buffer.length
    simp only [headRoom, maxHead] at hroom hle ⊢
    rw [List.length_append]
    omega

theorem Searched.length_le (h : Searched b b') (hb : b.buffer.length ≤ 2 * maxHead) :
    b'.buffer.length ≤ 2 * maxHead := by
  cases h with
  | refl => exact hb
  | tail _ hf => exact hf.length_le

/-- What is found has been looked for. -/
theorem searched_of_complete {n : Nat} (h : readHead b = (.complete n, b')) :
    Searched b b' ∧ headEnd? b'.buffer = some n := by
  fun_induction readHead b with
  | case1 b m hfound =>
    cases h
    exact ⟨.refl, hfound⟩
  | case3 b hnone hlong bytes source hr ih =>
    obtain ⟨hs, hfound⟩ := ih h
    exact ⟨.head (.read hnone (Nat.le_of_not_lt hlong) hr) hs, hfound⟩
  | case2 | case4 | case5 | case6 => cases h

theorem endsAt_of_complete {n : Nat} (h : readHead b = (.complete n, b')) :
    EndsAt b.feed.bytes n := by
  obtain ⟨hs, hfound⟩ := searched_of_complete h
  have hends := endsAt_of_headEnd hfound
  rw [← hs.feed_eq, Inbox.feed_eq]
  exact (endsAt_append_iff hends.le_length).mpr hends

/-- The search looks at a part of the head that is above the limit. -/
def Caught (start : Inbox) (e : Nat) : Prop :=
  ∃ b, Searched start b ∧ maxHead < b.buffer.length ∧ b.buffer.length < e

theorem readHead_of_caught (h : EndsAt b.feed.bytes e) (hcaught : Caught b e) :
    (readHead b).1 = .refused .headTooLong := by
  obtain ⟨b', hs, hlong, hlt⟩ := hcaught
  rw [readHead_of_seen h hs hlong hlt]

theorem readHead_of_not_caught (h : EndsAt b.feed.bytes e) (hcaught : ¬ Caught b e) :
    ∃ inbox, readHead b = (.complete e, inbox) ∧ e ≤ inbox.buffer.length ∧
      inbox.feed = b.feed := by
  refine readHead_of_unseen h fun b' hs hlong => Nat.le_of_not_lt fun hlt => ?_
  exact hcaught ⟨b', hs, hlong, hlt⟩

theorem lt_of_caught (h : Caught b e) : maxHead + 1 < e := by
  obtain ⟨b', -, hlong, hlt⟩ := h
  omega

/-- A head for which the largest buffer is too small is caught. -/
theorem caught_of_lt (h : EndsAt b.feed.bytes e) (hb : b.buffer.length ≤ 2 * maxHead)
    (hlt : 2 * maxHead < e) : Caught b e := by
  apply Classical.byContradiction
  intro hcaught
  obtain ⟨inbox, hread, hle, -⟩ := readHead_of_not_caught h hcaught
  have hlength := (searched_of_complete hread).1.length_le hb
  omega

/-- An arrival that ends in the part of the head above the limit is caught: no read goes on from one
arrival to the next. -/
theorem caught_of_current (h : EndsAt b.feed.bytes e)
    (hlong : maxHead < (b.buffer ++ b.source.current).length)
    (hlt : (b.buffer ++ b.source.current).length < e) : Caught b e := by
  rw [List.length_append] at hlong hlt
  generalize hn : b.source.current.length = n at hlong hlt
  -- Every read moves bytes of the arrival to the buffer and leaves their sum as it is.
  induction n using Nat.strongRecOn generalizing b with
  | ind n ih =>
    by_cases hbuffer : maxHead < b.buffer.length
    · exact ⟨b, .refl, hbuffer, by omega⟩
    have hcurrent : b.source.current ≠ [] := by
      rw [← List.length_pos_iff]
      omega
    have hfetch := Fetch.read (headEnd?_of_length_lt h (by omega)) (Nat.le_of_not_lt hbuffer)
      (Source.read_of_current hcurrent (headRoom b))
    have hroom := headRoom_pos b
    generalize hnext : { b with buffer := _, source := _ } = next at hfetch
    obtain ⟨hsum, hless⟩ : next.buffer.length + next.source.current.length = b.buffer.length + n ∧
        next.source.current.length < n := by
      subst hnext
      simp only [List.length_append, List.length_take, List.length_drop]
      omega
    rw [← hfetch.feed_eq] at h
    obtain ⟨b', hs, hcaught⟩ := ih _ hless h rfl (by omega) (by omega)
    exact ⟨b', .head hfetch hs, hcaught⟩

end Handshake

namespace Connection

variable {source : Source} {sink : Sink} {url : Url} {origin key : String} {opcode : Opcode}
  {seed : UInt32} {spare e : Nat} {request : Request}

theorem upgrade_of_caught (hrequest : Request.ofUrl? url origin key = some request)
    (hsent : (sink.send request.toBytes).1 = none) (hends : EndsAt (source.feed []).bytes e)
    (hcaught : Caught { buffer := [], source, spare } e) :
    (upgrade source sink url origin key opcode seed spare).1 = .error (.refused .headTooLong) := by
  have hread := readHead_of_caught (b := { buffer := [], source, spare }) hends hcaught
  rw [upgrade_of_sent hrequest hsent]
  generalize readHead { buffer := [], source, spare } = answer at hread
  obtain ⟨head, inbox⟩ := answer
  obtain rfl : head = .refused .headTooLong := hread
  rfl

theorem upgrade_of_not_caught (hrequest : Request.ofUrl? url origin key = some request)
    (hsent : (sink.send request.toBytes).1 = none) (hends : EndsAt (source.feed []).bytes e)
    (hcaught : ¬ Caught { buffer := [], source, spare } e) :
    (∃ c, (upgrade source sink url origin key opcode seed spare).1 = .value c) ↔
      readAccept ((source.feed []).bytes.take e) = .ok (acceptKey key) := by
  obtain ⟨inbox, hread, hlength, hfeed⟩ :=
    readHead_of_not_caught (b := { buffer := [], source, spare }) hends hcaught
  have hhead : (source.feed []).bytes.take e = inbox.buffer.take e := by
    have hbytes : inbox.feed.bytes = (source.feed []).bytes := congrArg Feed.bytes hfeed
    rw [← hbytes, Inbox.feed_eq]
    exact List.take_append_of_le_length hlength
  rw [upgrade_of_sent hrequest hsent, hread, hhead]
  constructor
  · rintro ⟨c, hc⟩
    exact (eq_of_answered hc).1
  · intro haccept
    exact answered_of_accept haccept

/-- No connection is opened without a head. -/
theorem exists_endsAt_of_upgrade {c : Connection}
    (h : (upgrade source sink url origin key opcode seed spare).1 = .value c) :
    ∃ e, EndsAt (source.feed []).bytes e := by
  obtain ⟨request, hrequest, hsent⟩ := sent_of_upgrade h
  rw [upgrade_of_sent hrequest hsent] at h
  cases hread : readHead { buffer := [], source, spare } with
  | mk head inbox =>
    rw [hread] at h
    cases head with
    | complete n => exact ⟨n, endsAt_of_complete hread⟩
    | refused | fault | waiting => cases h

/-- A connection is opened if and only if there is a head that is in order and accepts the key, and
the search has never looked at a part of it that is above the limit while its end was not there. If
it has, then the head is refused. It never does so in a head that is one byte above the limit, since
no such part is shorter; if the head has more than twice as many bytes as the limit allows, then it
cannot pass by such a part. -/
theorem upgrade_unless_caught (source : Source) (sink : Sink) (url : Url) (origin key : String)
    (opcode : Opcode) (seed : UInt32) (spare : Nat) :
    let bytes := (source.feed []).bytes
    let result := (upgrade source sink url origin key opcode seed spare).1
    let sent := ∃ request, Request.ofUrl? url origin key = some request ∧
      (sink.send request.toBytes).1 = none
    let caught := Caught { buffer := [], source, spare }
    ((∃ c, result = .value c) ↔ sent ∧ ∃ e, EndsAt bytes e ∧ ¬ caught e ∧
        readAccept (bytes.take e) = .ok (acceptKey key)) ∧
      ∀ e, EndsAt bytes e → (sent → caught e → result = .error (.refused .headTooLong)) ∧
        (caught e → maxHead + 1 < e) ∧ (2 * maxHead < e → caught e) := by
  intro bytes result sent caught
  have hrefused : ∀ e, EndsAt bytes e → sent → caught e →
      result = .error (.refused .headTooLong) := by
    rintro e hends ⟨request, hrequest, hsent⟩ hcaught
    exact upgrade_of_caught hrequest hsent hends hcaught
  refine ⟨⟨?_, ?_⟩, fun e hends => ⟨hrefused e hends, lt_of_caught,
    fun hlt => caught_of_lt hends (Nat.zero_le _) hlt⟩⟩
  · rintro ⟨c, hc⟩
    obtain ⟨request, hrequest, hsent⟩ := sent_of_upgrade hc
    obtain ⟨e, hends⟩ := exists_endsAt_of_upgrade hc
    have hcaught : ¬ caught e := by
      intro hcaught
      cases hc.symm.trans (hrefused e hends ⟨request, hrequest, hsent⟩ hcaught)
    exact ⟨⟨request, hrequest, hsent⟩, e, hends, hcaught,
      (upgrade_of_not_caught hrequest hsent hends hcaught).mp ⟨c, hc⟩⟩
  · rintro ⟨⟨request, hrequest, hsent⟩, e, hends, hcaught, haccept⟩
    exact (upgrade_of_not_caught hrequest hsent hends hcaught).mpr haccept

/-! ## Answers above the limit -/

/-- One more header, of `n` characters. -/
def longHeaders (n : Nat) : List (List Char) :=
  sampleHeaders ++ ["X: ".toList ++ List.replicate n 'x']

def longLines (n : Nat) : List (List Char) :=
  "HTTP/1.1 101 Switching Protocols".toList :: longHeaders n

def longAnswer (n : Nat) : Bytes :=
  Utf8.encode ((longLines n ++ [[]]).flatMap (· ++ ['\r', '\n']))

theorem ends_of_mem_longLines {n : Nat} {line : List Char} (h : line ∈ longLines n) :
    line ≠ [] ∧ '\r' ∉ line ∧ '\n' ∉ line := by
  simp only [longLines, longHeaders, List.mem_cons, List.mem_append, List.not_mem_nil,
    or_false] at h
  rcases h with rfl | h | rfl
  · decide +kernel
  · revert line
    decide +kernel
  · simp

theorem hasHead_longAnswer (n : Nat) :
    HasHead (longAnswer n) "HTTP/1.1 101 Switching Protocols".toList (longHeaders n) := by
  have hlines : Text.lines ((longLines n ++ [[]]).flatMap (· ++ ['\r', '\n'])) =
      "HTTP/1.1 101 Switching Protocols".toList :: (longHeaders n ++ [[]]) := by
    refine Text.lines_flatMap fun line hline => ?_
    rcases List.mem_append.mp hline with hline | hline
    · exact (ends_of_mem_longLines hline).2.2
    · rw [List.mem_singleton.mp hline]
      exact List.not_mem_nil
  refine .mk (Text.lines_eq_iff.mp hlines) (.cut (fun hempty => ?_) [])
  exact (ends_of_mem_longLines (List.mem_cons_of_mem _ hempty)).1 rfl

/-- The long header is none of those that are looked up. -/
theorem readAccept_longAnswer (n : Nat) :
    readAccept (longAnswer n) = .ok (acceptKey sampleKey) := by
  have hfield : Field ("X: ".toList ++ List.replicate n 'x') ['X']
      (Text.trim (' ' :: List.replicate n 'x')) :=
    field_iff.mpr ⟨['X'], ' ' :: List.replicate n 'x', rfl, rfl, rfl⟩
  have hother : ∀ name ∈ consulted, Text.lower ['X'] ≠ name.toList := by decide +kernel
  have hvaried : Varied Text.lower consulted (sampleHeaders ++ []) (longHeaders n) :=
    .add sampleHeaders [] fun name hname => hfield.not_names (hother name hname)
  rw [List.append_nil] at hvaried
  rw [readAccept_of_varied Text.lowersTo_lower hasHead_sampleAnswer (hasHead_longAnswer n) hvaried,
    readAccept_sampleAnswer]

theorem length_longAnswer (n : Nat) : (longAnswer n).length = 134 + n := by
  have hx : Utf8.encode (List.replicate n 'x') = List.replicate n 120 := by
    rw [Utf8.encode, List.flatMap_replicate]
    exact List.flatten_replicate_singleton
  have hsample : (Utf8.encode (("HTTP/1.1 101 Switching Protocols".toList ::
      sampleHeaders).flatMap (· ++ ['\r', '\n']))).length = 127 := by decide +kernel
  have hname : (Utf8.encode "X: ".toList).length = 3 := by decide +kernel
  have hend : (Utf8.encode ['\r', '\n']).length = 2 := by decide +kernel
  have hlines : longLines n ++ [[]] = ("HTTP/1.1 101 Switching Protocols".toList ::
      sampleHeaders) ++ ["X: ".toList ++ List.replicate n 'x', []] := by
    rw [longLines, longHeaders, List.cons_append, List.append_assoc]
    rfl
  rw [longAnswer, hlines, List.flatMap_append, Utf8.encode_append, List.length_append, hsample]
  simp only [List.flatMap_cons, List.flatMap_nil, List.append_nil, List.nil_append,
    Utf8.encode_append, List.length_append, hname, hx, hend, List.length_replicate]
  omega

theorem endsAt_longAnswer (n : Nat) : EndsAt (longAnswer n) (134 + n) := by
  have hanswer : longAnswer n = joinLines ((longLines n).map Utf8.encode) ++ lineEnd := by
    rw [longAnswer, encode_flatMap, List.map_append, joinLines_append]
    rfl
  rw [← length_longAnswer, hanswer]
  apply endsAt_joinLines (List.map_eq_nil_iff.not.mpr (List.cons_ne_nil _ _))
  intro line hline
  obtain ⟨cs, hcs, rfl⟩ := List.mem_map.mp hline
  obtain ⟨hne, hcr, -⟩ := ends_of_mem_longLines hcs
  exact ⟨Utf8.encode_eq_nil_iff.not.mpr hne, not_isInfix_encode hcr⟩

/-- A stream that brings the answer at once. -/
def atOnce (n : Nat) : Source := ⟨longAnswer n, [.pause]⟩

/-- A stream that brings the first `k` bytes of the answer and then the others. -/
def inTwo (n k : Nat) : Source := ⟨(longAnswer n).take k, [.data ((longAnswer n).drop k), .pause]⟩

theorem endsAt_atOnce (n : Nat) : EndsAt ((atOnce n).feed []).bytes (134 + n) :=
  endsAt_longAnswer n

theorem readAccept_atOnce (n : Nat) :
    readAccept (((atOnce n).feed []).bytes.take (134 + n)) = .ok (acceptKey sampleKey) := by
  have htake : (longAnswer n).take (134 + n) = longAnswer n :=
    List.take_of_length_le (Nat.le_of_eq (length_longAnswer n))
  show readAccept ((longAnswer n).take (134 + n)) = _
  rw [htake, readAccept_longAnswer]

theorem endsAt_inTwo (n k : Nat) : EndsAt ((inTwo n k).feed []).bytes (134 + n) := by
  show EndsAt ((longAnswer n).take k ++ (longAnswer n).drop k) (134 + n)
  rw [List.take_append_drop]
  exact endsAt_longAnswer n

theorem caught_inTwo {n k : Nat} (hlong : maxHead < k) (hlt : k < 134 + n) :
    Caught { buffer := [], source := inTwo n k } (134 + n) := by
  have hlength : ((longAnswer n).take k).length = k := by
    rw [List.length_take, length_longAnswer]
    omega
  apply caught_of_current (b := { buffer := [], source := inTwo n k }) (endsAt_inTwo n k)
  · show maxHead < ((longAnswer n).take k).length
    omega
  · show ((longAnswer n).take k).length < 134 + n
    omega

theorem sent_sample : ∃ request, Request.ofUrl? sampleUrl "load" sampleKey = some request ∧
    (Sink.willing.send request.toBytes).1 = none :=
  ⟨_, rfl, (Sink.working_willing.send _).1⟩

/-- One byte above the limit passes. Two do not, if the second comes by itself. -/
theorem upgrade_longAnswer :
    (∃ c, (upgrade (atOnce 8059) .willing sampleUrl "load" sampleKey .text 1).1 = .value c) ∧
      (upgrade (inTwo 8060 8193) .willing sampleUrl "load" sampleKey .text 1).1 =
        .error (.refused .headTooLong) := by
  obtain ⟨hopened, hlong⟩ := upgrade_unless_caught (atOnce 8059) .willing sampleUrl "load"
    sampleKey .text 1 0
  obtain ⟨-, hparts⟩ := upgrade_unless_caught (inTwo 8060 8193) .willing sampleUrl "load"
    sampleKey .text 1 0
  constructor
  · have hends := endsAt_atOnce 8059
    refine hopened.mpr ⟨sent_sample, 134 + 8059, hends, fun hcaught => ?_, readAccept_atOnce 8059⟩
    exact absurd ((hlong _ hends).2.1 hcaught) (by decide)
  · exact (hparts _ (endsAt_inTwo 8060 8193)).1 sent_sample
      (caught_inTwo (by decide) (by decide))

/-- So the limit does not hold of all heads. -/
theorem not_forall_head_within_limit :
    ¬ ∀ (source : Source) (sink : Sink) (url : Url) (origin key : String) (opcode : Opcode)
      (seed : UInt32) (spare e : Nat), EndsAt (source.feed []).bytes e → maxHead < e →
      ∀ c, (upgrade source sink url origin key opcode seed spare).1 ≠ .value c := by
  intro hlimit
  obtain ⟨request, hrequest, hsent⟩ := sent_sample
  have hcaught : ¬ Caught { buffer := [], source := atOnce 8059 } (134 + 8059) :=
    fun hcaught => absurd (lt_of_caught hcaught) (by decide)
  obtain ⟨c, hc⟩ : ∃ c,
      (upgrade (atOnce 8059) .willing sampleUrl "load" sampleKey .text 1).1 = .value c :=
    (upgrade_of_not_caught hrequest hsent (endsAt_atOnce 8059) hcaught).mpr (readAccept_atOnce 8059)
  exact hlimit _ _ _ _ _ _ _ _ _ (endsAt_atOnce 8059) (by decide) c hc

end Connection

end EchoLoad
