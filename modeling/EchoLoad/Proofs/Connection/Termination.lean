import EchoLoad.Proofs.Connection.HeadLimit
import EchoLoad.Proofs.Connection.Passes

/-!
# The loops come to an end

A loop ends if each time round it uses up some of what there is (`mul_length_le_of_isChain`). The search
for the end of a head has room for `maxHead + 1` bytes before it gives up, and each read takes some of it,
so it ends even if the server goes on sending for ever (`readHead_of_unending`). A receiving call has
bytes to fetch and bytes to take out of the buffer, two of them for each frame at least; what it does with
them, control frames and empty fragments that give no result included, is one pass after the other
(`Pass.work_le`).
-/

namespace EchoLoad

/-- A chain of steps is no longer than what each of them uses up allows. -/
theorem mul_length_le_of_isChain {α : Type} {step : α → α → Prop} {left : α → Nat} {k : Nat}
    (hstep : ∀ a b, step a b → left b + k ≤ left a) {a : α} {as : List α}
    (h : List.IsChain step (a :: as)) : k * as.length ≤ left a := by
  induction as generalizing a with
  | nil => exact Nat.zero_le _
  | cons b bs ih =>
    obtain ⟨hab, hrest⟩ := List.isChain_cons_cons.mp h
    have huses := hstep a b hab
    have hbs := ih hrest
    rw [List.length_cons, Nat.mul_succ]
    omega

/-- Every frame that is read takes two bytes at least. -/
theorem Frame.two_mul_length_parseAll_le (buf : Bytes) : 2 * (parseAll buf).1.length ≤ buf.length := by
  fun_induction parseAll buf with
  | case1 | case2 => exact Nat.zero_le _
  | case3 buf f n hp frames rest hrest ih =>
    obtain ⟨htwo, hle⟩ := consumed_of_parse hp
    rw [hrest, List.length_drop] at ih
    rw [List.length_cons]
    dsimp only at ih
    omega

/-! ## The search for the end of a head -/

namespace Handshake

variable {b b' : Inbox}

/-- Each read takes some of the room that there is before the search gives up. -/
theorem Fetch.room_le (h : Fetch b b') :
    maxHead + 1 - b'.buffer.length + 1 ≤ maxHead + 1 - b.buffer.length := by
  cases h with
  | read _ hle hr =>
    have hpos := List.length_pos_iff.mpr (Source.size_read_data (headRoom_pos b) hr).1
    simp only [List.length_append]
    omega

theorem length_le_of_fetches {source : Source} {spare : Nat} {bs : List Inbox}
    (h : List.IsChain Fetch ({ buffer := [], source, spare } :: bs)) :
    bs.length ≤ maxHead + 1 := by
  have hlength := mul_length_le_of_isChain (fun b b' (hf : Fetch b b') => hf.room_le) h
  rw [Nat.one_mul] at hlength
  exact hlength

/-- Where the search fetches no more, it leaves the buffer as it is. -/
theorem buffer_readHead (hlast : ∀ b', ¬ Fetch b b') : (readHead b).2.buffer = b.buffer := by
  fun_cases readHead b with
  | case3 hnone hlong bytes source hr =>
    exact absurd (.read hnone (Nat.le_of_not_lt hlong) hr) (hlast _)
  | case1 | case2 | case4 | case5 | case6 => rfl

/-- The search comes to a buffer behind which it fetches no more, and ends there. -/
theorem exists_searched (b : Inbox) :
    ∃ b', Searched b b' ∧ (∀ b'', ¬ Fetch b' b'') ∧ readHead b = readHead b' ∧
      (readHead b').2.buffer = b'.buffer := by
  have hless : ∀ b b', Fetch b b' →
      maxHead + 1 - b'.buffer.length < maxHead + 1 - b.buffer.length := fun b b' hf => hf.room_le
  obtain ⟨b', hs, hlast⟩ := exists_last hless b
  exact ⟨b', hs, hlast, Searched.readHead_eq hs, buffer_readHead hlast⟩

/-- A stream that begins with some pieces brings bytes of the first one, whatever comes behind them. -/
theorem read_of_pieces {current : Bytes} {pieces : List Bytes} (hne : ∀ piece ∈ pieces, piece ≠ [])
    (hsome : 0 < current.length + pieces.length) {room : Nat} (hroom : 0 < room) :
    ∃ (bytes current' : Bytes) (pieces' : List Bytes),
      (∀ piece ∈ pieces', piece ≠ []) ∧ 0 < bytes.length ∧
      current.length + pieces.length ≤ bytes.length + current'.length + pieces'.length ∧
      ∀ tail, (⟨current, pieces.map .data ++ tail⟩ : Source).read room =
        (.data bytes, ⟨current', pieces'.map .data ++ tail⟩) := by
  cases current with
  | cons byte rest =>
    refine ⟨(byte :: rest).take room, (byte :: rest).drop room, pieces, hne, ?_, ?_, fun _ => rfl⟩
    · rw [List.length_take, List.length_cons]
      omega
    · rw [← List.length_append, List.take_append_drop]
  | nil =>
    cases pieces with
    | nil => cases hsome
    | cons piece pieces =>
      have hpiece := List.length_pos_iff.mpr (hne piece List.mem_cons_self)
      cases piece with
      | nil => cases hpiece
      | cons byte rest =>
        refine ⟨(byte :: rest).take room, (byte :: rest).drop room, pieces,
          fun other hother => hne other (List.mem_cons_of_mem _ hother), ?_, ?_, fun _ => rfl⟩
        · rw [List.length_take, List.length_cons]
          omega
        · rw [← List.length_append, List.take_append_drop]
          simp only [List.length_nil, List.length_cons]
          omega

/-- If a stream has enough to bring, the search ends before it comes to what is behind that. -/
theorem readHead_of_enough (b : Inbox) (current : Bytes) {pieces : List Bytes}
    (hne : ∀ piece ∈ pieces, piece ≠ [])
    (henough : maxHead < b.buffer.length + current.length + pieces.length) :
    ∃ head, head ≠ .waiting ∧
      ∀ tail, (readHead { b with source := ⟨current, pieces.map .data ++ tail⟩ }).1 = head := by
  induction hroom : maxHead + 1 - b.buffer.length using Nat.strongRecOn
    generalizing b current pieces with
  | ind n ih =>
    cases hfound : headEnd? b.buffer with
    | some e =>
      refine ⟨.complete e, by simp, fun tail => ?_⟩
      rw [readHead, hfound]
    | none =>
      by_cases hlong : b.buffer.length > maxHead
      · refine ⟨.refused .headTooLong, by simp, fun tail => ?_⟩
        rw [readHead, hfound]
        dsimp only
        rw [if_pos hlong]
      · have hsome : 0 < current.length + pieces.length := by omega
        obtain ⟨bytes, current', pieces', hne', hpos, hle, hread⟩ :=
          read_of_pieces hne hsome (headRoom_pos b)
        have hfetch := fun tail => Fetch.read (b := { b with source := ⟨current, _ ++ tail⟩ })
          hfound (Nat.le_of_not_lt hlong) (hread tail)
        have hlength : (b.buffer ++ bytes).length = b.buffer.length + bytes.length :=
          List.length_append
        obtain ⟨head, hhead, hall⟩ := ih (maxHead + 1 - (b.buffer ++ bytes).length) (by omega)
          { b with buffer := b.buffer ++ bytes } current' hne' (by dsimp only; omega) rfl
        refine ⟨head, hhead, fun tail => ?_⟩
        rw [(hfetch tail).readHead_eq]
        exact hall tail

/-- A server that never stops sending gets an answer from its first bytes. -/
theorem readHead_of_unending {pieces : Nat → Bytes} (hne : ∀ i, pieces i ≠ []) (spare : Nat) :
    ∃ head, head ≠ .waiting ∧ ∀ n > maxHead, ∀ tail,
      let arrivals := ((List.range n).map pieces).map .data ++ tail
      (readHead { buffer := [], source := .ofArrivals arrivals, spare }).1 = head := by
  have hpieces : ∀ piece ∈ (List.range (maxHead + 1)).map pieces, piece ≠ [] := by
    intro piece hpiece
    obtain ⟨i, -, rfl⟩ := List.mem_map.mp hpiece
    exact hne i
  have henough : maxHead < 0 + 0 + ((List.range (maxHead + 1)).map pieces).length := by
    rw [List.length_map, List.length_range]
    omega
  obtain ⟨head, hhead, hall⟩ := readHead_of_enough
    { buffer := [], source := .ofArrivals [], spare } [] hpieces henough
  refine ⟨head, hhead, fun n hn tail => ?_⟩
  obtain ⟨k, rfl⟩ := Nat.exists_eq_add_of_le (show maxHead + 1 ≤ n from hn)
  rw [List.range_add, List.map_append, List.map_append, List.append_assoc]
  exact hall _

end Handshake

/-! ## Waiting -/

/-- What interrupts a stream as a pause is a pause among its arrivals. -/
theorem Feed.pause_mem {bytes : Bytes} {arrivals : List Arrival}
    (h : (ofArrivals bytes arrivals).halt = .waiting) : .pause ∈ arrivals := by
  fun_induction ofArrivals bytes arrivals with
  | case1 | case3 | case4 => cases h
  | case2 bytes more rest ih => exact List.mem_cons_of_mem _ (ih h)
  | case5 => exact List.mem_cons_self

theorem Feed.halt_of_waiting {f f' : Feed} (h : f.next = (.waiting, f')) : f.halt = .waiting := by
  unfold Feed.next at h
  split at h
  · cases h
  · cases h
  · have hincoming : f.halt.incoming = .waiting := congrArg Prod.fst h
    cases hhalt : f.halt with
    | waiting => rfl
    | ending | fault =>
      rw [hhalt] at hincoming
      cases hincoming

namespace Connection

section Receiving

variable {c d : Connection} {held : Option Bytes} {frames : List Frame} {o : Outcome Bytes}
  {m m' : Moment}

/-- The interruption of the stream stays where it is. -/
theorem Pass.halt (h : Pass m m') :
    m'.connection.inbox.feed.halt = m.connection.inbox.feed.halt := by
  cases h with
  | @fetch c held bytes source hp hr =>
    exact congrArg Feed.halt (Source.feed_read_data hr c.inbox.buffer)
  | turn hp h => rw [h.inbox hp, Inbox.feed_drop (Frame.consumed_of_parse hp).2]

theorem Visits.halt (h : Visits m m') :
    m'.connection.inbox.feed.halt = m.connection.inbox.feed.halt := by
  induction h with
  | refl => rfl
  | tail _ hpass ih => exact hpass.halt.trans ih

/-- A call that ends gives a message or an error, or it waits at a pause. -/
theorem Stop.returns (h : Stop c held frames o d) :
    (∃ message, o = .value message) ∨ (∃ e, o = .error e) ∨
      o = .waiting ∧ c.inbox.feed.halt = .waiting := by
  cases h with
  | message => exact .inl ⟨_, rfl⟩
  | malformed | ending | fault | unanswered | close | violation => exact .inr (.inl ⟨_, rfl⟩)
  | waiting h =>
    have hnext := c.inbox.feed_next
    rw [h] at hnext
    exact .inr (.inr ⟨rfl, Feed.halt_of_waiting hnext.symm⟩)

theorem receive_returns (c : Connection) :
    (∃ message, c.receive.1 = .value message) ∨ (∃ e, c.receive.1 = .error e) ∨
      c.receive.1 = .waiting ∧ .pause ∈ c.inbox.source.arrivals := by
  cases hclosed : c.closed with
  | true =>
    rw [receive_of_closed hclosed]
    exact .inr (.inl ⟨_, rfl⟩)
  | false =>
    obtain ⟨m, hvisits, ⟨frames, hstop⟩, -⟩ := receive_ends hclosed
    refine hstop.returns.imp_right (Or.imp_right (And.imp_right fun hhalt => ?_))
    exact Feed.pause_mem (hvisits.halt.symm.trans hhalt)

/-- Only a read that has room and finds nothing pending goes round a loop, and this is the one of a
receiving call. -/
theorem outcome_read (c : Connection) (length : Nat) : (c.read length).1 =
    if length = 0 ∨ c.pending ≠ [] then .value (c.pending.take length)
    else c.receive.1.map (List.take length) := by
  have hread := c.reads_read length
  generalize c.read length = r at hread ⊢
  cases hread with
  | nothing hzero =>
    subst hzero
    rw [if_pos (.inl rfl)]
    rfl
  | served _ hsome => rw [if_pos (.inr hsome)]
  | message hlength hp hr =>
    rw [if_neg (not_or.mpr ⟨hlength, not_not.mpr hp⟩), hr]
    rfl
  | @failed hlength hp o d hr ho =>
    rw [if_neg (not_or.mpr ⟨hlength, not_not.mpr hp⟩), hr]
    cases o with
    | value bytes => exact absurd rfl (ho bytes)
    | error | waiting | panicked => rfl

end Receiving

variable {source : Source} {sink : Sink} {url : Url} {origin key : String} {opcode : Opcode}
  {seed : UInt32} {spare : Nat}

/-- Opening a connection waits only if the search for the end of the head does. -/
theorem waiting_of_upgrade
    (h : (upgrade source sink url origin key opcode seed spare).1 = .waiting) :
    (Handshake.readHead { buffer := [], source, spare }).1 = .waiting := by
  unfold upgrade at h
  split at h
  · cases h
  · split at h
    · cases h
    · split at h
      · cases h
      · cases h
      · next hread => rw [hread]
      · split at h
        · cases h
        · cases h

open Handshake in
/-- The loops of a connection come to an end. The search for the end of a head makes at most `maxHead + 1`
reads that bring bytes, and if the server sends for ever, then it decides on the first `maxHead + 1` pieces,
whatever comes behind them. A time round the loops of a receiving call that does not end the call brings
at least one byte from the stream or takes at least two out of the buffer, so there are no more of them
than the bytes allow; the call gives a message or an error, or it waits at a pause of the stream. A read
goes round these loops or round none. Frames that are read off any byte string are at most half as many
as its bytes. -/
theorem loops_end (source : Source) (sink : Sink) (url : Url) (origin key : String)
    (opcode : Opcode) (seed : UInt32) (spare : Nat) (c : Connection) :
    let start : Inbox := { buffer := [], source, spare }
    ((∀ bs, List.IsChain Fetch (start :: bs) → bs.length ≤ maxHead + 1) ∧
      (∃ b, Searched start b ∧ (∀ b', ¬ Fetch b b') ∧ readHead start = readHead b ∧
        (readHead b).2.buffer = b.buffer) ∧
      ∀ pieces : Nat → Bytes, (∀ i, pieces i ≠ []) →
        ∃ head, head ≠ .waiting ∧ ∀ n > maxHead, ∀ tail,
          let unending := Source.ofArrivals (((List.range n).map pieces).map .data ++ tail)
          (readHead { buffer := [], source := unending, spare }).1 = head ∧
            (upgrade unending sink url origin key opcode seed spare).1 ≠ .waiting) ∧
    ((∀ m, Visits ⟨c, none⟩ m → ∀ m', Pass m m' →
        m.connection.inbox.Gains m'.connection.inbox ∨
          m.connection.inbox.Sheds m'.connection.inbox) ∧
      (∀ ms, List.IsChain Pass (⟨c, none⟩ :: ms) →
        2 * ms.length ≤ c.inbox.buffer.length + 3 * c.inbox.source.bytes.length) ∧
      (c.closed = false → ∃ m, Visits ⟨c, none⟩ m ∧ m.Ends c.receive) ∧
      ((∃ message, c.receive.1 = .value message) ∨ (∃ e, c.receive.1 = .error e) ∨
        c.receive.1 = .waiting ∧ .pause ∈ c.inbox.source.arrivals) ∧
      ∀ length, (c.read length).1 =
        if length = 0 ∨ c.pending ≠ [] then .value (c.pending.take length)
        else c.receive.1.map (List.take length)) ∧
    ∀ buf, 2 * (Frame.parseAll buf).1.length ≤ buf.length := by
  intro start
  refine ⟨⟨fun bs => length_le_of_fetches, exists_searched start, fun pieces hne => ?_⟩,
    ⟨fun m _ m' hpass => hpass.progress, fun ms hms => ?_, receive_ends, receive_returns c,
      outcome_read c⟩, Frame.two_mul_length_parseAll_le⟩
  · obtain ⟨head, hhead, hall⟩ := readHead_of_unending hne spare
    refine ⟨head, hhead, fun n hn tail => ⟨hall n hn tail, fun hwaiting => hhead ?_⟩⟩
    rw [← hall n hn tail]
    exact waiting_of_upgrade hwaiting
  · exact mul_length_le_of_isChain (fun m m' (hpass : Pass m m') => hpass.work_le) hms

end Connection

end EchoLoad
