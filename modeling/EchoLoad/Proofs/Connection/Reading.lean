import EchoLoad.Proofs.Connection.Integrity
import EchoLoad.Proofs.Connection.Supply

/-!
# Every message is handed out once

Receiving calls give messages whole, reads give them in portions, and both draw on the same stream. The
messages of a conforming peer are shared out between the calls that go to the stream
(`Connection.share`): each of them belongs to one call, a receiving call gives its message whole, and
the reads give theirs one behind the other, up to what is still pending (`Ready.conserves`).
`handed_out_once` says with it what each single call gives.
-/

namespace EchoLoad.Connection

/-- The bytes that a read has handed out. -/
def Answer.portion : Operation → Answer → Bytes
  | .read _, .bytes (.value portion) => portion
  | _, _ => []

/-- The bytes that the reads among these calls hand out, one portion behind the other. -/
def bytesRead (c : Connection) : List Operation → Bytes
  | [] => []
  | op :: ops => (c.perform op).1.portion op ++ (c.perform op).2.bytesRead ops

/-- The messages that fall to calls of one kind, when each call takes one message. -/
def share (kind : Operation → Bool) : List Bytes → List Operation → List Bytes
  | message :: messages, op :: takers =>
    if kind op then message :: share kind messages takers else share kind messages takers
  | _, _ => []

theorem share_nil (kind : Operation → Bool) (messages : List Bytes) :
    share kind messages [] = [] := by
  cases messages <;> rfl

theorem isSuffix_getD {a b : Bytes} (h : a <:+ b) (last : Option Bytes) :
    last.getD a <:+ last.getD b := by
  cases last with
  | none => exact h
  | some bytes => exact List.suffix_refl bytes

variable {c : Connection} {limit : Nat} {bytes rest : Bytes} {ops : List Operation}
  {messages : List Bytes}

/-- A call that does not go to the stream returns no message, and what it hands out is taken from what is
pending. -/
theorem Aside.kept {op : Operation} {r : Answer × Connection} (h : Aside c op r) :
    r.1.message? op = none ∧ r.1.portion op ++ r.2.pending = c.pending ∧
      r.2.pending <:+ c.pending := by
  cases h with
  | write f | ping f => exact ⟨rfl, rfl, List.suffix_refl _⟩
  | refused => exact ⟨rfl, rfl, List.suffix_refl _⟩
  | @read length => exact ⟨rfl, c.pending.take_append_drop length, List.drop_suffix length _⟩

/-- Nothing of the messages is lost and nothing is given twice. What reads have given, with what is
pending, are the messages that have fallen to reads, and what is pending is the end of the last of
them. -/
theorem Ready.conserves (h : c.Ready limit bytes)
    (hc : Carries limit bytes (messages.map .value) rest) (hops : .close ∉ ops)
    (hle : (c.takers ops).length ≤ messages.length) :
    let whole := share (· matches .receive) messages (c.takers ops)
    let portioned := share (· matches .read _) messages (c.takers ops)
    c.messages ops = whole ∧
      c.bytesRead ops ++ (c.after ops).pending = c.pending ++ portioned.flatten ∧
      (c.after ops).pending <:+ portioned.getLast?.getD c.pending := by
  induction ops generalizing c bytes messages with
  | nil =>
    rw [takers, share_nil, share_nil]
    exact ⟨rfl, (List.append_nil _).symm, List.suffix_refl _⟩
  | cons op ops ih =>
    have hop : op ≠ .close := fun heq => hops (heq ▸ List.mem_cons_self)
    have hops' : .close ∉ ops := fun hmem => hops (List.mem_cons_of_mem op hmem)
    have hafter : c.after (op :: ops) = (c.perform op).2.after ops := rfl
    rw [hafter, Connection.messages, bytesRead]
    cases ht : c.takes op with
    | true =>
      rw [takers_cons_of_takes ht] at hle ⊢
      cases messages with
      | nil => exact absurd hle (Nat.not_succ_le_zero _)
      | cons message messages =>
        cases hc with
        | cons hb hrest =>
          obtain ⟨hready, hdrawn⟩ := h.drawn hb ht
          obtain ⟨hreceived, hread, hlast⟩ := ih hready hrest hops' (Nat.le_of_succ_le_succ hle)
          generalize c.perform op = r at hdrawn hreceived hread hlast ⊢
          cases hdrawn with
          | @receive d hp =>
            have hpending : d.pending = c.pending := hp
            rw [hpending] at hread hlast
            exact ⟨congrArg (message :: ·) hreceived, hread, hlast⟩
          | @read d length hp hd =>
            have hpending : d.pending = message.drop length := hd message rfl
            rw [hpending] at hread hlast
            refine ⟨hreceived, ?_, ?_⟩
            · show message.take length ++ d.bytesRead ops ++ (d.after ops).pending =
                c.pending ++ (message ++ (share _ messages (d.takers ops)).flatten)
              rw [hp, List.nil_append, List.append_assoc, hread, ← List.append_assoc,
                List.take_append_drop]
            · have hsuffix := isSuffix_getD (List.drop_suffix length message)
                (share (· matches .read _) messages (d.takers ops)).getLast?
              show _ <:+ (message :: share _ messages (d.takers ops)).getLast?.getD c.pending
              rw [List.getLast?_cons, Option.getD_some]
              exact hlast.trans hsuffix
    | false =>
      rw [takers_cons_of_not_takes ht] at hle ⊢
      have haside := aside_of_not_takes h.isOpen hop ht
      obtain ⟨hnone, hportion, hsuffix⟩ := haside.kept
      obtain ⟨hreceived, hread, hlast⟩ := ih (h.aside haside) hc hops' hle
      refine ⟨?_, ?_, hlast.trans (isSuffix_getD hsuffix _)⟩
      · rw [hnone]
        exact hreceived
      · rw [List.append_assoc, hread, ← List.append_assoc, hportion]

/-- What the stream of a conforming peer carries: its messages, one after the other. -/
theorem carries_dispatches {ms : List Dispatch} (hms : ∀ m ∈ ms, m.Conforms limit) (rest : Bytes) :
    Carries limit (ms.flatMap Dispatch.wire ++ rest) ((ms.map Dispatch.bytes).map .value) rest := by
  rw [List.map_map, List.map_eq_flatMap]
  exact carries_wires (fun m hm rest => .cons (brings_dispatch (hms m hm) rest) (.nil rest)) rest

/-- A conforming peer sends messages in any fragments and pieces, with pings and pongs between them, and
calls are made on the connection in any order, but for the closing one. Let `next` be the first message
that none of the calls so far has taken. A receiving call gives it whole and leaves what is pending as it
is. A read that finds nothing pending gives as much of it as there is room for and keeps the rest; a
read that finds something pending gives of that only; and one without room changes nothing. A read that
has room gives no bytes only if the message is empty. In all, the receiving calls give the messages
that have fallen to them, and the portions that reads give make up those that have fallen to reads, up
to what is pending, which is the end of the last one. -/
theorem handed_out_once (k : Cutting) (tail : List Arrival) {sink : Sink} (hsink : sink.Working)
    (opcode : Opcode) (limit : Nat) (seed : UInt32) {ms : List Dispatch}
    (hms : ∀ m ∈ ms, m.Conforms limit) {rest : Bytes}
    (hbytes : k.bytes = ms.flatMap Dispatch.wire ++ rest) {ops : List Operation}
    (hops : .close ∉ ops) :
    let c := k.connection tail sink opcode limit seed
    let d := c.after ops
    let messages := ms.map Dispatch.bytes
    let next := messages[(c.takers ops).length]?
    (∀ message ∈ next, ∃ e, d.receive = (.value message, e) ∧ e.pending = d.pending) ∧
    (∀ message ∈ next, ∀ length, 0 < length → d.pending = [] →
      ∃ e, d.read length = (.value (message.take length), e) ∧
        e.pending = message.drop length) ∧
    (∀ length, 0 < length → d.pending ≠ [] →
      d.read length =
        (.value (d.pending.take length), { d with pending := d.pending.drop length })) ∧
    d.read 0 = (.value [], d) ∧
    (∀ message ∈ next, ∀ length, 0 < length → (d.read length).1 = .value [] →
      d.pending = [] ∧ message = []) ∧
    ((c.takers ops).length ≤ messages.length →
      let whole := share (· matches .receive) messages (c.takers ops)
      let portioned := share (· matches .read _) messages (c.takers ops)
      c.messages ops = whole ∧ c.bytesRead ops ++ d.pending = portioned.flatten ∧
        d.pending <:+ portioned.getLast?.getD []) := by
  intro c d messages next
  have hready := ready_connection hbytes tail hsink opcode limit seed
  have hcarries := carries_dispatches hms (rest ++ (Feed.ofArrivals [] tail).bytes)
  have hreceive : ∀ message ∈ next,
      ∃ e, d.receive = (.value message, e) ∧ e.pending = d.pending := by
    intro message hnext
    have hmessage : messages[(c.takers ops).length]? = some message := hnext
    have hvalue : (messages.map Outcome.value)[(c.takers ops).length]? = some (.value message) := by
      rw [List.getElem?_map, hmessage, Option.map_some]
    obtain ⟨bytes, _, hd, hbrings⟩ := hready.next hcarries hops hvalue
    obtain ⟨e, he, -, hpending⟩ := hbrings d hd
    exact ⟨e, he, hpending⟩
  have hread : ∀ message ∈ next, ∀ length, 0 < length → d.pending = [] →
      ∃ e, d.read length = (.value (message.take length), e) ∧
        e.pending = message.drop length := by
    intro message hnext length hpos hp
    obtain ⟨e, he, -⟩ := hreceive message hnext
    exact ⟨_, read_of_message (Nat.ne_of_gt hpos) hp he, rfl⟩
  have hserve : ∀ length, 0 < length → d.pending ≠ [] → d.read length =
      (.value (d.pending.take length), { d with pending := d.pending.drop length }) :=
    fun length hpos hp => read_of_pending (Nat.ne_of_gt hpos) hp
  refine ⟨hreceive, hread, hserve, d.read_zero, ?_, hready.conserves hcarries hops⟩
  intro message hnext length hpos hnone
  have hempty : ∀ bytes : Bytes, Outcome.value (bytes.take length) = .value [] → bytes = [] := by
    intro bytes htake
    rcases List.take_eq_nil_iff.mp (Outcome.value.inj htake) with hzero | hnil
    · exact absurd hzero (Nat.ne_of_gt hpos)
    · exact hnil
  by_cases hp : d.pending = []
  · obtain ⟨e, he, -⟩ := hread message hnext length hpos hp
    rw [he] at hnone
    exact ⟨hp, hempty message hnone⟩
  · rw [hserve length hpos hp] at hnone
    exact absurd (hempty d.pending hnone) hp

/-- Three bytes in two fragments, with a ping between them and cuts through the frames, and an empty
message. A read of two bytes is followed by a receiving call, which gives the empty message while the
third byte is still pending. -/
theorem handed_out_once_short_read :
    let ms : List Dispatch :=
      [⟨true, ⟨[], [0x30, 0x31]⟩, [⟨[.ping [0x61]], [0x32]⟩]⟩, ⟨false, ⟨[], []⟩, []⟩]
    let k : Cutting :=
      ⟨[2, 2], [[0x30], [0x31, 0x89, 1, 0x61, 0x80], [1, 0x32, 0x81], [0]], 0⟩
    let c := k.connection [.ending] .willing .text 3 7
    (∀ m ∈ ms, m.Conforms 3) ∧ k.bytes = ms.flatMap Dispatch.wire ++ [] ∧
      c.takers [.read 2] = [.read 2] ∧
      ∃ d, c.read 2 = (.value [0x30, 0x31], d) ∧ d.pending = [0x32] ∧
        ∃ e, d.receive = (.value [], e) ∧ e.pending = [0x32] ∧
          d.read 4 = (.value [0x32], { d with pending := [] }) := by
  intro ms k c
  have hms : ∀ m ∈ ms, m.Conforms 3 := by decide
  have hbytes : k.bytes = ms.flatMap Dispatch.wire ++ [] := by decide
  have htakers : c.takers [.read 2] = [.read 2] := takers_cons_of_takes rfl []
  have hnone : Operation.close ∉ ([] : List Operation) := nofun
  have hone : Operation.close ∉ [Operation.read 2] := by decide
  obtain ⟨-, hfirst, -⟩ :=
    handed_out_once k [.ending] Sink.working_willing .text 3 7 hms hbytes hnone
  obtain ⟨d, hread, hpending⟩ := hfirst _ rfl 2 (by decide) rfl
  have hafter : c.after [.read 2] = d := congrArg Prod.snd hread
  obtain ⟨hsecond, -, hserve, -⟩ :=
    handed_out_once k [.ending] Sink.working_willing .text 3 7 hms hbytes hone
  rw [htakers] at hsecond
  rw [hafter] at hsecond hserve
  obtain ⟨e, hreceive, hkept⟩ := hsecond [] rfl
  have hrest := hserve 4 (by decide) (by rw [hpending]; decide)
  rw [hpending] at hkept hrest
  exact ⟨hms, hbytes, htakers, d, hread, hpending, e, hreceive, hkept, hrest⟩

end EchoLoad.Connection
