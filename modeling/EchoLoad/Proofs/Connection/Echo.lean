import EchoLoad.Dial
import EchoLoad.Proofs.Connection.Reassembly
import EchoLoad.Proofs.Connection.Transcript
import EchoLoad.Proofs.Session.RoundTrips

/-!
# Round trips with a server that echoes

Round trips on a connection whose peer answers every message with the same payload. All that the peer
is free to do makes no difference: into how many fragments it cuts its answers, what pings and pongs
it sends before them, and in which pieces its bytes arrive. Every write is taken whole and every
read gives just the message that was written before it (`Connection.Echoes`), so that no lengths
differ and nothing is left over at the end (`Connection.echo`). The reason is that the buffer for the
replies holds the largest message: if a read gave but a part of a reply, all reads after it would be
shifted.

The bytes of the peer are given from the start, while a real peer answers a message only once it has
come. As a read comes after the write whose answer it waits for, the pieces in which a real peer's
bytes arrive are some of those that are spoken of here.
-/

namespace EchoLoad

namespace Connection

/-- Pairs of a write and a read, one for each message: the write is taken whole, and the read gives the
message and leaves nothing of it. -/
inductive Echoes (room : Nat) : Connection → List Bytes → Connection → Prop where
  | nil (c : Connection) : Echoes room c [] c
  | cons {c c' c'' d : Connection} {message : Bytes} {messages : List Bytes}
      (hw : c.write message = (.value message.length, c'))
      (hr : c'.read room = (.value message, c'')) (hp : c''.pending = [])
      (h : Echoes room c'' messages d) : Echoes room c (message :: messages) d

/-- An open connection on a working stream, with nothing left of an earlier message, for which these
bytes are to come. -/
structure Awaits (c : Connection) (bytes : Bytes) : Prop where
  isOpen : c.closed = false
  working : c.sink.Working
  pending : c.pending = []
  maxMessage : c.maxMessage = Frame.maxPayload
  feed : c.inbox.feed.bytes = bytes

variable {c d : Connection} {rest : Bytes} {room : Nat}

/-- What has not been read of a message that fits into the buffer is nothing. -/
theorem read_of_receive (hpending : c.pending = []) {message : Bytes}
    (hr : c.receive = (.value message, d)) (hpos : 0 < room) (hroom : message.length ≤ room) :
    c.read room = (.value message, { d with pending := [] }) := by
  rw [read_of_message (Nat.ne_of_gt hpos) hpending hr, List.take_of_length_le hroom,
    List.drop_of_length_le hroom]

/-- A message is written, and the answer with the same payload is read. -/
theorem Awaits.pair {m : Dispatch} (h : c.Awaits (m.wire ++ rest)) (hopcode : c.opcode ≠ .close)
    (hm : m.Conforms Frame.maxPayload) (hpos : 0 < room) (hroom : m.bytes.length ≤ room) :
    ∃ c' d, c.write m.bytes = (.value m.bytes.length, c') ∧ c'.read room = (.value m.bytes, d) ∧
      d.Awaits rest ∧ d.opcode = c.opcode ∧
      c.Emits ((.whole c.opcode m.bytes :: m.pongs).map .frame) d := by
  obtain ⟨hfault, hworking⟩ := sendFrame_of_working h.working (.whole c.opcode m.bytes)
  have hwrite := write_of_open h.isOpen m.bytes
  rw [hfault] at hwrite
  have hemits := emits_sendFrame c (.whole c.opcode m.bytes)
  have hopcode' : (c.sendFrame (.whole c.opcode m.bytes)).2.opcode = c.opcode := rfl
  have hawaits : (c.sendFrame (.whole c.opcode m.bytes)).2.Awaits (m.wire ++ rest) :=
    ⟨h.isOpen, hworking, h.pending, h.maxMessage, h.feed⟩
  generalize (c.sendFrame (.whole c.opcode m.bytes)).2 = c' at hwrite hemits hopcode' hawaits
  have hconforms : m.Conforms c'.maxMessage := by
    rw [hawaits.maxMessage]
    exact hm
  obtain ⟨d, hd, hreceive⟩ :=
    receive_dispatch hawaits.working hawaits.isOpen hconforms hawaits.feed
  have hread := read_of_receive hawaits.pending hreceive hpos hroom
  refine ⟨c', { d with pending := [] }, hwrite, hread, ?_, ?_, ?_⟩
  · exact ⟨hd.closed.trans hawaits.isOpen, hd.working, rfl, hd.maxMessage.trans hawaits.maxMessage,
      hd.bytes⟩
  · have hkept := opcode_perform (c := c') (hopcode'.trans_ne hopcode) (.read room)
    rw [perform, hread] at hkept
    exact hkept.trans hopcode'
  · exact hemits.trans hd.emits

/-- A peer that has conforming answers to all messages lets all of them be echoed. -/
theorem Awaits.echoes {ms : List Dispatch} (h : c.Awaits (ms.flatMap Dispatch.wire ++ rest))
    (hopcode : c.opcode ≠ .close) (hms : ∀ m ∈ ms, m.Conforms Frame.maxPayload) (hpos : 0 < room)
    (hroom : ∀ m ∈ ms, m.bytes.length ≤ room) :
    ∃ d, Echoes room c (ms.map Dispatch.bytes) d ∧ d.Awaits rest ∧
      c.Emits ((ms.flatMap fun m => .whole c.opcode m.bytes :: m.pongs).map .frame) d := by
  induction ms generalizing c with
  | nil => exact ⟨c, .nil c, h, .refl c⟩
  | cons m ms ih =>
    rw [List.flatMap_cons, List.append_assoc] at h
    obtain ⟨c', c'', hw, hr, hawaits, hsame, hemits⟩ :=
      h.pair hopcode (hms m List.mem_cons_self) hpos (hroom m List.mem_cons_self)
    obtain ⟨d, hechoes, hd, hrest⟩ := ih hawaits (hsame.trans_ne hopcode)
      (fun m' hm' => hms m' (List.mem_cons_of_mem m hm'))
      (fun m' hm' => hroom m' (List.mem_cons_of_mem m hm'))
    refine ⟨d, .cons hw hr hawaits.pending hechoes, hd, ?_⟩
    rw [List.flatMap_cons, List.map_append, ← hsame]
    rw [← hsame] at hemits
    exact hemits.trans hrest

end Connection

/-! ## Round trips -/

section RoundTrips

variable {net : Network} {seeds : Nat → Seeds} {opcode : Opcode} {w : Workload} {slot : Nat}

/-- The two calls of a round trip that is echoed. -/
theorem run_of_pair (hbuffer : w.readBuffer ≤ Workload.maxBuffer)
    (hsize : ∀ i, w.size i ≤ Workload.maxBuffer) {c c' c'' : Connection} {left : Nat} {t : Trace}
    {message : Bytes} (hmessage : message = List.replicate (w.size t.sizeDraws) filler)
    (hw : c.write message = (.value message.length, c'))
    (hr : c'.read w.readBuffer = (.value message, c'')) :
    Trips.run (net.transport seeds opcode) w slot { conn := c, left := left + 1 } t =
      Trips.run (net.transport seeds opcode) w slot { conn := c'', left }
        (t.traded slot w.readBuffer [message]) := by
  subst hmessage
  have hwrite : (net.transport seeds opcode).write c (w.message t.sizeDraws) =
      (.value (w.message t.sizeDraws).length, c') := hw
  have hread : (net.transport seeds opcode).read c' w.readBuffer =
      (.value (w.message t.sizeDraws).length, c'') := by
    show ((c'.read w.readBuffer).1.map List.length, (c'.read w.readBuffer).2) = _
    rw [hr]
    rfl
  have hnone : Trips.mismatches slot
      [⟨(w.message t.sizeDraws).length, (w.message t.sizeDraws).length⟩] = [] := by
    simp [Trips.mismatches]
  rw [Trips.run_of_exchange slot left (Nat.not_lt.mpr hbuffer)
    (Nat.not_lt.mpr (hsize t.sizeDraws)) (x := ⟨_, _⟩) hwrite hread, hnone]
  rfl

/-- Round trips that are echoed are all made, and nothing is noted. The induction is on their number:
with each of them the draws go on by one. -/
theorem run_of_echoes (hbuffer : w.readBuffer ≤ Workload.maxBuffer)
    (hsize : ∀ i, w.size i ≤ Workload.maxBuffer) {c d : Connection} {planned : Nat} {t : Trace}
    (h : c.Echoes w.readBuffer (w.messages t.sizeDraws planned) d) :
    Trips.run (net.transport seeds opcode) w slot { conn := c, left := planned } t =
      (.finished d, t.traded slot w.readBuffer (w.messages t.sizeDraws planned)) := by
  induction planned generalizing c t with
  | zero =>
    cases h
    have hdone : Trips.step (net.transport seeds opcode) w slot { conn := d, left := 0 } t =
        (.finished d, t) := by
      simp only [Trips.step, if_neg (Nat.not_lt.mpr hbuffer), gt_iff_lt]
    rw [Trips.run_eq, hdone]
    rfl
  | succ planned ih =>
    rw [Workload.messages_succ] at h ⊢
    cases h with
    | cons hw hr _ hrest =>
      rw [run_of_pair hbuffer hsize rfl hw hr, ih hrest, Trace.traded_traded]
      rfl

end RoundTrips

namespace Connection

/-- Fragments of a message that fits into one frame fit into frames themselves. -/
theorem conforms_of_length {m : Dispatch} (hsize : m.bytes.length ≤ Frame.maxPayload)
    (hinterludes : ∀ g ∈ m.fragments, ∀ i ∈ g.interludes,
      i.frame.payload.length ≤ Frame.maxControlPayload) : m.Conforms Frame.maxPayload := by
  refine ⟨fun g hg => ⟨?_, hinterludes g hg⟩, hsize⟩
  obtain ⟨front, back, hsplit⟩ := List.append_of_mem hg
  rw [Dispatch.bytes, hsplit, List.flatMap_append, List.flatMap_cons, List.length_append,
    List.length_append] at hsize
  omega

/-- Round trips with a server that answers every message with the same payload, whatever fragments,
pings, pongs and pieces its bytes come in. If the buffer for the replies can be set up, then all round
trips are made and no difference of lengths is noted; every write is taken whole, every read gives the
message that was written before it, and nothing is left over. The stream has taken the messages, and
behind each of them the answers to the pings that came before its echo. If the buffer is too long to be
set up, then nothing is called. -/
theorem echo (net : Network) (seeds : Nat → Seeds) (k : Cutting) (tail : List Arrival) {sink : Sink}
    (hsink : sink.Working) {opcode : Opcode} (hopcode : opcode = .text ∨ opcode = .binary)
    (seed : UInt32) {w : Workload} (hsize : ∀ i, w.size i ≤ min w.maxSize Frame.maxPayload)
    (slot planned : Nat) (t : Trace) {ms : List Dispatch}
    (hms : ms.map Dispatch.bytes = w.messages t.sizeDraws planned)
    (hinterludes : ∀ m ∈ ms, ∀ g ∈ m.fragments, ∀ i ∈ g.interludes,
      i.frame.payload.length ≤ Frame.maxControlPayload)
    {rest : Bytes} (hbytes : k.bytes = ms.flatMap Dispatch.wire ++ rest) :
    let transport := net.transport seeds opcode
    let c := k.connection tail sink opcode Frame.maxPayload seed
    let messages := w.messages t.sizeDraws planned
    (w.readBuffer ≤ Workload.maxBuffer → ∃ d,
      Trips.run transport w slot { conn := c, left := planned } t =
        (.finished d, t.traded slot w.readBuffer messages) ∧
      roundTrips transport w slot planned c t =
        (.value planned, t.traded slot w.readBuffer messages) ∧
      (t.traded slot w.readBuffer messages).events = t.events ∧
      c.Echoes w.readBuffer messages d ∧ d.pending = [] ∧
      d.sink.taken = sink.taken ++
        Outlet.sealed seed (ms.flatMap fun m => .whole opcode m.bytes :: m.pongs)) ∧
    (Workload.maxBuffer < w.readBuffer →
      roundTrips transport w slot planned c t = (.panicked, t)) := by
  intro transport c messages
  refine ⟨fun hbuffer => ?_, fun hbuffer => roundTrips_of_long_buffer transport hbuffer slot planned c t⟩
  have hawaits : c.Awaits (ms.flatMap Dispatch.wire ++ (rest ++ (Feed.ofArrivals [] tail).bytes)) :=
    ⟨rfl, hsink, rfl, rfl, Cutting.bytes_feed_connection hbytes tail sink opcode _ seed⟩
  have hclose : c.opcode ≠ .close := by
    rcases hopcode with rfl | rfl
    all_goals nofun
  have hlength : ∀ m ∈ ms, m.bytes.length ≤ min w.maxSize Frame.maxPayload := by
    intro m hm
    obtain ⟨i, hi⟩ := Workload.length_of_mem_messages (hms ▸ List.mem_map_of_mem hm)
    exact hi ▸ hsize i
  have hconforms : ∀ m ∈ ms, m.Conforms Frame.maxPayload := fun m hm =>
    conforms_of_length (Nat.le_trans (hlength m hm) (Nat.min_le_right _ _)) (hinterludes m hm)
  have hpos : 0 < w.readBuffer := Nat.lt_of_lt_of_le (by decide) (Nat.le_max_right _ _)
  have hroom : ∀ m ∈ ms, m.bytes.length ≤ w.readBuffer := fun m hm =>
    Nat.le_trans (hlength m hm) (Nat.le_trans (Nat.min_le_left _ _) (Nat.le_max_left _ _))
  obtain ⟨d, hechoes, hd, hemits⟩ := hawaits.echoes hclose hconforms hpos hroom
  rw [hms] at hechoes
  have hsmall : ∀ i, w.size i ≤ Workload.maxBuffer := fun i =>
    Nat.le_trans (hsize i) (Nat.le_trans (Nat.min_le_right _ _) (by decide))
  have hrun : Trips.run transport w slot { conn := c, left := planned } t =
      (.finished d, t.traded slot w.readBuffer messages) :=
    run_of_echoes hbuffer hsmall hechoes
  exact ⟨d, hrun, by rw [roundTrips, hrun], rfl, hechoes, hd.pending, hemits.taken hsink⟩

/-- Two round trips: the answer to the first message comes in two fragments with a ping between them, the
second message is empty and its answer comes behind a pong, and another ping has begun. The cuts go
through headers and payloads. -/
theorem echo_two_messages :
    let w := Workload.cycling 2 [2, 0] none
    let ms : List Dispatch :=
      [⟨false, ⟨[], [0x41]⟩, [⟨[.ping [0x61]], [0x41]⟩]⟩, ⟨true, ⟨[.pong []], []⟩, []⟩]
    let k : Cutting :=
      ⟨[1], [[1, 0x41, 0x89, 1], [0x61, 0x80], [1, 0x41, 0x8A], [0, 0x82, 0, 0x89]], 0⟩
    let transport := Network.unreachable.transport (fun _ => ⟨"", 0⟩) .text
    let c := k.connection [.ending] .willing .text Frame.maxPayload 7
    k.bytes = ms.flatMap Dispatch.wire ++ [0x89] ∧ w.messages 0 2 = [[0x41, 0x41], []] ∧
      ∃ d t, Trips.run transport w 0 { conn := c, left := 2 } {} = (.finished d, t) ∧
        roundTrips transport w 0 2 c {} = (.value 2, t) ∧ t.events = [] ∧ d.pending = [] ∧
        d.sink.taken = Outlet.sealed 7
          [.whole .text [0x41, 0x41], .whole .pong [0x61], .whole .text []] := by
  intro w ms k transport c
  have hsize : ∀ i, w.size i ≤ min w.maxSize Frame.maxPayload := by
    intro i
    show [2, 0].getD (i % 2) 0 ≤ 2
    rcases Nat.mod_two_eq_zero_or_one i with hi | hi
    all_goals
      rw [hi]
      decide
  have hbytes : k.bytes = ms.flatMap Dispatch.wire ++ [0x89] := by decide
  have hms : ms.map Dispatch.bytes = w.messages 0 2 := by decide
  obtain ⟨hechoes, -⟩ := echo .unreachable (fun _ => ⟨"", 0⟩) k [.ending] Sink.working_willing
    (.inl rfl) 7 hsize 0 2 {} hms (by decide) hbytes
  obtain ⟨d, hrun, htrips, hevents, -, hpending, htaken⟩ := hechoes (by decide)
  exact ⟨hbytes, hms.symm, d, _, hrun, htrips, hevents, hpending, htaken⟩

/-- The sizes alone are not enough: with a largest size that no buffer can have, not even one small
message is written. -/
theorem not_echo_of_long_buffer :
    let w := Workload.cycling 1 [5] (some (Workload.maxBuffer + 1))
    let m : Dispatch := ⟨false, ⟨[], List.replicate 5 filler⟩, []⟩
    let k : Cutting := ⟨m.wire, [], 0⟩
    let transport := Network.unreachable.transport (fun _ => ⟨"", 0⟩) .text
    (∀ i, w.size i ≤ min w.maxSize Frame.maxPayload) ∧ [m].map Dispatch.bytes = w.messages 0 1 ∧
      k.bytes = [m].flatMap Dispatch.wire ∧
      (roundTrips transport w 0 1 (k.connection [.ending] .willing .text Frame.maxPayload 7)
        {}).1 ≠ .value 1 := by
  intro w m k transport
  refine ⟨fun i => ?_, by decide, by decide, ?_⟩
  · show [5].getD (i % 1) 0 ≤ min (Workload.maxBuffer + 1) Frame.maxPayload
    rw [Nat.mod_one]
    decide
  · have hlong : Workload.maxBuffer < w.readBuffer := by decide
    rw [roundTrips_of_long_buffer transport hlong]
    nofun

end Connection

end EchoLoad
