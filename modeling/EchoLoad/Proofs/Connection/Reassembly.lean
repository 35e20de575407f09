import EchoLoad.Proofs.Connection.Emission
import EchoLoad.Proofs.Connection.Feed
import EchoLoad.Proofs.Connection.Operation
import EchoLoad.Proofs.Message.Dispatch

/-!
# Messages of a conforming peer arrive whole

On a stream that takes every answer, each call of `receive` gives the next message of a conforming
peer and answers the pings on the way (`history_receive_dispatches`). The proof goes up from single
frames: `assemble_encode` takes one frame off the feed, `assemble_interludes` skips pings and pongs,
`assemble_fragment` adds one fragment, and `assemble_continuations` finishes a message that has
begun. What each of them does to the connection is said by `Advances`.
-/

namespace EchoLoad.Connection

/-- `d` is `c` after the bytes before `rest` have been taken in and frames have been sent. Nothing
else that matters to a caller has changed. -/
structure Advances (c : Connection) (rest : Bytes) (sent : List Frame) (d : Connection) : Prop where
  feed : d.inbox.feed = { c.inbox.feed with bytes := rest }
  emits : c.Emits (sent.map .frame) d
  working : d.sink.Working
  pending : d.pending = c.pending
  maxMessage : d.maxMessage = c.maxMessage
  closed : d.closed = c.closed

namespace Advances

variable {c d e : Connection} {rest rest' : Bytes} {sent sent' : List Frame}

theorem bytes (h : Advances c rest sent d) : d.inbox.feed.bytes = rest := by
  rw [h.feed]

theorem trans (h₁ : Advances c rest sent d) (h₂ : Advances d rest' sent' e) :
    Advances c rest' (sent ++ sent') e where
  feed := by rw [h₂.feed, h₁.feed]
  emits := by
    rw [List.map_append]
    exact h₁.emits.trans h₂.emits
  working := h₂.working
  pending := h₂.pending.trans h₁.pending
  maxMessage := h₂.maxMessage.trans h₁.maxMessage
  closed := h₂.closed.trans h₁.closed

/-- A frame that is sent gets through and leaves what is to come as it is. -/
theorem send (h : Advances c rest sent d) (f : Frame) :
    (d.sendFrame f).1 = none ∧ Advances c rest (sent ++ [f]) (d.sendFrame f).2 := by
  obtain ⟨hfault, hworking⟩ := sendFrame_of_working h.working f
  refine ⟨hfault, h.feed, ?_, hworking, h.pending, h.maxMessage, h.closed⟩
  rw [List.map_append]
  exact h.emits.trans (emits_sendFrame d f)

end Advances

variable {c : Connection} {rest : Bytes}

/-- A frame that stands at the front of the feed is the next to be dealt with. -/
theorem assemble_encode (hw : c.sink.Working) {f : Frame} (hf : f.Legal) (hm : f.masked = false)
    (h : c.inbox.feed.bytes = f.encode none ++ rest) (held : Option Bytes) :
    ∃ d, Advances c rest [] d ∧ c.assemble held = d.proceed held f := by
  have hparse : Frame.parse c.inbox.feed.bytes = .ok (some (f, f.wireSize false)) := by
    rw [h, Frame.parse_encode_append hf, Option.isSome_none, ← hm]
  have hnext : c.inbox.feed.next = (.frame f, { c.inbox.feed with bytes := rest }) := by
    have hsize : f.wireSize false = (f.encode none).length := (Frame.length_encode f none).symm
    have hdrop : c.inbox.feed.bytes.drop (f.wireSize false) = rest := by
      rw [h, hsize, List.drop_left]
    simp only [Feed.next, hparse, hdrop]
  obtain ⟨hincoming, hfeed⟩ := Prod.mk.inj ((Inbox.feed_next c.inbox).trans hnext)
  refine ⟨{ c with inbox := c.inbox.next.2 }, ⟨hfeed, rfl, hw, rfl, rfl, rfl⟩, ?_⟩
  rw [assemble_eq, ← Prod.eta c.inbox.next, hincoming]

theorem proceed_of_ping {payload : Bytes} (h : (c.sendFrame (.whole .pong payload)).1 = none)
    (held : Option Bytes) : c.proceed held (.whole .ping payload) =
      (c.sendFrame (.whole .pong payload)).2.assemble held := by
  have hping : Message.take c.maxMessage held (.whole .ping payload) = .ping payload := rfl
  rw [proceed, hping]
  dsimp only
  generalize c.sendFrame (.whole .pong payload) = r at h ⊢
  obtain ⟨fault, d⟩ := r
  cases h
  rfl

/-- A ping is answered and a pong is skipped; the part of the message that is held stays as it is. -/
theorem assemble_interlude (hw : c.sink.Working) {i : Interlude}
    (hi : i.frame.payload.length ≤ Frame.maxControlPayload)
    (h : c.inbox.feed.bytes = i.frame.encode none ++ rest) (held : Option Bytes) :
    ∃ d, Advances c rest i.pongs d ∧ c.assemble held = d.assemble held := by
  have hmasked : i.frame.masked = false := by cases i <;> rfl
  obtain ⟨d, hd, hassemble⟩ := assemble_encode hw (Interlude.legal_frame hi) hmasked h held
  cases i with
  | pong payload => exact ⟨d, hd, hassemble⟩
  | ping payload =>
    obtain ⟨hfault, hsent⟩ := hd.send (.whole .pong payload)
    refine ⟨(d.sendFrame (.whole .pong payload)).2, hsent, ?_⟩
    exact hassemble.trans (proceed_of_ping hfault held)

theorem assemble_interludes (hw : c.sink.Working) {is : List Interlude}
    (his : ∀ i ∈ is, i.frame.payload.length ≤ Frame.maxControlPayload)
    (h : c.inbox.feed.bytes = (is.map Interlude.frame).flatMap (·.encode none) ++ rest)
    (held : Option Bytes) :
    ∃ d, Advances c rest (is.flatMap Interlude.pongs) d ∧ c.assemble held = d.assemble held := by
  induction is generalizing c with
  | nil => exact ⟨c, ⟨by rw [← show c.inbox.feed.bytes = rest from h], rfl, hw, rfl, rfl, rfl⟩, rfl⟩
  | cons i is ih =>
    rw [List.map_cons, List.flatMap_cons, List.append_assoc] at h
    obtain ⟨d, hd, hassemble⟩ := assemble_interlude hw (his i List.mem_cons_self) h held
    obtain ⟨e, he, hrest⟩ := ih hd.working (fun j hj => his j (List.mem_cons_of_mem i hj)) hd.bytes
    exact ⟨e, hd.trans he, hassemble.trans hrest⟩

/-- Everything before the data frame of a fragment is dealt with. -/
theorem assemble_fragment (hw : c.sink.Working) {g : Fragment} {fin : Bool} {opcode : Opcode}
    (ho : opcode.isControl = false) (hg : g.Conforms)
    (h : c.inbox.feed.bytes = (g.frames fin opcode).flatMap (·.encode none) ++ rest)
    (held : Option Bytes) :
    ∃ d, Advances c rest g.pongs d ∧ c.assemble held = d.proceed held (g.frame fin opcode) := by
  rw [Fragment.frames, List.flatMap_append, List.append_assoc] at h
  obtain ⟨d, hd, hassemble⟩ := assemble_interludes hw hg.interlude h held
  have hdata : d.inbox.feed.bytes = (g.frame fin opcode).encode none ++ rest := by
    rw [hd.bytes, List.flatMap_singleton]
  obtain ⟨e, he, hproceed⟩ := assemble_encode hd.working (hg.legal_frame fin ho) rfl hdata held
  have hsent : Advances c rest g.pongs e := by
    rw [← List.append_nil g.pongs]
    exact hd.trans he
  exact ⟨e, hsent, hassemble.trans hproceed⟩

/-- The first fragment of a message begins it. -/
theorem take_first (m : Dispatch) (limit : Nat) (fin : Bool) :
    Message.take limit none (m.first.frame fin m.opcode) =
      Message.grown limit fin ([] ++ m.first.payload) := by
  unfold Dispatch.opcode
  cases m.isBinary <;> rfl

/-- The others add to what has come before. -/
theorem take_continuation (limit : Nat) (front : Bytes) (g : Fragment) (fin : Bool) :
    Message.take limit (some front) (g.frame fin .continuation) =
      Message.grown limit fin (front ++ g.payload) := rfl

/-- A fragment that has grown a message within the limit either completes it or becomes the part
that is held. -/
theorem proceed_of_grown {held : Option Bytes} {f : Frame} {bytes : Bytes}
    (htake : Message.take c.maxMessage held f = Message.grown c.maxMessage f.fin bytes)
    (hsize : bytes.length ≤ c.maxMessage) :
    c.proceed held f = if f.fin then (.value bytes, c) else c.assemble (some bytes) := by
  have hlimit : ¬ bytes.length > c.maxMessage := Nat.not_lt.mpr hsize
  rw [proceed, htake, Message.grown, if_neg hlimit]
  cases f.fin <;> rfl

/-- The fragments of a message from some point on, the first of them being `g`, give the rest of the
message to what has come before. The induction is on the fragments after `g`: with each of them
`front` grows, and every frame that follows is a continuation. -/
theorem assemble_fragments (hw : c.sink.Working) {g : Fragment} {gs : List Fragment}
    {opcode : Opcode} {held : Option Bytes} {front : Bytes} (ho : opcode.isControl = false)
    (hgs : ∀ g' ∈ g :: gs, g'.Conforms)
    (htake : ∀ fin, Message.take c.maxMessage held (g.frame fin opcode) =
      Message.grown c.maxMessage fin (front ++ g.payload))
    (hsize : (front ++ (g :: gs).flatMap Fragment.payload).length ≤ c.maxMessage)
    (h : c.inbox.feed.bytes = (g.frames gs.isEmpty opcode ++
      Fragment.continuations gs).flatMap (·.encode none) ++ rest) :
    ∃ d, Advances c rest ((g :: gs).flatMap Fragment.pongs) d ∧
      c.assemble held = (.value (front ++ (g :: gs).flatMap Fragment.payload), d) := by
  induction gs generalizing c g opcode held front with
  | nil =>
    rw [Fragment.continuations, List.append_nil] at h
    obtain ⟨d, hd, hassemble⟩ := assemble_fragment hw ho (hgs g List.mem_cons_self) h held
    rw [List.flatMap_singleton] at hsize ⊢
    rw [List.flatMap_singleton]
    rw [← hd.maxMessage] at htake hsize
    exact ⟨d, hd, hassemble.trans (proceed_of_grown (htake true) hsize)⟩
  | cons g' gs ih =>
    rw [List.flatMap_append, List.append_assoc] at h
    obtain ⟨d, hd, hassemble⟩ := assemble_fragment hw ho (hgs g List.mem_cons_self) h held
    have hvalue : front ++ (g :: g' :: gs).flatMap Fragment.payload =
        front ++ g.payload ++ (g' :: gs).flatMap Fragment.payload := by
      rw [List.flatMap_cons, List.append_assoc]
    rw [hvalue] at hsize ⊢
    rw [← hd.maxMessage] at htake hsize
    have hfront : (front ++ g.payload).length ≤ d.maxMessage := by
      rw [List.length_append] at hsize
      omega
    have hgs' : ∀ g'' ∈ g' :: gs, g''.Conforms := fun g'' hm => hgs g'' (List.mem_cons_of_mem g hm)
    have hcontinue := take_continuation d.maxMessage (front ++ g.payload) g'
    obtain ⟨e, he, hrest⟩ := ih hd.working rfl hgs' hcontinue hsize hd.bytes
    refine ⟨e, hd.trans he, ?_⟩
    exact hassemble.trans ((proceed_of_grown (htake false) hfront).trans hrest)

/-- One call on an open connection gives the message that is next, and answers its pings. -/
theorem receive_dispatch (hw : c.sink.Working) (hopen : c.closed = false) {m : Dispatch}
    (hm : m.Conforms c.maxMessage) (h : c.inbox.feed.bytes = m.wire ++ rest) :
    ∃ d, Advances c rest m.pongs d ∧ c.receive = (.value m.bytes, d) := by
  obtain ⟨d, hd, hassemble⟩ := assemble_fragments hw m.opcode_not_control hm.fragment
    (take_first m c.maxMessage) hm.size h
  refine ⟨d, hd, ?_⟩
  rw [receive, hopen]
  exact hassemble

/-- Calls in turn give one message after the other. After each of them, the answers to all pings up
to its message have been sent, and no other frame. -/
theorem history_receive (hw : c.sink.Working) (hopen : c.closed = false) {ms : List Dispatch}
    (hms : ∀ m ∈ ms, m.Conforms c.maxMessage)
    (h : c.inbox.feed.bytes = ms.flatMap Dispatch.wire ++ rest) {i : Nat} {m : Dispatch}
    (hi : ms[i]? = some m) :
    ∃ d, (c.history (List.replicate ms.length .receive))[i]? = some (.bytes (.value m.bytes), d) ∧
      c.Emits (((ms.take (i + 1)).flatMap Dispatch.pongs).map .frame) d := by
  induction ms generalizing c i with
  | nil => cases hi
  | cons m' ms ih =>
    rw [List.flatMap_cons, List.append_assoc] at h
    obtain ⟨d, hd, hreceive⟩ := receive_dispatch hw hopen (hms m' List.mem_cons_self) h
    have hperform : c.perform .receive = (.bytes (.value m'.bytes), d) := by
      rw [perform, hreceive]
    rw [List.length_cons, List.replicate_succ, history, hperform]
    cases i with
    | zero =>
      cases hi
      refine ⟨d, rfl, ?_⟩
      rw [Nat.zero_add, List.take_succ_cons, List.take_zero, List.flatMap_singleton]
      exact hd.emits
    | succ i =>
      have hms' : ∀ m'' ∈ ms, m''.Conforms d.maxMessage := by
        intro m'' hm''
        rw [hd.maxMessage]
        exact hms m'' (List.mem_cons_of_mem m' hm'')
      obtain ⟨e, hhistory, he⟩ := ih hd.working (hd.closed.trans hopen) hms' hd.bytes hi
      refine ⟨e, hhistory, ?_⟩
      rw [List.take_succ_cons, List.flatMap_cons, List.map_append]
      exact hd.emits.trans he

/-- However the bytes of a conforming peer are cut, each call of `receive` gives the next message
whole. When it has been given, the stream has taken one pong for every ping up to it, in order and
with the payload of the ping, and nothing else. -/
theorem history_receive_dispatches (k : Cutting) (tail : List Arrival) {sink : Sink}
    (hsink : sink.Working) (opcode : Opcode) (limit : Nat) (seed : UInt32) {ms : List Dispatch}
    (hms : ∀ m ∈ ms, m.Conforms limit) {rest : Bytes}
    (hbytes : k.bytes = ms.flatMap Dispatch.wire ++ rest) {i : Nat} {m : Dispatch}
    (hi : ms[i]? = some m) :
    ∃ d, ((k.connection tail sink opcode limit seed).history
        (List.replicate ms.length .receive))[i]? = some (.bytes (.value m.bytes), d) ∧
      d.sink.taken =
        sink.taken ++ Outlet.sealed seed ((ms.take (i + 1)).flatMap Dispatch.pongs) := by
  have hfeed : (k.connection tail sink opcode limit seed).inbox.feed.bytes =
      ms.flatMap Dispatch.wire ++ (rest ++ (Feed.ofArrivals [] tail).bytes) := by
    rw [Cutting.feed_connection, ← List.append_nil k.bytes, Feed.ofArrivals_append, hbytes,
      List.append_assoc]
  obtain ⟨d, hhistory, hemits⟩ := history_receive hsink rfl hms hfeed hi
  refine ⟨d, hhistory, ?_⟩
  obtain ⟨htaken, -⟩ := Outlet.taken_emitAll (o := ⟨sink, seed⟩) hsink
    ((ms.take (i + 1)).flatMap Dispatch.pongs)
  rw [← htaken]
  exact congrArg (·.sink.taken) hemits

/-- A message in two fragments with a ping between them, an empty message behind a pong, and the
beginning of another ping; the cuts go through headers and payloads. -/
theorem history_receive_two_dispatches :
    let ms : List Dispatch :=
      [⟨false, ⟨[], [0x48]⟩, [⟨[.ping [0x61]], [0x69]⟩]⟩, ⟨true, ⟨[.pong []], []⟩, []⟩]
    let k : Cutting :=
      ⟨[1], [[1, 0x48, 0x89, 1], [0x61, 0x80], [1, 0x69, 0x8A], [0, 0x82, 0, 0x89]], 0⟩
    (∀ m ∈ ms, m.Conforms 2) ∧ k.bytes = ms.flatMap Dispatch.wire ++ [0x89] ∧
      ∃ d, ((k.connection [.ending] .willing .text 2 7).history
          (List.replicate 2 .receive))[1]? = some (.bytes (.value []), d) ∧
        d.sink.taken = Outlet.sealed 7 [.whole .pong [0x61]] := by
  intro ms k
  have hms : ∀ m ∈ ms, m.Conforms 2 := by decide
  have hbytes : k.bytes = ms.flatMap Dispatch.wire ++ [0x89] := by decide
  have hi : ms[1]? = some ⟨true, ⟨[.pong []], []⟩, []⟩ := rfl
  exact ⟨hms, hbytes,
    history_receive_dispatches k [.ending] Sink.working_willing .text 2 7 hms hbytes hi⟩

end EchoLoad.Connection
