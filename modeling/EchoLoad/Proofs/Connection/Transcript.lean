import EchoLoad.Proofs.Connection.Lifecycle
import EchoLoad.Proofs.Connection.Wire

/-!
# What a client says

The frames that a connection sends during its calls, told from the calls and their answers: a frame
for every message that has been written and for every ping, an answer to every ping and to the close
frame of the peer among the frames that a call has consumed, and the close frame of the client
(`Connection.sent`). `Connection.tried` counts a frame also if the stream has failed under it. Each
call does just that to its stream (`perform_tells`), so the bytes of a run are these frames, masked,
one behind the other (`transcript`).
-/

namespace EchoLoad

/-- The answer that a frame of the peer is owed. -/
def Frame.reply? (f : Frame) : Option Frame :=
  if f.masked then none
  else match f.opcode with
    | .ping => some (.whole .pong f.payload)
    | .close => some (.closing 1000)
    | _ => none

/-- The frames that take leave. -/
def Frame.isClosing (f : Frame) : Bool := f.opcode == .close

/-- The frames that a call sends of its own accord, and not in answer to the peer. -/
def Frame.isOwn (f : Frame) : Bool := f.opcode != .pong && f.opcode != .close

/-- The answer that goes with the meaning of a frame. -/
def Message.Meaning.reply? : Meaning → Option Frame
  | .ping payload => some (.whole .pong payload)
  | .close _ => some (.closing 1000)
  | .message _ | .part _ | .pong | .violation _ => none

theorem Message.reply?_grown (limit : Nat) (fin : Bool) (bytes : Bytes) :
    (grown limit fin bytes).reply? = none := by
  unfold grown
  split
  · rfl
  · split <;> rfl

theorem Message.reply?_of_take {limit : Nat} {held : Option Bytes} {f : Frame} {m : Meaning}
    (h : take limit held f = m) : f.reply? = m.reply? := by
  rw [← h]
  unfold take Frame.reply?
  cases f.masked with
  | true => rfl
  | false =>
    cases f.opcode with
    | ping | pong | close => rfl
    | text | binary =>
      cases held with
      | some front => rfl
      | none => exact (reply?_grown limit f.fin f.payload).symm
    | continuation =>
      cases held with
      | none => rfl
      | some front => exact (reply?_grown limit f.fin (front ++ f.payload)).symm

/-- The answers to frames that may travel may travel themselves. -/
theorem Frame.legal_of_reply? {f g : Frame} (h : f.Legal) (hg : f.reply? = some g) :
    g.Legal ∧ g.fin = true ∧ g.isOwn = false := by
  unfold reply? at hg
  split at hg
  · cases hg
  · split at hg
    · next ho =>
      cases hg
      have hcontrol : f.opcode.isControl = true := by
        rw [ho]
        rfl
      exact ⟨⟨h.short, fun _ => ⟨rfl, (h.control hcontrol).2⟩⟩, rfl, rfl⟩
    · cases hg
      exact ⟨⟨by decide, fun _ => ⟨rfl, by decide⟩⟩, rfl, rfl⟩
    · cases hg

namespace Connection

variable {c c' d : Connection} {held held' : Option Bytes} {f : Frame} {frames : List Frame}
  {o : Outcome Bytes}

/-! ## The frames of a call -/

/-- The frames of the peer that are gone from `c` to `d`. -/
def consumed (c d : Connection) : List Frame :=
  c.inbox.frames.take (c.inbox.frames.length - d.inbox.frames.length)

/-- The answers that they are owed. -/
def replies (c d : Connection) : List Frame := (c.consumed d).filterMap Frame.reply?

/-- The frames that a call sends, told from its answer. -/
def sentBy (c : Connection) : Operation → List Frame
  | .write data => if (c.write data).1 = .value data.length then [.whole c.opcode data] else []
  | .ping data => if (c.ping data).1 = .value () then [.whole .ping data] else []
  | .close => if c.closed then [] else [.closing 1000]
  | .receive => c.replies c.receive.2
  | .read length => c.replies (c.read length).2

/-- The frames that a call would send on a stream that does not fail. -/
def triedBy (c : Connection) : Operation → List Frame
  | .write data => if c.closed then [] else [.whole c.opcode data]
  | .ping data =>
    if c.closed ∨ Frame.maxControlPayload < data.length then [] else [.whole .ping data]
  | .close => if c.closed then [] else [.closing 1000]
  | .receive => c.replies c.receive.2
  | .read length => c.replies (c.read length).2

/-- What the calls say in turn. -/
def along (said : Connection → Operation → List Frame) (c : Connection) :
    List Operation → List Frame
  | [] => []
  | op :: ops => said c op ++ along said (c.perform op).2 ops

/-- The frames that calls in turn send. -/
def sent (c : Connection) (ops : List Operation) : List Frame := along sentBy c ops

def tried (c : Connection) (ops : List Operation) : List Frame := along triedBy c ops

theorem consumed_of_frames (h : c.inbox.frames = frames ++ d.inbox.frames) :
    c.consumed d = frames := by
  rw [consumed, h, List.length_append, Nat.add_sub_cancel, List.take_left]

theorem replies_of_frames_eq (h : d.inbox.frames = c.inbox.frames) : c.replies d = [] := by
  have hnone : c.inbox.frames = [] ++ d.inbox.frames := h.symm
  rw [replies, consumed_of_frames hnone]
  rfl

/-- Every answer is one that may be sent. -/
theorem legal_of_mem_replies (h : f ∈ c.replies d) :
    f.Legal ∧ f.fin = true ∧ f.isOwn = false := by
  obtain ⟨g, hg, hreply⟩ := List.mem_filterMap.mp h
  exact Frame.legal_of_reply? (Frame.legal_of_mem_parseAll (List.mem_of_mem_take hg)) hreply

/-! ## Receiving -/

/-- At most one close frame is among them, and then the connection is closed. -/
def Leaves (frames : List Frame) (d : Connection) : Prop :=
  frames.filter Frame.isClosing = [] ∨
    frames.filter Frame.isClosing = [.closing 1000] ∧ d.closed = true

theorem Turn.answers (h : Turn c held f c' held') :
    c.Emits (f.reply?.toList.map .frame) c' ∧ f.reply?.toList.filter Frame.isClosing = [] := by
  cases h with
  | part _ ht =>
    rw [Message.reply?_of_take ht]
    exact ⟨rfl, rfl⟩
  | pong _ ht =>
    rw [Message.reply?_of_take ht]
    exact ⟨rfl, rfl⟩
  | @ping inbox payload _ _ ht hs =>
    have hpong : { c with inbox }.Emits [.frame (.whole .pong payload)] c' := emits_of_sendFrame hs
    rw [Message.reply?_of_take ht]
    exact ⟨hpong, rfl⟩

theorem Stop.answers (h : Stop c held frames o d) :
    c.Emits ((frames.filterMap Frame.reply?).map .frame) d ∧
      Leaves (frames.filterMap Frame.reply?) d := by
  cases h with
  | malformed | ending | fault | waiting => exact ⟨rfl, .inl rfl⟩
  | message _ ht =>
    rw [List.filterMap_cons, Message.reply?_of_take ht]
    exact ⟨rfl, .inl rfl⟩
  | violation _ ht =>
    rw [List.filterMap_cons, Message.reply?_of_take ht]
    exact ⟨rfl, .inl rfl⟩
  | @unanswered inbox f payload fault _ _ ht hs =>
    have hpong : { c with inbox }.Emits [.frame (.whole .pong payload)] d := emits_of_sendFrame hs
    rw [List.filterMap_cons, Message.reply?_of_take ht]
    exact ⟨hpong, .inl rfl⟩
  | close _ ht =>
    rw [List.filterMap_cons, Message.reply?_of_take ht]
    exact ⟨rfl, .inr ⟨rfl, rfl⟩⟩

theorem replies_cons (f : Frame) (frames : List Frame) :
    (f :: frames).filterMap Frame.reply? = f.reply?.toList ++ frames.filterMap Frame.reply? := by
  rw [List.filterMap_cons]
  cases f.reply? <;> rfl

/-- A receiving call answers the frames that it takes. -/
theorem Receiving.answers (h : Receiving c held frames o d) :
    c.Emits ((frames.filterMap Frame.reply?).map .frame) d ∧
      Leaves (frames.filterMap Frame.reply?) d := by
  induction h with
  | stop h => exact h.answers
  | @turn c c' d held held' f frames o h _ ih =>
    obtain ⟨hemits, hclosing⟩ := h.answers
    obtain ⟨hrest, hleaves⟩ := ih
    rw [replies_cons]
    refine ⟨?_, ?_⟩
    · rw [List.map_append]
      exact hemits.trans hrest
    · rw [Leaves, List.filter_append, hclosing, List.nil_append]
      exact hleaves

/-- The answers that have been sent between `c` and `d`. -/
structure Answers (c d : Connection) : Prop where
  emits : c.Emits ((c.replies d).map .frame) d
  leaves : Leaves (c.replies d) d

theorem Answers.of_same (hinbox : d.inbox = c.inbox) (houtlet : d.outlet = c.outlet) :
    c.Answers d := by
  have hnone : c.replies d = [] := replies_of_frames_eq (congrArg Inbox.frames hinbox)
  refine ⟨?_, ?_⟩
  · rw [hnone]
    exact houtlet
  · rw [hnone]
    exact .inl rfl

theorem receive_answers (c : Connection) : c.Answers c.receive.2 := by
  cases hclosed : c.closed with
  | true =>
    rw [receive_of_closed hclosed]
    exact .of_same rfl rfl
  | false =>
    obtain ⟨frames, hr⟩ := receiving_receive hclosed
    have hreplies : c.replies c.receive.2 = frames.filterMap Frame.reply? := by
      rw [replies, consumed_of_frames hr.frames_eq]
    obtain ⟨hemits, hleaves⟩ := hr.answers
    rw [← hreplies] at hemits hleaves
    exact ⟨hemits, hleaves⟩

theorem read_answers (c : Connection) (length : Nat) : c.Answers (c.read length).2 := by
  have hreceive := c.receive_answers
  have hread := c.reads_read length
  generalize c.read length = r at hread ⊢
  cases hread with
  | nothing => exact .of_same rfl rfl
  | served => exact .of_same rfl rfl
  | message _ _ hr =>
    rw [hr] at hreceive
    exact ⟨hreceive.emits, hreceive.leaves⟩
  | failed _ _ hr =>
    rw [hr] at hreceive
    exact hreceive

/-! ## What a call says -/

/-- A call emits the frames that it tries to send. Apart from answers, those of them that get through
are the ones that the answer of the call reports. -/
structure Tells (c : Connection) (op : Operation) (d : Connection) : Prop where
  emits : ∃ es, c.Emits es d ∧ es.filterMap Emission.frame? = c.triedBy op ∧
    ((c.outlet.complete es).map Packet.frame).filter Frame.isOwn =
      (c.sentBy op).filter Frame.isOwn
  leaves : Leaves (c.triedBy op) d

theorem triedBy_of_closed (h : c.closed = true) (op : Operation) : c.triedBy op = [] := by
  cases op with
  | write data => exact if_pos h
  | ping data => exact if_pos (.inl h)
  | close => exact if_pos h
  | receive =>
    rw [triedBy, receive_of_closed h]
    exact replies_of_frames_eq rfl
  | read length =>
    obtain ⟨pending, hd⟩ := eq_of_closed h (.read length)
    have hread : (c.read length).2 = { c with pending } := hd
    rw [triedBy, hread]
    exact replies_of_frames_eq rfl

theorem ofFault_eq_value_iff {α : Type} {a : α} {fault : Option StreamFault} :
    Outcome.ofFault a fault = .value a ↔ fault = none := by
  cases fault with
  | none => exact ⟨fun _ => rfl, fun _ => rfl⟩
  | some f => exact ⟨nofun, nofun⟩

theorem sentBy_of_closed (h : c.closed = true) (op : Operation) : c.sentBy op = [] := by
  have htried := triedBy_of_closed h op
  cases op with
  | write data =>
    rw [sentBy, write_of_closed h]
    exact if_neg nofun
  | ping data =>
    rw [sentBy, ping_of_closed h]
    exact if_neg nofun
  | close => exact htried
  | receive => exact htried
  | read length => exact htried

theorem triedBy_write (hopen : c.closed = false) (data : Bytes) :
    c.triedBy (.write data) = [.whole c.opcode data] := by
  rw [triedBy, hopen]
  rfl

theorem triedBy_ping (hopen : c.closed = false) {data : Bytes}
    (hdata : data.length ≤ Frame.maxControlPayload) :
    c.triedBy (.ping data) = [.whole .ping data] := by
  rw [triedBy, hopen, if_neg]
  simp [hdata]

theorem sentBy_ping_of_long (hopen : c.closed = false) {data : Bytes}
    (hdata : Frame.maxControlPayload < data.length) : c.sentBy (.ping data) = [] := by
  rw [sentBy, ping_of_long hopen hdata]
  exact if_neg nofun

/-- On a closed connection nothing is sent, and nothing is reported as sent. -/
theorem tells_of_closed (h : c.closed = true) (op : Operation) :
    c.Tells op (c.perform op).2 := by
  have htried := triedBy_of_closed h op
  refine ⟨⟨[], ?_, htried.symm, ?_⟩, ?_⟩
  · obtain ⟨pending, hd⟩ := eq_of_closed h op
    rw [hd]
    rfl
  · rw [sentBy_of_closed h]
    rfl
  · rw [htried]
    exact .inl rfl

/-- A frame gets through if sending it has no fault. -/
theorem complete_sendFrame (c : Connection) (f : Frame) :
    (c.outlet.complete [.frame f]).map Packet.frame =
      if (c.sendFrame f).1 = none then [f] else [] := by
  have hfault : (c.outlet.sink.send (c.outlet.packet f).wire).1 = (c.sendFrame f).1 := by
    rw [sendFrame_eq]
    rfl
  rw [Outlet.complete, hfault]
  cases (c.sendFrame f).1 with
  | none => rfl
  | some fault => rfl

/-- A call that answers frames of the peer, and sends nothing else. -/
theorem Answers.tells {op : Operation} (h : c.Answers d) (htried : c.triedBy op = c.replies d)
    (hsent : c.sentBy op = c.replies d) : c.Tells op d := by
  have hframes : ((c.replies d).map Emission.frame).filterMap Emission.frame? = c.replies d := by
    rw [List.filterMap_map]
    exact List.filterMap_some
  have hquiet : (c.replies d).filter Frame.isOwn = [] := by
    rw [List.filter_eq_nil_iff]
    intro f hf
    rw [(legal_of_mem_replies hf).2.2]
    decide
  refine ⟨⟨_, h.emits, hframes.trans htried.symm, ?_⟩, ?_⟩
  · have hsub := (c.outlet.complete_sublist ((c.replies d).map .frame)).filter Frame.isOwn
    rw [hframes, hquiet] at hsub
    rw [hsent, hquiet]
    exact List.sublist_nil.mp hsub
  · rw [htried]
    exact h.leaves

/-- A call that sends one frame of its own and answers whether this has gone well. -/
theorem tells_of_own {op : Operation} (hclosing : f.isClosing = false)
    (htried : c.triedBy op = [f])
    (hsent : c.sentBy op = if (c.sendFrame f).1 = none then [f] else []) :
    c.Tells op (c.sendFrame f).2 := by
  have hcomplete := (c.complete_sendFrame f).trans hsent.symm
  refine ⟨⟨[.frame f], emits_sendFrame c f, htried.symm, by rw [hcomplete]⟩, ?_⟩
  rw [htried]
  refine .inl (List.filter_eq_nil_iff.mpr fun g hg => ?_)
  rw [List.mem_singleton.mp hg, hclosing]
  nofun

theorem write_tells (hopcode : c.opcode ≠ .close) (hopen : c.closed = false) (data : Bytes) :
    c.Tells (.write data) (c.write data).2 := by
  have hsent : c.sentBy (.write data) =
      if (c.sendFrame (.whole c.opcode data)).1 = none then [.whole c.opcode data] else [] := by
    rw [sentBy, write_of_open hopen]
    simp only [ofFault_eq_value_iff]
  have hclosing : (Frame.whole c.opcode data).isClosing = false := by
    simp [Frame.isClosing, Frame.whole, hopcode]
  rw [write_of_open hopen]
  exact tells_of_own hclosing (triedBy_write hopen data) hsent

theorem ping_tells (hopen : c.closed = false) (data : Bytes) :
    c.Tells (.ping data) (c.ping data).2 := by
  by_cases hdata : data.length ≤ Frame.maxControlPayload
  · have hsent : c.sentBy (.ping data) =
        if (c.sendFrame (.whole .ping data)).1 = none then [.whole .ping data] else [] := by
      rw [sentBy, ping_of_open hopen hdata]
      simp only [ofFault_eq_value_iff]
    rw [ping_of_open hopen hdata]
    exact tells_of_own rfl (triedBy_ping hopen hdata) hsent
  · have hlong := Nat.lt_of_not_le hdata
    have htried : c.triedBy (.ping data) = [] := if_pos (.inr hlong)
    rw [ping_of_long hopen hlong]
    refine ⟨⟨[], .refl c, htried.symm, ?_⟩, ?_⟩
    · rw [sentBy_ping_of_long hopen hlong]
      rfl
    · rw [htried]
      exact .inl rfl

theorem close_tells (hopen : c.closed = false) : c.Tells .close c.close.2 := by
  have htried : c.triedBy .close = [.closing 1000] := by
    rw [triedBy, hopen]
    rfl
  have hclosing : ∀ es : List Emission, es.filterMap Emission.frame? = [.closing 1000] →
      c.Emits es c.close.2 → c.close.2.closed = true → c.Tells .close c.close.2 := by
    intro es hes hemits hclosed
    refine ⟨⟨es, hemits, hes.trans htried.symm, ?_⟩, ?_⟩
    · have hsub := (c.outlet.complete_sublist es).filter Frame.isOwn
      rw [hes] at hsub
      have hsent : c.sentBy .close = [.closing 1000] := htried
      rw [hsent]
      exact List.sublist_nil.mp hsub
    · rw [htried]
      exact .inr ⟨rfl, hclosed⟩
  cases hs : { c with closed := true }.sendFrame (.closing normalClosure) with
  | mk fault d =>
    have hflagged : { c with closed := true }.Emits [.frame (.closing 1000)] d :=
      emits_of_sendFrame hs
    have hes : c.Emits [.frame (.closing 1000)] d := hflagged
    have hclosed : d.closed = true := by
      obtain ⟨_, _, rfl⟩ := eq_of_sendFrame hs
      rfl
    cases fault with
    | some fault =>
      rw [close_of_fault hopen hs] at hclosing ⊢
      exact hclosing _ rfl hes hclosed
    | none =>
      rw [close_of_sent hopen hs] at hclosing ⊢
      have hshut : d.Emits [.shutdown] { d with sink := d.sink.shutdown.2 } := rfl
      exact hclosing _ rfl (hes.trans hshut) hclosed

theorem perform_tells (hopcode : c.opcode ≠ .close) (op : Operation) :
    c.Tells op (c.perform op).2 := by
  cases hclosed : c.closed with
  | true => exact tells_of_closed hclosed op
  | false =>
    cases op with
    | write data => exact write_tells hopcode hclosed data
    | ping data => exact ping_tells hclosed data
    | close => exact close_tells hclosed
    | receive => exact c.receive_answers.tells rfl rfl
    | read length => exact (c.read_answers length).tells rfl rfl

/-! ## Calls in turn -/

theorem opcode_perform (hopcode : c.opcode ≠ .close) (op : Operation) :
    (c.perform op).2.opcode = c.opcode :=
  (sends_after hopcode [op]).1

theorem opcode_perform_ne (hopcode : c.opcode ≠ .close) (op : Operation) :
    (c.perform op).2.opcode ≠ .close := by
  rw [opcode_perform hopcode]
  exact hopcode

theorem tried_of_closed (h : c.closed = true) (ops : List Operation) : c.tried ops = [] := by
  induction ops generalizing c with
  | nil => rfl
  | cons op ops ih =>
    obtain ⟨pending, hd⟩ := eq_of_closed h op
    have hrest : (c.perform op).2.tried ops = [] := by
      apply ih
      rw [hd]
      exact h
    rw [tried, along, triedBy_of_closed h op]
    exact hrest

/-- At most one of the frames is a close frame. -/
theorem closing_tried (hopcode : c.opcode ≠ .close) (ops : List Operation) :
    (c.tried ops).filter Frame.isClosing = [] ∨
      (c.tried ops).filter Frame.isClosing = [.closing 1000] := by
  induction ops generalizing c with
  | nil => exact .inl rfl
  | cons op ops ih =>
    have hcons : c.tried (op :: ops) = c.triedBy op ++ (c.perform op).2.tried ops := rfl
    rw [hcons, List.filter_append]
    rcases (perform_tells hopcode op).leaves with hnone | ⟨hone, hclosed⟩
    · rw [hnone, List.nil_append]
      exact ih (opcode_perform_ne hopcode op)
    · rw [hone, tried_of_closed hclosed]
      exact .inr rfl

/-- Calls in turn emit the frames that they try to send, and report those that get through. -/
theorem tells_after (hopcode : c.opcode ≠ .close) (ops : List Operation) :
    ∃ es, c.Emits es (c.after ops) ∧ es.filterMap Emission.frame? = c.tried ops ∧
      ((c.outlet.complete es).map Packet.frame).filter Frame.isOwn =
        (c.sent ops).filter Frame.isOwn := by
  induction ops generalizing c with
  | nil => exact ⟨[], .refl c, rfl, rfl⟩
  | cons op ops ih =>
    obtain ⟨es, hemits, hframes, hown⟩ := (perform_tells hopcode op).emits
    obtain ⟨es', hemits', hframes', hown'⟩ := ih (opcode_perform_ne hopcode op)
    refine ⟨es ++ es', hemits.trans hemits', ?_, ?_⟩
    · rw [List.filterMap_append, hframes, hframes']
      rfl
    · rw [Outlet.complete_append, ← hemits, List.map_append, List.filter_append, hown, hown',
        ← List.filter_append]
      rfl

/-- On a working stream every call succeeds in sending what it tries to. -/
theorem sentBy_of_working (h : c.sink.Working) (op : Operation) : c.sentBy op = c.triedBy op := by
  cases hclosed : c.closed with
  | true => rw [sentBy_of_closed hclosed, triedBy_of_closed hclosed]
  | false =>
    cases op with
    | close => rfl
    | receive => rfl
    | read length => rfl
    | write data =>
      have hnone := (sendFrame_of_working h (.whole c.opcode data)).1
      rw [triedBy_write hclosed, sentBy, write_of_open hclosed, hnone]
      exact if_pos rfl
    | ping data =>
      have hnone := (sendFrame_of_working h (.whole .ping data)).1
      by_cases hdata : data.length ≤ Frame.maxControlPayload
      · rw [triedBy_ping hclosed hdata, sentBy, ping_of_open hclosed hdata, hnone]
        exact if_pos rfl
      · have hlong := Nat.lt_of_not_le hdata
        rw [sentBy_ping_of_long hclosed hlong]
        exact (if_pos (.inr hlong)).symm

theorem sent_of_working (hopcode : c.opcode ≠ .close) (h : c.sink.Working) (ops : List Operation) :
    c.sent ops = c.tried ops := by
  induction ops generalizing c with
  | nil => rfl
  | cons op ops ih =>
    obtain ⟨es, hemits, -, -⟩ := (perform_tells hopcode op).emits
    have hworking : (c.perform op).2.sink.Working := by
      have hall := (Outlet.taken_of_working (o := c.outlet) h es).1
      rw [← hemits] at hall
      exact hall
    have hrest := ih (opcode_perform_ne hopcode op) hworking
    have hhead := sentBy_of_working h op
    rw [sent, tried, along, along, hhead]
    exact congrArg _ hrest

/-- Every frame is final, and may travel if its payload is not too long. -/
theorem legal_of_mem_triedBy (hopcode : c.opcode.isControl = false) {op : Operation}
    (h : f ∈ c.triedBy op) :
    f.fin = true ∧ (f.payload.length ≤ Frame.maxPayload → f.Legal) := by
  cases op with
  | write data =>
    rw [triedBy] at h
    split at h
    · cases h
    · rw [List.mem_singleton.mp h]
      refine ⟨rfl, fun hshort => ⟨hshort, fun hcontrol => ?_⟩⟩
      cases hopcode.symm.trans hcontrol
  | ping data =>
    rw [triedBy] at h
    split at h
    · cases h
    · next hdata =>
      rw [List.mem_singleton.mp h]
      rw [not_or, Nat.not_lt] at hdata
      exact ⟨rfl, fun hshort => ⟨hshort, fun _ => ⟨rfl, hdata.2⟩⟩⟩
  | close =>
    rw [triedBy] at h
    split at h
    · cases h
    · rw [List.mem_singleton.mp h]
      exact ⟨rfl, fun hshort => ⟨hshort, fun _ => ⟨rfl, by decide⟩⟩⟩
  | receive =>
    obtain ⟨hlegal, hfin, -⟩ := legal_of_mem_replies h
    exact ⟨hfin, fun _ => hlegal⟩
  | read length =>
    obtain ⟨hlegal, hfin, -⟩ := legal_of_mem_replies h
    exact ⟨hfin, fun _ => hlegal⟩

theorem legal_of_mem_tried (hopcode : c.opcode.isControl = false) {ops : List Operation}
    (h : f ∈ c.tried ops) :
    f.fin = true ∧ (f.payload.length ≤ Frame.maxPayload → f.Legal) := by
  induction ops generalizing c with
  | nil => cases h
  | cons op ops ih =>
    rcases List.mem_append.mp h with h | h
    · exact legal_of_mem_triedBy hopcode h
    · refine ih ?_ h
      rw [opcode_perform]
      · exact hopcode
      · intro hclose
        rw [hclose] at hopcode
        cases hopcode

/-- Frames as a client sends them: each is a whole message or control frame, and at most one of them
is a close frame, which has the code of a normal closure. -/
structure Proper (frames : List Frame) : Prop where
  fin : ∀ f ∈ frames, f.fin = true
  closing : frames.filter Frame.isClosing = [] ∨ frames.filter Frame.isClosing = [.closing 1000]

/-- The bytes that calls put on a stream. If the stream takes everything, in pieces of any size, they
are the frames that the answers of the calls report, each under a mask, one behind the other; frames of
an allowed size are read back from them, with nothing left over. If the stream breaks, they are the
frames up to the break and a part of the next one at most; the messages and pings among the frames are
the reported ones. -/
theorem transcript (hopcode : c.opcode = .text ∨ c.opcode = .binary) (ops : List Operation) :
    let d := c.after ops
    (c.sink.Working → Proper (c.sent ops) ∧
      ∃ packets : List Packet, packets.map Packet.frame = c.sent ops ∧
        (∀ x ∈ packets, x.key.isSome = true) ∧
        d.sink.taken = c.sink.taken ++ packets.flatMap Packet.wire ∧
        ((∀ f ∈ c.sent ops, f.payload.length ≤ Frame.maxPayload) →
          Frame.parseAll (packets.flatMap Packet.wire) =
            ((c.sent ops).map fun f => { f with masked := true }, .ok []))) ∧
      ∀ n, c.sink.FailsFrom n → Proper (c.tried ops) ∧
        ∃ (packets : List Packet) (front : Bytes), (∀ x ∈ packets, x.key.isSome = true) ∧
          d.sink.taken = c.sink.taken ++ packets.flatMap Packet.wire ++ front ∧
          Outlet.Torn front (packets.map Packet.frame) (c.tried ops) ∧
          (packets.map Packet.frame).filter Frame.isOwn = (c.sent ops).filter Frame.isOwn := by
  intro d
  have hcontrol : c.opcode.isControl = false := by
    rcases hopcode with h | h <;> rw [h] <;> rfl
  have hclose : c.opcode ≠ .close := by
    rcases hopcode with h | h <;> rw [h] <;> decide
  have hproper : Proper (c.tried ops) :=
    ⟨fun f hf => (legal_of_mem_tried hcontrol hf).1, closing_tried hclose ops⟩
  obtain ⟨es, hemits, hframes, hown⟩ := tells_after hclose ops
  have htaken : d.sink.taken = (c.outlet.emitAll es).sink.taken := by
    rw [← hemits]
    rfl
  refine ⟨fun hworking => ?_, fun n hfails => ⟨hproper, ?_⟩⟩
  · obtain ⟨-, hpackets, hbytes⟩ := Outlet.taken_of_working (o := c.outlet) hworking es
    rw [hframes] at hpackets
    rw [sent_of_working hclose hworking]
    refine ⟨hproper, c.outlet.complete es, hpackets, fun x hx => Outlet.isSome_key hx,
      htaken.trans hbytes, fun hshort => ?_⟩
    have hlegal : ∀ x ∈ c.outlet.complete es, x.frame.Legal := by
      intro x hx
      have hmem : x.frame ∈ c.tried ops := by
        rw [← hpackets]
        exact List.mem_map_of_mem hx
      exact (legal_of_mem_tried hcontrol hmem).2 (hshort _ hmem)
    have hmasked : (c.outlet.complete es).map Packet.received =
        (c.tried ops).map fun f => { f with masked := true } := by
      rw [← hpackets, List.map_map]
      refine List.map_congr_left fun x hx => ?_
      rw [Packet.received, Outlet.isSome_key hx]
      rfl
    have hnil : Frame.parseAll [] = ([], .ok []) := Frame.parseAll_of_none rfl
    have hread := Packet.parseAll_flatMap_wire hlegal []
    rw [List.append_nil, hnil, List.append_nil, hmasked] at hread
    exact hread
  · obtain ⟨front, hbytes, htorn⟩ := Outlet.taken_of_failsFrom (o := c.outlet) hfails es
    rw [hframes] at htorn
    exact ⟨c.outlet.complete es, front, fun x hx => Outlet.isSome_key hx, htaken.trans hbytes,
      htorn, hown⟩

/-- A message is written to a stream that takes one byte at a time and breaks in the answer to a
ping. -/
theorem transcript_ping_unanswered :
    let accept : Nat → Nat → Except StreamFault Nat := fun call _ =>
      if call < 12 then .ok 1 else .error { kind := .brokenPipe }
    let source := Source.ofArrivals [.data [0x89, 1, 0x61], .pause]
    let c := ofUpgraded source { Sink.willing with accept } [] .text 7
    let d := c.after [.write [0x48, 0x69], .receive, .close]
    (c.opcode = .text ∨ c.opcode = .binary) ∧ c.sink.FailsFrom 12 ∧
      ∃ (packets : List Packet) (front : Bytes), d.sink.taken = packets.flatMap Packet.wire ++ front ∧
        Outlet.Torn front (packets.map Packet.frame)
          [.whole .text [0x48, 0x69], .whole .pong [0x61], .closing 1000] ∧
        (packets.map Packet.frame).filter Frame.isOwn = [.whole .text [0x48, 0x69]] := by
  intro accept source c d
  have hopcode : c.opcode = .text ∨ c.opcode = .binary := .inl rfl
  have hfails : c.sink.FailsFrom 12 := by
    refine ⟨fun call offered hcall _ => ⟨0, if_pos hcall⟩, fun call offered k hcall htaken => ?_,
      fun _ => rfl⟩
    have hfault : c.sink.accept call offered = .error { kind := .brokenPipe } :=
      if_neg (Nat.not_lt_of_le hcall)
    cases hfault.symm.trans htaken
  have htried : c.tried [.write [0x48, 0x69], .receive, .close] =
      [.whole .text [0x48, 0x69], .whole .pong [0x61], .closing 1000] := by decide +kernel
  have hsent : (c.sent [.write [0x48, 0x69], .receive, .close]).filter Frame.isOwn =
      [.whole .text [0x48, 0x69]] := by decide +kernel
  obtain ⟨-, htorn⟩ := transcript hopcode [.write [0x48, 0x69], .receive, .close]
  obtain ⟨-, packets, front, -, hbytes, htorn, hown⟩ := htorn 12 hfails
  rw [htried] at htorn
  rw [hsent] at hown
  exact ⟨hopcode, hfails, packets, front, hbytes, htorn, hown⟩

end Connection

end EchoLoad
