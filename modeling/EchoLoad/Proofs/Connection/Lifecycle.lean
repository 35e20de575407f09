import EchoLoad.Proofs.Connection.Emission
import EchoLoad.Proofs.Connection.Receiving
import Mathlib.Data.List.Induction

/-!
# The life of a connection

A connection is open until a call closes it, and then closed for good. What a call does to an open
connection is said by `Connection.Effect`: it sends frames none of which is a close frame, and may
then take its leave by one close frame, or by one close frame and a shutdown
(`Connection.Farewell`); if the connection is closed afterwards, there is a reason for it
(`Connection.ClosedBy`). A closed connection leaves its stream alone (`perform_of_closed`). Calls in
turn therefore send at most one close frame, and nothing behind it (`sends_after`); `lifecycle` puts
this together.
-/

namespace EchoLoad

/-- Looking for a frame has come to an end that closes a connection. -/
inductive Inbox.EndedBy (b : Inbox) (o : Outcome Bytes) (b' : Inbox) : Prop where
  /-- The last frame that is found is a close frame of the peer. -/
  | peer {frames : List Frame} {f : Frame} (h : b.Yields (frames ++ [f]) b')
      (hf : f.opcode = .close) (hm : f.masked = false)
      (ho : o = .error (.breakdown (.closedByPeer f.closeCode)))
  /-- The stream is at its end behind the frames that are found. -/
  | ending {frames : List Frame} {b₁ : Inbox} (h : b.Yields frames b₁)
      (hend : b₁.next = (.ending, b')) (ho : o = .error (.breakdown .endOfStream))

theorem Inbox.EndedBy.cons {b b₁ b' : Inbox} {f : Frame} {o : Outcome Bytes}
    (hn : b.next = (.frame f, b₁)) (h : b₁.EndedBy o b') : b.EndedBy o b' := by
  cases h with
  | @peer frames f' h hf hm ho =>
    have hcons : b.Yields ((f :: frames) ++ [f']) b' := .next hn h
    exact .peer hcons hf hm ho
  | ending h hend ho => exact .ending (.next hn h) hend ho

namespace Connection

variable {c c' d : Connection} {held held' : Option Bytes} {f : Frame} {frames : List Frame}
  {o : Outcome Bytes}

/-! ## Taking leave -/

/-- What is sent last: nothing in particular, a close frame with the code of a normal closure, or this
frame and the end of the writing half. -/
inductive Farewell : List Emission → Prop where
  | none : Farewell []
  | closing : Farewell [.frame (.closing 1000)]
  | shutdown : Farewell [.frame (.closing 1000), .shutdown]

/-- The call has shut down the writing half, after its close frame has been taken to the last byte and
flushed. -/
def ShutBy (c : Connection) (op : Operation) (d : Connection) : Prop :=
  op = .close ∧ ∃ key sink, c.sink.Sent ((Frame.closing 1000).encode (some key)) sink ∧
    d.sink = sink.shutdown.2

/-- What a call sends: frames that are no close frames, and its farewell. It takes its leave only of a
connection that is closed afterwards. -/
def Sends (c : Connection) (tail : List Emission) (d : Connection) : Prop :=
  ∃ sent : List Frame, c.Emits (sent.map .frame ++ tail) d ∧ (∀ f ∈ sent, f.opcode ≠ .close) ∧
    Farewell tail ∧ (d.closed = false → tail = [])

theorem Sends.of_emits {sent : List Frame} (h : c.Emits (sent.map .frame) d)
    (hsent : ∀ f ∈ sent, f.opcode ≠ .close) : c.Sends [] d := by
  refine ⟨sent, ?_, hsent, .none, fun _ => rfl⟩
  rw [List.append_nil]
  exact h

theorem emits_of_sendFrame {fault : Option StreamFault} (h : c.sendFrame f = (fault, d)) :
    c.Emits [.frame f] d := by
  have hd : (c.sendFrame f).2 = d := congrArg Prod.snd h
  rw [← hd]
  exact emits_sendFrame c f

theorem Sends.of_sendFrame {fault : Option StreamFault} (h : c.sendFrame f = (fault, d))
    (hf : f.opcode ≠ .close) : c.Sends [] d := by
  have hes : c.Emits ([f].map .frame) d := emits_of_sendFrame h
  refine .of_emits hes fun g hg => ?_
  rw [List.mem_singleton.mp hg]
  exact hf

/-- Nothing has been sent. -/
theorem Sends.of_outlet (h : d.outlet = c.outlet) : c.Sends [] d := by
  have hes : c.Emits (([] : List Frame).map .frame) d := h
  exact .of_emits hes nofun

/-- What is sent goes behind what an open connection has sent before. -/
theorem Sends.trans {d' : Connection} {tail tail' : List Emission} (h : c.Sends tail d)
    (hopen : d.closed = false) (h' : d.Sends tail' d') : c.Sends tail' d' := by
  obtain ⟨sent, hes, hsent, -, htail⟩ := h
  obtain ⟨sent', hes', hsent', hfarewell, hclosed⟩ := h'
  have hnil := htail hopen
  rw [hnil, List.append_nil] at hes
  refine ⟨sent ++ sent', ?_, ?_, hfarewell, hclosed⟩
  · rw [List.map_append, List.append_assoc]
    exact hes.trans hes'
  · intro g hg
    rcases List.mem_append.mp hg with hg | hg
    · exact hsent g hg
    · exact hsent' g hg

theorem Sends.shutdowns {tail : List Emission} (h : c.Sends tail d) :
    d.sink.shutdowns = c.sink.shutdowns + tail.count .shutdown := by
  obtain ⟨sent, hes, -, -, -⟩ := h
  have hframes : (sent.map Emission.frame).count .shutdown = 0 := by
    rw [List.count_eq_zero]
    intro hmem
    obtain ⟨f, -, hf⟩ := List.mem_map.mp hmem
    cases hf
  have hcount := Outlet.shutdowns_emitAll c.outlet (sent.map .frame ++ tail)
  rw [← hes, List.count_append, hframes, Nat.zero_add] at hcount
  exact hcount

/-! ## What a receiving call does -/

/-- A turn answers a ping or sends nothing, and leaves the connection open. -/
theorem Turn.sends (h : Turn c held f c' held') :
    c.Sends [] c' ∧ c'.opcode = c.opcode ∧ c'.closed = c.closed := by
  cases h with
  | part | pong => exact ⟨.of_outlet rfl, rfl, rfl⟩
  | @ping inbox payload _ _ _ hs =>
    have hpong : { c with inbox }.Sends [] c' := .of_sendFrame hs nofun
    obtain ⟨_, _, rfl⟩ := eq_of_sendFrame hs
    exact ⟨hpong, rfl, rfl⟩

/-- The last turn of a call on an open connection. -/
theorem Stop.sends (h : Stop c held frames o d) (hopen : c.closed = false) :
    (∃ tail, c.Sends tail d ∧ .shutdown ∉ tail) ∧ d.opcode = c.opcode ∧
      (d.closed = true → c.inbox.EndedBy o d.inbox) := by
  have hquiet : ∀ {inbox : Inbox} {closed : Bool},
      ∃ tail, c.Sends tail { c with inbox, closed } ∧ .shutdown ∉ tail :=
    ⟨[], .of_outlet rfl, List.not_mem_nil⟩
  have hstays : ∀ {P : Prop}, c.closed = true → P := fun h => absurd (hopen.symm.trans h) (by decide)
  cases h with
  | malformed | fault | waiting | message | violation => exact ⟨hquiet, rfl, hstays⟩
  | @ending inbox h => exact ⟨hquiet, rfl, fun _ => .ending (.none _) h rfl⟩
  | @unanswered inbox f payload _ _ h _ hs =>
    have hpong : { c with inbox }.Sends [] d := .of_sendFrame hs nofun
    obtain ⟨_, _, rfl⟩ := eq_of_sendFrame hs
    exact ⟨⟨[], hpong, List.not_mem_nil⟩, rfl, hstays⟩
  | @close inbox f code h ht =>
    have hspec := Message.take_spec c.maxMessage held f
    rw [ht] at hspec
    obtain ⟨hm, hf, rfl⟩ := hspec
    have hyields : c.inbox.Yields ([] ++ [f]) inbox := .next h (.none _)
    refine ⟨⟨[.frame (.closing 1000)], ⟨[], rfl, nofun, .closing, nofun⟩, by decide⟩, rfl, ?_⟩
    exact fun _ => .peer hyields hf hm rfl

/-- A receiving call on an open connection. -/
theorem Receiving.sends (h : Receiving c held frames o d) (hopen : c.closed = false) :
    (∃ tail, c.Sends tail d ∧ .shutdown ∉ tail) ∧ d.opcode = c.opcode ∧
      (d.closed = true → c.inbox.EndedBy o d.inbox) := by
  induction h with
  | stop h => exact h.sends hopen
  | turn h _ ih =>
    obtain ⟨hsends, hopcode, hclosed⟩ := h.sends
    have hopen' := hclosed.trans hopen
    obtain ⟨⟨tail, hrest, hshutdown⟩, hopcode', hended⟩ := ih hopen'
    refine ⟨⟨tail, hsends.trans hopen' hrest, hshutdown⟩, hopcode'.trans hopcode, fun hd => ?_⟩
    exact (hended hd).cons h.next

/-! ## What a call does -/

/-- Why a call closes an open connection. -/
inductive ClosedBy (c : Connection) : Operation → Answer → Connection → Prop where
  | close {a : Answer} {d : Connection} : ClosedBy c .close a d
  | receive {o : Outcome Bytes} {d : Connection} (h : c.inbox.EndedBy o d.inbox) :
      ClosedBy c .receive (.bytes o) d
  | read {length : Nat} {o : Outcome Bytes} {d : Connection} (h : c.inbox.EndedBy o d.inbox) :
      ClosedBy c (.read length) (.bytes o) d

/-- What a call does on an open connection. -/
structure Effect (c : Connection) (op : Operation) (r : Answer × Connection) : Prop where
  opcode : r.2.opcode = c.opcode
  sends : ∃ tail, c.Sends tail r.2 ∧ (.shutdown ∈ tail → ShutBy c op r.2)
  closed : r.2.closed = true → ClosedBy c op r.1 r.2

theorem write_effect (hopcode : c.opcode ≠ .close) (hopen : c.closed = false) (data : Bytes) :
    c.Effect (.write data) (.written (c.write data).1, (c.write data).2) := by
  rw [write_of_open hopen]
  refine ⟨rfl, ⟨[], .of_sendFrame rfl hopcode, nofun⟩, fun hclosed => ?_⟩
  cases hopen.symm.trans hclosed

theorem ping_effect (hopen : c.closed = false) (data : Bytes) :
    c.Effect (.ping data) (.done (c.ping data).1, (c.ping data).2) := by
  by_cases hdata : data.length ≤ Frame.maxControlPayload
  · rw [ping_of_open hopen hdata]
    refine ⟨rfl, ⟨[], .of_sendFrame rfl nofun, nofun⟩, fun hclosed => ?_⟩
    cases hopen.symm.trans hclosed
  · rw [ping_of_long hopen (Nat.lt_of_not_le hdata)]
    refine ⟨rfl, ⟨[], .of_outlet rfl, nofun⟩, fun hclosed => ?_⟩
    cases hopen.symm.trans hclosed

theorem close_effect (hopen : c.closed = false) :
    c.Effect .close (.done c.close.1, c.close.2) := by
  cases hs : { c with closed := true }.sendFrame (.closing normalClosure) with
  | mk fault d =>
    have hflagged : { c with closed := true }.Emits [.frame (.closing 1000)] d :=
      emits_of_sendFrame hs
    have hes : c.Emits [.frame (.closing 1000)] d := hflagged
    obtain ⟨sink, maskCounter, hd⟩ := eq_of_sendFrame hs
    cases fault with
    | some fault =>
      rw [close_of_fault hopen hs]
      have hclosed : d.closed = true := by rw [hd]
      refine ⟨by rw [hd], ⟨[.frame (.closing 1000)], ⟨[], hes, nofun, .closing, ?_⟩, nofun⟩,
        fun _ => .close⟩
      exact fun hfalse => absurd (hclosed.symm.trans hfalse) (by decide)
    | none =>
      rw [close_of_sent hopen hs]
      have hclosed : d.closed = true := by rw [hd]
      have hsent : c.sink.Sent
          ((Frame.closing 1000).encode (some (nextMask c.maskCounter).1)) d.sink := by
        have hfault : (c.sink.send ((Frame.closing 1000).encode
            (some (nextMask c.maskCounter).1))).1 = none := congrArg (·.1) hs
        have hsink : (c.sink.send ((Frame.closing 1000).encode
            (some (nextMask c.maskCounter).1))).2 = d.sink := congrArg (·.2.sink) hs
        exact Sink.sent_of_send (Prod.ext hfault hsink)
      have hshut : d.Emits [.shutdown] { d with sink := d.sink.shutdown.2 } := rfl
      refine ⟨by rw [hd], ⟨_, ⟨[], hes.trans hshut, nofun, .shutdown, ?_⟩, ?_⟩, fun _ => .close⟩
      · exact fun hfalse => absurd (hclosed.symm.trans hfalse) (by decide)
      · exact fun _ => ⟨rfl, _, d.sink, hsent, rfl⟩

theorem receive_effect (hopen : c.closed = false) :
    c.Effect .receive (.bytes c.receive.1, c.receive.2) := by
  obtain ⟨frames, hr⟩ := receiving_receive hopen
  obtain ⟨⟨tail, hsends, hshutdown⟩, hopcode, hended⟩ := hr.sends hopen
  exact ⟨hopcode, ⟨tail, hsends, fun hmem => absurd hmem hshutdown⟩,
    fun hclosed => .receive (hended hclosed)⟩

/-- What is left of a message, or taken of it, does not matter to the effect of a read. -/
theorem Effect.read {o o' : Outcome Bytes} (h : c.Effect .receive (.bytes o, d))
    (length : Nat) (pending : Bytes) (ho : d.closed = true → o' = o) :
    c.Effect (.read length) (.bytes o', { d with pending }) := by
  obtain ⟨tail, ⟨sent, hes, hsent, hfarewell, htail⟩, hshut⟩ := h.sends
  refine ⟨h.opcode, ⟨tail, ⟨sent, hes, hsent, hfarewell, htail⟩, fun hmem => ?_⟩, fun hclosed => ?_⟩
  · cases (hshut hmem).1
  · rw [ho hclosed]
    cases h.closed hclosed with
    | receive hended => exact .read hended

theorem read_effect (hopen : c.closed = false) (length : Nat) :
    c.Effect (.read length) (.bytes (c.read length).1, (c.read length).2) := by
  have hstays : ∀ {P : Prop}, c.closed = true → P := fun h => absurd (hopen.symm.trans h) (by decide)
  have hreceive := receive_effect hopen
  have hread := c.reads_read length
  generalize c.read length = r at hread ⊢
  cases hread with
  | nothing | served => exact ⟨rfl, ⟨[], .of_outlet rfl, nofun⟩, hstays⟩
  | message _ _ hr =>
    rw [hr] at hreceive
    refine hreceive.read length _ fun hclosed => ?_
    cases hreceive.closed hclosed with
    | receive hended => cases hended <;> contradiction
  | @failed _ _ o d hr =>
    rw [hr] at hreceive
    exact hreceive.read length d.pending fun _ => rfl

theorem perform_effect (hopcode : c.opcode ≠ .close) (hopen : c.closed = false) (op : Operation) :
    c.Effect op (c.perform op) := by
  cases op with
  | write data => exact write_effect hopcode hopen data
  | read length => exact read_effect hopen length
  | receive => exact receive_effect hopen
  | ping data => exact ping_effect hopen data
  | close => exact close_effect hopen

/-! ## Calls in turn -/

/-- Calls in turn send frames that are no close frames, and then at most one farewell. -/
theorem sends_after (hopcode : c.opcode ≠ .close) (ops : List Operation) :
    (c.after ops).opcode = c.opcode ∧ ∃ tail, c.Sends tail (c.after ops) := by
  induction ops using List.reverseRecOn with
  | nil => exact ⟨rfl, [], .of_outlet rfl⟩
  | append_singleton ops op ih =>
    obtain ⟨hsame, tail, hsends⟩ := ih
    rw [after_append_singleton]
    cases hclosed : (c.after ops).closed with
    | true =>
      obtain ⟨pending, hd⟩ := eq_of_closed hclosed op
      rw [hd]
      obtain ⟨sent, hes, hsent, hfarewell, -⟩ := hsends
      refine ⟨hsame, tail, sent, hes, hsent, hfarewell, fun hfalse => ?_⟩
      cases hclosed.symm.trans hfalse
    | false =>
      rw [← hsame] at hopcode
      have heffect := perform_effect hopcode hclosed op
      obtain ⟨tail', hsends', -⟩ := heffect.sends
      exact ⟨heffect.opcode.trans hsame, tail', hsends.trans hclosed hsends'⟩

theorem Farewell.count_shutdown_le {tail : List Emission} (h : Farewell tail) :
    tail.count .shutdown ≤ 1 := by
  cases h <;> decide

/-- What a call does in the life of a connection: it closes an open connection for a reason only; a
closed one refuses it and leaves its stream alone; and it shuts down the writing half only if it is the
close that ends the connection, behind its close frame. -/
structure Lawful (c : Connection) (op : Operation) (r : Answer × Connection) : Prop where
  closing : c.closed = false → r.2.closed = true → ClosedBy c op r.1 r.2
  refusing : c.closed = true → r = c.whenClosed op ∧ r.2.closed = true
  shutting : r.2.sink.shutdowns ≠ c.sink.shutdowns →
    c.closed = false ∧ r.2.closed = true ∧ ShutBy c op r.2

theorem perform_lawful (hopcode : c.opcode ≠ .close) (op : Operation) :
    c.Lawful op (c.perform op) := by
  cases hclosed : c.closed with
  | true =>
    obtain ⟨pending, hd⟩ := eq_of_closed hclosed op
    refine ⟨fun hfalse => ?_, fun _ => ⟨perform_of_closed hclosed op, ?_⟩, fun hne => ?_⟩
    · cases hclosed.symm.trans hfalse
    · rw [hd]
      exact hclosed
    · rw [hd] at hne
      exact absurd rfl hne
  | false =>
    have heffect := perform_effect hopcode hclosed op
    refine ⟨fun _ => heffect.closed, fun htrue => ?_, fun hne => ?_⟩
    · cases hclosed.symm.trans htrue
    · obtain ⟨tail, hsends, hshut⟩ := heffect.sends
      have hmem : Emission.shutdown ∈ tail := by
        by_cases hmem : Emission.shutdown ∈ tail
        · exact hmem
        · have hcount := hsends.shutdowns
          rw [List.count_eq_zero.mpr hmem] at hcount
          exact absurd hcount hne
      refine ⟨hclosed, ?_, hshut hmem⟩
      obtain ⟨sent, -, -, -, htail⟩ := hsends
      cases hd : (c.perform op).2.closed with
      | true => rfl
      | false =>
        rw [htail hd] at hmem
        cases hmem

/-- The life of a connection that writes text or binary messages. Whatever its stream does and whatever
calls are made: once it is closed it stays closed, and it is closed only by a close, a close frame of
the peer or the end of the stream; a closed connection refuses further calls and leaves its stream
alone; there is at most one close frame, its code is that of a normal closure, and no frame follows it;
and there is at most one shutdown, made by the close that has closed the connection and behind its
close frame. -/
theorem lifecycle (hopcode : c.opcode = .text ∨ c.opcode = .binary) (ops : List Operation) :
    let d := c.after ops
    let refusal : Error := .breakdown .alreadyClosed
    (∀ op, d.Lawful op (d.perform op)) ∧
      (∃ sent : List Frame, ∃ tail, c.Emits (sent.map .frame ++ tail) d ∧
        (∀ f ∈ sent, f.opcode ≠ .close) ∧ Farewell tail ∧ (d.closed = false → tail = [])) ∧
      d.sink.shutdowns ≤ c.sink.shutdowns + 1 ∧
      refusal.kind = .transport ∧ refusal.text = "connection already closed" := by
  intro d refusal
  have hclose : c.opcode ≠ .close := by
    rcases hopcode with h | h <;> rw [h] <;> decide
  obtain ⟨hsame, tail, hsends⟩ := sends_after hclose ops
  have hclose' : d.opcode ≠ .close := by
    rw [hsame]
    exact hclose
  refine ⟨perform_lawful hclose', ⟨hsends.choose, tail, hsends.choose_spec⟩, ?_, rfl, rfl⟩
  have hcount := hsends.shutdowns
  obtain ⟨sent, -, -, hfarewell, -⟩ := hsends
  have hle := hfarewell.count_shutdown_le
  show (c.after ops).sink.shutdowns ≤ _
  omega

/-- A message is written, the last byte of the peer's is still to be read when the connection is
closed, and it is read afterwards. -/
theorem lifecycle_read_after_close :
    let c := ofUpgraded (.ofArrivals [.data [0x81, 2, 0x48, 0x69]]) .willing [] .text 7
    let d := c.after [.write [0x48, 0x69], .read 1, .close]
    (c.opcode = .text ∨ c.opcode = .binary) ∧
      d.perform (.read 5) = (.bytes (.value [0x69]), { d with pending := [] }) ∧
      d.perform .receive = (.bytes (.error (.breakdown .alreadyClosed)), d) ∧
      d.sink.shutdowns ≤ 1 := by
  intro c d
  have hopcode : c.opcode = .text ∨ c.opcode = .binary := .inl rfl
  obtain ⟨hlawful, -, hshutdowns, -, -⟩ := lifecycle hopcode [.write [0x48, 0x69], .read 1, .close]
  have hclosed : d.closed = true := by decide +kernel
  have hpending : d.pending = [0x69] := by decide +kernel
  have hread := ((hlawful (.read 5)).refusing hclosed).1
  have hreceive := ((hlawful .receive).refusing hclosed).1
  rw [whenClosed, if_neg (by decide), hpending, if_neg (by decide)] at hread
  exact ⟨hopcode, hread, hreceive, hshutdowns⟩

end Connection

end EchoLoad
