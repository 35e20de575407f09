import EchoLoad.Proofs.Connection.Resumption
import EchoLoad.Proofs.Connection.Waiting

/-!
# Calls that are given up lose nothing

A receiving call that comes upon a pause may be given up and made again. What it has taken in until then is
not lost with it: the bytes of an unfinished frame are in the buffer, and control frames have been
answered. Lost is only what it holds of a message. If it holds nothing (`GivenUpBetween`), then the
connection is ahead of one whose stream has no pauses by the control frames that it has met, and these are
what the other one will deal with first in its next call (`Ahead`). So a call that is not given up has the
answer that it has there, and nothing is ahead behind it (`Ahead.completed`). Calls in turn give the same
messages and send the same answers (`pauses_lose_nothing`).
-/

namespace EchoLoad

namespace Connection

variable {c c' d : Connection} {held held' : Option Bytes} {f : Frame} {frames front : List Frame}
  {o : Outcome Bytes} {op : Operation} {ops : List Operation}

/-! ## Calls that are made again -/

/-- The answers to calls made in turn. -/
def answers (c : Connection) (ops : List Operation) : List Answer := (c.history ops).map Prod.fst

/-- Those of the calls that are not given up. -/
def completed (c : Connection) : List Operation → List Operation
  | [] => []
  | op :: ops =>
    if (c.perform op).1.waits then (c.perform op).2.completed ops
    else op :: (c.perform op).2.completed ops

/-- The calls with each of them made again as often as it is given up. -/
def retried (c : Connection) : List Operation → List Operation
  | [] => []
  | op :: ops =>
    if (c.perform op).1.waits then op :: (c.perform op).2.retried (op :: ops)
    else op :: (c.perform op).2.retried ops
termination_by ops => (ops.length, c.inbox.size)
decreasing_by
  · exact .right _ (size_perform_of_waits ‹_›)
  · exact .left _ _ (Nat.lt_succ_self _)

/-- Whether the last of the calls that have gone to the stream has been given up, `before` saying so of the
calls before these. -/
def lastGivenUp (c : Connection) (before : Bool) : List Operation → Bool
  | [] => before
  | op :: ops =>
    (c.perform op).2.lastGivenUp (if c.takes op then (c.perform op).1.waits else before) ops

/-- Every call that is given up has consumed control frames only, and so no fragment of a message. -/
def GivenUpBetween (c : Connection) : List Operation → Prop
  | [] => True
  | op :: ops =>
    ((c.perform op).1.waits = true →
      ∀ f ∈ c.consumed (c.perform op).2, f.opcode.isControl = true) ∧
        (c.perform op).2.GivenUpBetween ops

instance decidableGivenUpBetween :
    (c : Connection) → (ops : List Operation) → Decidable (c.GivenUpBetween ops)
  | _, [] => .isTrue trivial
  | c, op :: ops =>
    have := decidableGivenUpBetween (c.perform op).2 ops
    inferInstanceAs (Decidable
      (((c.perform op).1.waits = true →
        ∀ f ∈ c.consumed (c.perform op).2, f.opcode.isControl = true) ∧
          (c.perform op).2.GivenUpBetween ops))

theorem completed_retried (c : Connection) (ops : List Operation) :
    c.completed (c.retried ops) = ops := by
  fun_induction retried c ops with
  | case1 => rfl
  | case2 c op ops hw ih => rw [completed, if_pos hw, ih]
  | case3 c op ops hw ih => rw [completed, if_neg hw, ih]

theorem mem_of_mem_retried (h : op ∈ c.retried ops) : op ∈ ops := by
  fun_induction retried c ops with
  | case1 => cases h
  | case2 c first ops hw ih =>
    rcases List.mem_cons.mp h with rfl | h
    · exact List.mem_cons_self
    · exact ih h
  | case3 c first ops hw ih =>
    rcases List.mem_cons.mp h with rfl | h
    · exact List.mem_cons_self
    · exact List.mem_cons_of_mem first (ih h)

/-- A call that is made again goes to the stream as it has done before, until it is not given up. -/
theorem lastGivenUp_retried (c : Connection) (before : Bool) (ops : List Operation)
    (h : before = true → ∃ op ops', ops = op :: ops' ∧ c.takes op = true) :
    c.lastGivenUp before (c.retried ops) = false := by
  fun_induction retried c ops generalizing before with
  | case1 =>
    cases before with
    | false => rfl
    | true =>
      obtain ⟨op, ops, heq, -⟩ := h rfl
      cases heq
  | case2 c op ops hw ih =>
    obtain ⟨ht, -, hr⟩ := receive_of_waits hw
    have hpending : (c.perform op).2.pending = c.pending := by
      rw [← c.pending_receive, hr]
    exact ih _ fun _ => ⟨op, ops, rfl, (takes_of_pending hpending op).trans ht⟩
  | case3 c op ops hw ih =>
    refine ih _ fun hbefore => ?_
    cases ht : c.takes op with
    | true =>
      rw [ht, if_pos rfl] at hbefore
      exact absurd hbefore hw
    | false =>
      rw [ht, if_neg Bool.false_ne_true] at hbefore
      obtain ⟨_, _, heq, hhead⟩ := h hbefore
      cases heq
      cases ht.symm.trans hhead

/-- If every message of the peer is one frame, then a call that is given up has no fragment of one. -/
theorem givenUpBetween_of_unfragmented
    (h : ∀ f ∈ c.inbox.frames, f.opcode.isControl = false → f.fin = true) (ops : List Operation) :
    c.GivenUpBetween ops := by
  induction ops generalizing c with
  | nil => trivial
  | cons op ops ih =>
    refine ⟨fun hw => ?_, ih fun f hf => h f ?_⟩
    · refine (receiving_of_waits hw).isControl rfl fun f hf => h f ?_
      exact List.mem_of_mem_take hf
    · obtain ⟨frames, htakes⟩ := c.perform_takes op
      rw [htakes.taken]
      exact List.mem_append_right frames hf

/-! ## Going ahead -/

theorem Turn.with_pending (h : Turn c held f c' held') (pending : Bytes) :
    Turn { c with pending } held f { c' with pending } held' := by
  cases h with
  | part hn ht => exact .part (c := { c with pending }) hn ht
  | pong hn ht => exact .pong (c := { c with pending }) hn ht
  | ping hn ht hs =>
    exact .ping (c := { c with pending }) hn ht (congrArg (fun r => (r.1, { r.2 with pending })) hs)

/-- What is pending does not matter to the turns. -/
theorem Idles.with_pending (h : Idles c frames d) (pending : Bytes) :
    Idles { c with pending } frames { d with pending } := by
  induction h with
  | refl c => exact .refl _
  | head hturn _ ih => exact .head (hturn.with_pending pending) ih

theorem Idles.keeps (h : Idles c frames d) : d.closed = c.closed ∧ d.pending = c.pending := by
  induction h with
  | refl => exact ⟨rfl, rfl⟩
  | head hturn _ ih =>
    have hkeeps := hturn.keeps
    exact ⟨ih.1.trans hkeeps.closed, ih.2.trans hkeeps.pending⟩

theorem Idles.emits (h : Idles c frames d) :
    c.Emits ((frames.filterMap Frame.reply?).map .frame) d := by
  induction h with
  | refl c => exact .refl c
  | head hturn _ ih =>
    rw [replies_cons, List.map_append]
    exact hturn.answers.1.trans ih

/-- `c` is where `d` gets to by the control frames `front`, which calls that have been given up have
consumed; without these frames `d` is like `c` on a stream without pauses. -/
structure Ahead (c d : Connection) (front : List Frame) : Prop where
  idles : ∃ e, Idles d front e ∧ Alike c.smooth e
  control : ∀ f ∈ front, f.opcode.isControl = true
  closed : c.closed = true → front = []

theorem Ahead.closed_eq (h : Ahead c d front) : c.closed = d.closed := by
  obtain ⟨e, hidles, ha⟩ := h.idles
  exact Eq.trans ha.closed hidles.keeps.1

theorem Ahead.pending_eq (h : Ahead c d front) : c.pending = d.pending := by
  obtain ⟨e, hidles, ha⟩ := h.idles
  exact Eq.trans ha.pending hidles.keeps.2

/-- From `c` to `c'` and from `d` to `d'` the same has been sent, the answers counted in that have been sent
ahead. -/
def Evens (c d : Connection) (front : List Frame) (c' d' : Connection) (front' : List Frame) : Prop :=
  ∃ rest sent : List Frame, c.Emits (rest.map .frame) c' ∧ d.Emits (sent.map .frame) d' ∧
    front.filterMap Frame.reply? ++ rest = sent ++ front'.filterMap Frame.reply?

theorem Evens.trans {c₁ c₂ d₁ d₂ : Connection} {front₁ front₂ : List Frame}
    (h : Evens c d front c₁ d₁ front₁) (h' : Evens c₁ d₁ front₁ c₂ d₂ front₂) :
    Evens c d front c₂ d₂ front₂ := by
  obtain ⟨rest, sent, hc, hd, heq⟩ := h
  obtain ⟨rest', sent', hc', hd', heq'⟩ := h'
  refine ⟨rest ++ rest', sent ++ sent', ?_, ?_, ?_⟩
  · rw [List.map_append]
    exact hc.trans hc'
  · rw [List.map_append]
    exact hd.trans hd'
  · rw [← List.append_assoc, heq, List.append_assoc, heq', List.append_assoc]

/-- A call that is given up between messages goes further ahead. -/
theorem Ahead.given_up (h : Ahead c d front) (hw : (c.perform op).1.waits = true)
    (hcontrol : ∀ f ∈ c.consumed (c.perform op).2, f.opcode.isControl = true) :
    ∃ front', Ahead (c.perform op).2 d front' ∧ Evens c d front (c.perform op).2 d front' := by
  have hreceiving := receiving_of_waits hw
  obtain ⟨e, hidles, ha⟩ := h.idles
  obtain ⟨e', hidles', ha'⟩ := hreceiving.idles ha hcontrol
  have hopen : (c.perform op).2.closed = false := by
    obtain ⟨-, hopen, -⟩ := receive_of_waits hw
    have hsame : (c.perform op).2.closed = e'.closed := ha'.closed
    rw [hsame, hidles'.keeps.1, hidles.keeps.1, ← h.closed_eq, hopen]
  refine ⟨_, ⟨⟨e', hidles.trans hidles', ha'⟩, fun f hf => ?_, fun hclosed => ?_⟩,
    _, [], hreceiving.answers.1, rfl, List.filterMap_append.symm⟩
  · rcases List.mem_append.mp hf with hf | hf
    · exact h.control f hf
    · exact hcontrol f hf
  · cases hopen.symm.trans hclosed

/-- What a receiving call on `d` makes up for and what it finds then. -/
theorem Ahead.receive (h : Ahead c d front) (hr : c.receive = (o, c')) (ho : o ≠ .waiting) :
    ∃ d' frames, d.receive = (o, d') ∧ Alike c'.smooth d' ∧
      c.Emits ((frames.filterMap Frame.reply?).map .frame) c' ∧
      d.Emits (((front ++ frames).filterMap Frame.reply?).map .frame) d' := by
  obtain ⟨e, hidles, ha⟩ := h.idles
  cases hclosed : c.closed with
  | true =>
    cases (receive_of_closed hclosed).symm.trans hr
    obtain rfl := h.closed hclosed
    cases hidles with
    | refl => exact ⟨d, [], receive_of_closed (h.closed_eq.symm.trans hclosed), ha, rfl, rfl⟩
  | false =>
    obtain ⟨frames, hreceiving⟩ := receiving_receive hclosed
    rw [hr] at hreceiving
    obtain ⟨d', hreceiving', ha'⟩ := hreceiving.smooth ha ho
    have hd : d.receive = (o, d') := by
      rw [receive_of_open (h.closed_eq.symm.trans hclosed), hidles.assemble_eq]
      exact hreceiving'.assemble_eq
    refine ⟨d', frames, hd, ha', hreceiving.answers.1, ?_⟩
    rw [List.filterMap_append, List.map_append]
    exact hidles.emits.trans hreceiving'.answers.1

/-- What has been received is served alike. -/
theorem Alike.serve (h : Alike c.smooth d) (op : Operation) (o : Outcome Bytes) :
    (op.serve (o, c)).1 = (op.serve (o, d)).1 ∧
      Alike (op.serve (o, c)).2.smooth (op.serve (o, d)).2 := by
  cases op with
  | read length =>
    cases o with
    | value message => exact ⟨rfl, h.feed, h.sink, rfl, h.opcode, h.maxMessage, h.closed⟩
    | error | waiting | panicked => exact ⟨rfl, h⟩
  | write | ping | close | receive => exact ⟨rfl, h⟩

theorem Emits.serve {es : List Emission} (h : c.Emits es d) (op : Operation) (o : Outcome Bytes) :
    c.Emits es (op.serve (o, d)).2 := by
  cases op with
  | read length =>
    cases o with
    | value | error | waiting | panicked => exact h
  | write | ping | close | receive => exact h

/-- A call that is not given up has the answer that it has without the calls that have been given up before
it, and nothing is ahead behind it. -/
theorem Ahead.taken (h : Ahead c d front) (ht : c.takes op = true)
    (hw : (c.perform op).1.waits = false) :
    (c.perform op).1 = (d.perform op).1 ∧ Ahead (c.perform op).2 (d.perform op).2 [] ∧
      Evens c d front (c.perform op).2 (d.perform op).2 [] := by
  have ht' : d.takes op = true := (takes_of_pending h.pending_eq op).symm.trans ht
  rw [perform_of_takes ht] at hw ⊢
  rw [perform_of_takes ht']
  cases hr : c.receive with
  | mk o c' =>
    rw [hr, waits_serve] at hw
    have ho : o ≠ .waiting := by
      rintro rfl
      cases hw
    obtain ⟨d', frames, hr', ha, hc, hd⟩ := h.receive hr ho
    rw [hr']
    obtain ⟨hsame, ha'⟩ := ha.serve op o
    refine ⟨hsame, ⟨⟨_, .refl _, ha'⟩, nofun, fun _ => rfl⟩, _, _, hc.serve op o, hd.serve op o, ?_⟩
    rw [List.filterMap_append]
    exact (List.append_nil _).symm

/-- A read that is served from what is pending leaves things as they are. -/
theorem Ahead.served (h : Ahead c d front) (hop : op.receives = true) (ht : c.takes op = false) :
    (c.perform op).1 = (d.perform op).1 ∧ Ahead (c.perform op).2 (d.perform op).2 front ∧
      Evens c d front (c.perform op).2 (d.perform op).2 front := by
  have ht' : d.takes op = false := (takes_of_pending h.pending_eq op).symm.trans ht
  cases op with
  | write | ping | close => cases hop
  | receive => cases ht
  | read length =>
    rw [perform_read_of_not_takes ht, perform_read_of_not_takes ht', h.pending_eq]
    obtain ⟨e, hidles, ha⟩ := h.idles
    refine ⟨rfl, ⟨⟨_, hidles.with_pending _, ?_⟩, h.control, h.closed⟩, [], [], rfl, rfl,
      List.append_nil _⟩
    exact ⟨ha.feed, ha.sink, rfl, ha.opcode, ha.maxMessage, ha.closed⟩

/-- A call that is not given up has the answer that it has on `d`. If it goes to the stream, then nothing is
ahead behind it. -/
theorem Ahead.completed (h : Ahead c d front) (hop : op.receives = true)
    (hw : (c.perform op).1.waits = false) :
    let front' := if c.takes op then [] else front
    (c.perform op).1 = (d.perform op).1 ∧ Ahead (c.perform op).2 (d.perform op).2 front' ∧
      Evens c d front (c.perform op).2 (d.perform op).2 front' := by
  cases ht : c.takes op with
  | true => exact h.taken ht hw
  | false => exact h.served hop ht

/-! ## Calls in turn -/

/-- The induction is on the calls; what is ahead grows with each call that is given up, until one goes to
the stream and is not. -/
theorem Ahead.run (before : Bool) (h : Ahead c d front) (hbefore : before = false → front = [])
    (hops : ∀ op ∈ ops, op.receives = true) (hgiven : c.GivenUpBetween ops) :
    (c.answers ops).filter (!·.waits) = d.answers (c.completed ops) ∧
      ∃ front', Ahead (c.after ops) (d.after (c.completed ops)) front' ∧
        Evens c d front (c.after ops) (d.after (c.completed ops)) front' ∧
        (c.lastGivenUp before ops = false → front' = []) := by
  induction ops generalizing c d front before with
  | nil => exact ⟨rfl, front, h, ⟨[], [], rfl, rfl, List.append_nil _⟩, hbefore⟩
  | cons op ops ih =>
    obtain ⟨hcontrol, hgiven⟩ := hgiven
    have hop := hops op List.mem_cons_self
    have hops' := fun op' hmem => hops op' (List.mem_cons_of_mem op hmem)
    have hanswers : c.answers (op :: ops) = (c.perform op).1 :: (c.perform op).2.answers ops := rfl
    have hafter : c.after (op :: ops) = (c.perform op).2.after ops := rfl
    rw [hanswers, hafter, Connection.completed, lastGivenUp]
    cases hw : (c.perform op).1.waits with
    | true =>
      obtain ⟨_, hahead, hevens⟩ := h.given_up hw (hcontrol hw)
      obtain ⟨hrest, front', hahead', hevens', hlast⟩ := ih true hahead nofun hops' hgiven
      rw [if_pos rfl, (receive_of_waits hw).1, if_pos rfl]
      refine ⟨?_, front', hahead', hevens.trans hevens', hlast⟩
      rw [List.filter_cons_of_neg (by rw [hw]; nofun), hrest]
    | false =>
      obtain ⟨hsame, hahead, hevens⟩ := h.completed hop hw
      have hnone : (if c.takes op then false else before) = false →
          (if c.takes op then [] else front) = [] := by
        split
        · exact fun _ => rfl
        · exact hbefore
      obtain ⟨hrest, front', hahead', hevens', hlast⟩ := ih _ hahead hnone hops' hgiven
      rw [if_neg Bool.false_ne_true]
      refine ⟨?_, front', hahead', hevens.trans hevens', hlast⟩
      rw [List.filter_cons_of_pos (by rw [hw]; rfl), hrest, hsame]
      rfl

/-- Calls on `c`, of which some are given up, come to the same as calls on `d`. Those that are not given up
have the answers of the calls on `d`, and the connections are left with the same pending and equally closed.
The frames that are sent are the same, but for those that are sent ahead on `c`. -/
structure Matches (c : Connection) (calls : List Operation) (d : Connection) (done : List Operation)
    (ahead : List Frame) : Prop where
  answers : (c.answers calls).filter (!·.waits) = d.answers done
  pending : (c.after calls).pending = (d.after done).pending
  closed : (c.after calls).closed = (d.after done).closed
  sent : ∃ sent : List Frame, d.Emits (sent.map .frame) (d.after done) ∧
    c.Emits ((sent ++ ahead).map .frame) (c.after calls)

/-- What calls on `c` come to, if nothing is ahead at first. -/
theorem Ahead.matches (h : Ahead c d []) (hops : ∀ op ∈ ops, op.receives = true)
    (hgiven : c.GivenUpBetween ops) :
    ∃ front, front <+: (d.after (c.completed ops)).inbox.frames ∧
      (∀ f ∈ front, f.opcode.isControl = true) ∧ (c.lastGivenUp false ops = false → front = []) ∧
      Matches c ops d (c.completed ops) (front.filterMap Frame.reply?) := by
  obtain ⟨hanswers, front, hahead, ⟨rest, sent, hc, hd, heq⟩, hlast⟩ :=
    h.run false (fun _ => rfl) hops hgiven
  obtain ⟨e, hidles, -⟩ := hahead.idles
  obtain rfl : rest = sent ++ front.filterMap Frame.reply? := heq
  exact ⟨front, ⟨_, hidles.frames_eq.symm⟩, hahead.control, hlast,
    hanswers, hahead.pending_eq, hahead.closed_eq, sent, hd, hc⟩

/-- Calls that are made again come to what they come to if they are not given up. -/
theorem Ahead.matches_retried (h : Ahead c d []) (hops : ∀ op ∈ ops, op.receives = true)
    (hgiven : c.GivenUpBetween (c.retried ops)) : Matches c (c.retried ops) d ops [] := by
  have hretried : ∀ op ∈ c.retried ops, op.receives = true := fun op hop =>
    hops op (mem_of_mem_retried hop)
  obtain ⟨front, -, -, hlast, hmatches⟩ := h.matches hretried hgiven
  obtain rfl := hlast (lastGivenUp_retried c false ops nofun)
  rw [completed_retried] at hmatches
  exact hmatches

/-- Two streams bring the same bytes, the one with pauses anywhere between them and the other without. If
every message of the peer is one frame, then no call on the first stream is given up with a fragment of a
message. If none is, then calls that are made again as often as they are given up come to the same as these
calls on the other stream: they give the same messages and errors, the same answers to pings are sent, and
the same is left pending.

Another call may also be made in the place of one that has been given up. Calls that are not given up have
the answers that they have on the other stream then as well. While the last call that has gone to the stream
is one that has been given up, the answers to control frames may have been sent ahead; these frames are the
next ones on the other stream. -/
theorem pauses_lose_nothing {k k' : Cutting} (hbytes : k.bytes = k'.bytes)
    {arrivals tail : List Arrival}
    (harrivals : withoutPauses arrivals = k.pieces.map .data ++ tail) (sink : Sink)
    (opcode : Opcode) (limit : Nat) (seed seed' : UInt32) :
    let fresh := k.connection tail sink opcode limit seed
    let c := { fresh with inbox := { fresh.inbox with source := .ofArrivals arrivals } }
    let d := k'.connection tail sink opcode limit seed'
    ((∀ f ∈ c.inbox.frames, f.opcode.isControl = false → f.fin = true) →
      ∀ calls, c.GivenUpBetween calls) ∧
    (∀ ops, (∀ op ∈ ops, op.receives = true) → c.GivenUpBetween (c.retried ops) →
      Matches c (c.retried ops) d ops []) ∧
    ∀ calls, (∀ op ∈ calls, op.receives = true) → c.GivenUpBetween calls →
      ∃ front, front <+: (d.after (c.completed calls)).inbox.frames ∧
        (∀ f ∈ front, f.opcode.isControl = true) ∧
        (c.lastGivenUp false calls = false → front = []) ∧
        Matches c calls d (c.completed calls) (front.filterMap Frame.reply?) := by
  intro fresh c d
  have hfeed : c.smooth.inbox.feed = d.inbox.feed := by
    have hpaused : c.smooth.inbox.feed = .ofArrivals k.buffered (withoutPauses arrivals) := by
      show Feed.ofArrivals (k.buffered ++ []) (withoutPauses arrivals) = _
      rw [List.append_nil]
    have hwhole : d.inbox.feed = .ofArrivals k'.bytes tail := Cutting.feed_connection ..
    rw [hpaused, hwhole, harrivals, Feed.ofArrivals_pieces, ← hbytes]
    rfl
  have hstart : Ahead c d [] :=
    ⟨⟨d, .refl d, hfeed, .refl sink, rfl, rfl, rfl, rfl⟩, nofun, fun _ => rfl⟩
  exact ⟨givenUpBetween_of_unfragmented, fun _ => hstart.matches_retried,
    fun _ => hstart.matches⟩

/-- Pauses in the header of a ping, in its payload and in the header of a message. The fragments of the last
message arrive together, and it is read in portions. -/
theorem pauses_lose_nothing_ping :
    let k : Cutting :=
      ⟨[0x89], [[1], [0x61, 0x81, 2, 0x48], [0x69, 1, 1, 0x30, 0x80, 1, 0x31]], 0⟩
    let k' : Cutting := ⟨[], [k.bytes], 0⟩
    let arrivals : List Arrival :=
      [.pause, .data [1], .pause, .data [0x61, 0x81, 2, 0x48], .pause,
        .data [0x69, 1, 1, 0x30, 0x80, 1, 0x31], .ending]
    let fresh := k.connection [.ending] .willing .text 2 7
    let c := { fresh with inbox := { fresh.inbox with source := .ofArrivals arrivals } }
    let d := k'.connection [.ending] .willing .text 2 7
    let calls : List Operation :=
      [.receive, .receive, .receive, .receive, .read 1, .read 5, .receive]
    let done : List Operation := [.receive, .read 1, .read 5, .receive]
    k.bytes = k'.bytes ∧ withoutPauses arrivals = k.pieces.map .data ++ [.ending] ∧
      c.retried done = calls ∧ c.GivenUpBetween calls ∧ Matches c calls d done [] ∧
      d.answers done = [.bytes (.value [0x48, 0x69]), .bytes (.value [0x30]), .bytes (.value [0x31]),
        .bytes (.error (.breakdown .endOfStream))] := by
  intro k k' arrivals fresh c d calls done
  have hbytes : k.bytes = k'.bytes := by decide
  have harrivals : withoutPauses arrivals = k.pieces.map .data ++ [.ending] := by decide
  have hcalls : c.retried done = calls := by
    rw [retried, if_pos (by decide +kernel), retried, if_pos (by decide +kernel),
      retried, if_pos (by decide +kernel), retried, if_neg (by decide +kernel),
      retried, if_neg (by decide +kernel), retried, if_neg (by decide +kernel),
      retried, if_neg (by decide +kernel), retried]
  have hgiven : c.GivenUpBetween (c.retried done) := by
    rw [hcalls]
    decide +kernel
  obtain ⟨-, hagain, -⟩ := pauses_lose_nothing hbytes harrivals .willing .text 2 7 7
  have hmatches := hagain done (by decide) hgiven
  rw [hcalls] at hgiven hmatches
  exact ⟨hbytes, harrivals, hcalls, hgiven, hmatches, by decide +kernel⟩

end Connection

end EchoLoad
