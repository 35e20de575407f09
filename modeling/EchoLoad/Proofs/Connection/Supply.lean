import EchoLoad.Proofs.Connection.Reassembly
import EchoLoad.Proofs.Connection.Receiving

/-!
# What calls take from the stream

A receiving call goes to the stream each time, a read only if it has room and nothing is pending
(`Connection.takes`). So two kinds of calls draw on the same stream. `Connection.Carries` says what is
on it in the terms of the calls: how receiving calls that find these bytes end, in turn. Every call
either takes the next of these outcomes (`Ready.drawn`) or leaves the stream as it is
(`aside_of_not_takes`), and so calls in any order take one outcome after the other (`Ready.after`).
-/

namespace EchoLoad.Connection

/-- The call goes to the stream: it is a receiving call, or a read with room for bytes that finds none
pending. -/
def takes (c : Connection) : Operation → Bool
  | .receive => true
  | .read length => length ≠ 0 && c.pending.isEmpty
  | .write _ | .ping _ | .close => false

/-- Those of the calls that go to the stream, in order. -/
def takers (c : Connection) : List Operation → List Operation
  | [] => []
  | op :: ops =>
    if c.takes op then op :: (c.perform op).2.takers ops else (c.perform op).2.takers ops

/-- An open connection with this limit, on a working stream that brings these bytes next. -/
structure Ready (c : Connection) (limit : Nat) (bytes : Bytes) : Prop where
  isOpen : c.closed = false
  working : c.sink.Working
  maxMessage : c.maxMessage = limit
  feed : c.inbox.feed.bytes = bytes

/-- A receiving call that finds these bytes has this outcome and leaves `rest` of them. -/
def Brings (limit : Nat) (bytes : Bytes) (o : Outcome Bytes) (rest : Bytes) : Prop :=
  ∀ c : Connection, c.Ready limit bytes →
    ∃ d, c.receive = (o, d) ∧ d.Ready limit rest ∧ d.pending = c.pending

/-- Receiving calls that find these bytes have these outcomes, one after the other. -/
inductive Carries (limit : Nat) : Bytes → List (Outcome Bytes) → Bytes → Prop where
  | nil (rest : Bytes) : Carries limit rest [] rest
  | cons {bytes bytes' rest : Bytes} {o : Outcome Bytes} {os : List (Outcome Bytes)}
      (h : Brings limit bytes o bytes') (hrest : Carries limit bytes' os rest) :
      Carries limit bytes (o :: os) rest

variable {c d : Connection} {limit length : Nat} {bytes rest : Bytes} {op : Operation}
  {o : Outcome Bytes} {os : List (Outcome Bytes)}

theorem Carries.trans {bytes' : Bytes} {os' : List (Outcome Bytes)}
    (h : Carries limit bytes os bytes') (h' : Carries limit bytes' os' rest) :
    Carries limit bytes (os ++ os') rest := by
  induction h with
  | nil => exact h'
  | cons hb _ ih => exact .cons hb (ih h')

theorem takes_read_iff : c.takes (.read length) = true ↔ length ≠ 0 ∧ c.pending = [] := by
  simp [takes]

/-- Whether a call goes to the stream depends on what is pending only. -/
theorem takes_of_pending (h : c.pending = d.pending) (op : Operation) : c.takes op = d.takes op := by
  cases op with
  | read length => rw [takes, takes, h]
  | write | ping | receive | close => rfl

theorem takers_cons_of_takes (h : c.takes op = true) (ops : List Operation) :
    c.takers (op :: ops) = op :: (c.perform op).2.takers ops := by
  rw [takers, if_pos h]

theorem takers_cons_of_not_takes (h : c.takes op = false) (ops : List Operation) :
    c.takers (op :: ops) = (c.perform op).2.takers ops := by
  rw [takers, h, if_neg Bool.false_ne_true]

/-- Receiving calls all go to the stream. -/
theorem takers_receives (c : Connection) (n : Nat) :
    c.takers (List.replicate n .receive) = List.replicate n .receive := by
  induction n generalizing c with
  | zero => rfl
  | succ n ih => rw [List.replicate_succ, takers_cons_of_takes rfl, ih]

/-! ## Calls that go to the stream -/

theorem Ready.of_advances {sent : List Frame} (h : c.Ready limit bytes)
    (hd : Advances c rest sent d) : d.Ready limit rest :=
  ⟨hd.closed.trans h.isOpen, hd.working, hd.maxMessage.trans h.maxMessage, hd.bytes⟩

theorem Ready.read (h : c.Ready limit bytes) (hb : Brings limit bytes o rest)
    (hlength : length ≠ 0) (hp : c.pending = []) :
    ∃ d, c.read length = (o.map (List.take length), d) ∧ d.Ready limit rest ∧
      ∀ message, o = .value message → d.pending = message.drop length := by
  obtain ⟨d, hreceive, hd, -⟩ := hb c h
  cases o with
  | value message =>
    refine ⟨_, read_of_message hlength hp hreceive,
      ⟨hd.isOpen, hd.working, hd.maxMessage, hd.feed⟩, ?_⟩
    rintro _ ⟨⟩
    rfl
  | error | waiting | panicked =>
    exact ⟨d, read_of_failed hlength hp hreceive nofun, hd, nofun⟩

/-- A call that has gone to the stream, by the outcome that it has found there: a receiving call gives
it whole, a read gives a front of the message and keeps what is left of it. -/
inductive Drawn (c : Connection) (o : Outcome Bytes) : Operation → Answer × Connection → Prop where
  | receive {d : Connection} (hp : d.pending = c.pending) : Drawn c o .receive (.bytes o, d)
  | read {d : Connection} {length : Nat} (hp : c.pending = [])
      (hd : ∀ message, o = .value message → d.pending = message.drop length) :
      Drawn c o (.read length) (.bytes (o.map (List.take length)), d)

theorem Ready.drawn (h : c.Ready limit bytes) (hb : Brings limit bytes o rest)
    (ht : c.takes op = true) :
    (c.perform op).2.Ready limit rest ∧ Drawn c o op (c.perform op) := by
  cases op with
  | receive =>
    obtain ⟨d, hreceive, hd, hpending⟩ := hb c h
    rw [perform, hreceive]
    exact ⟨hd, .receive hpending⟩
  | read length =>
    obtain ⟨hlength, hp⟩ := takes_read_iff.mp ht
    obtain ⟨d, hread, hd, hleft⟩ := h.read hb hlength hp
    rw [perform, hread]
    exact ⟨hd, .read hp hleft⟩
  | write | ping | close => cases ht

/-! ## Calls that do not -/

/-- What a call on an open connection does if it neither goes to the stream nor closes the connection:
it sends at most one frame, or it hands out the front of what is pending. -/
inductive Aside (c : Connection) : Operation → Answer × Connection → Prop where
  | write {data : Bytes} {o : Outcome Nat} (f : Frame) :
      Aside c (.write data) (.written o, (c.sendFrame f).2)
  | ping {data : Bytes} {o : Outcome Unit} (f : Frame) :
      Aside c (.ping data) (.done o, (c.sendFrame f).2)
  | refused {data : Bytes} {o : Outcome Unit} : Aside c (.ping data) (.done o, c)
  | read {length : Nat} (h : length = 0 ∨ c.pending ≠ []) :
      Aside c (.read length)
        (.bytes (.value (c.pending.take length)), { c with pending := c.pending.drop length })

/-- A read that does not go to the stream hands out the front of what is pending. -/
theorem perform_read_of_not_takes (h : c.takes (.read length) = false) :
    c.perform (.read length) =
      (.bytes (.value (c.pending.take length)), { c with pending := c.pending.drop length }) := by
  have hnot : ¬ (length ≠ 0 ∧ c.pending = []) := by
    rw [← takes_read_iff, h]
    exact Bool.false_ne_true
  have hread := c.reads_read length
  rw [perform]
  generalize c.read length = r at hread ⊢
  cases hread with
  | nothing hzero =>
    subst hzero
    rfl
  | served => rfl
  | message hlength hp => exact absurd ⟨hlength, hp⟩ hnot
  | failed hlength hp => exact absurd ⟨hlength, hp⟩ hnot

theorem aside_of_not_takes (hopen : c.closed = false) (hop : op ≠ .close)
    (ht : c.takes op = false) : Aside c op (c.perform op) := by
  cases op with
  | close => exact absurd rfl hop
  | receive => cases ht
  | write data =>
    rw [perform, write_of_open hopen]
    exact .write _
  | ping data =>
    rw [perform]
    by_cases hdata : data.length ≤ Frame.maxControlPayload
    · rw [ping_of_open hopen hdata]
      exact .ping _
    · rw [ping_of_long hopen (Nat.lt_of_not_le hdata)]
      exact .refused
  | read length =>
    rw [perform_read_of_not_takes ht]
    refine .read (Decidable.or_iff_not_imp_left.mpr fun hlength hp => ?_)
    cases ht.symm.trans (takes_read_iff.mpr ⟨hlength, hp⟩)

theorem Ready.aside {r : Answer × Connection} (h : c.Ready limit bytes) (ha : Aside c op r) :
    r.2.Ready limit bytes := by
  cases ha with
  | write f | ping f =>
    exact ⟨h.isOpen, (sendFrame_of_working h.working f).2, h.maxMessage, h.feed⟩
  | refused => exact h
  | read => exact ⟨h.isOpen, h.working, h.maxMessage, h.feed⟩

/-! ## Calls in turn -/

/-- Calls of any kind but the closing one take one outcome after the other from the stream. -/
theorem Ready.after {ops : List Operation} (h : c.Ready limit bytes)
    (hc : Carries limit bytes os rest) (hops : .close ∉ ops)
    (hle : (c.takers ops).length ≤ os.length) :
    ∃ bytes', (c.after ops).Ready limit bytes' ∧
      Carries limit bytes' (os.drop (c.takers ops).length) rest := by
  induction ops generalizing c bytes os with
  | nil => exact ⟨bytes, h, hc⟩
  | cons op ops ih =>
    have hop : op ≠ .close := fun heq => hops (heq ▸ List.mem_cons_self)
    have hops' : .close ∉ ops := fun hmem => hops (List.mem_cons_of_mem op hmem)
    cases ht : c.takes op with
    | true =>
      rw [takers_cons_of_takes ht, List.length_cons] at hle ⊢
      cases hc with
      | nil => exact absurd hle (Nat.not_succ_le_zero _)
      | cons hb hrest => exact ih (h.drawn hb ht).1 hrest hops' (Nat.le_of_succ_le_succ hle)
    | false =>
      rw [takers_cons_of_not_takes ht] at hle ⊢
      exact ih (h.aside (aside_of_not_takes h.isOpen hop ht)) hc hops' hle

/-- The outcome that the next call finds on the stream is the one behind those that have been
taken. -/
theorem Ready.next {ops : List Operation} (h : c.Ready limit bytes)
    (hc : Carries limit bytes os rest) (hops : .close ∉ ops)
    (hnext : os[(c.takers ops).length]? = some o) :
    ∃ bytes' bytes'', (c.after ops).Ready limit bytes' ∧ Brings limit bytes' o bytes'' := by
  obtain ⟨hlt, ho⟩ := List.getElem?_eq_some_iff.mp hnext
  obtain ⟨bytes', hready, hcarries⟩ := h.after hc hops (Nat.le_of_lt hlt)
  rw [List.drop_eq_getElem_cons hlt, ho] at hcarries
  cases hcarries with
  | @cons _ bytes'' _ _ _ hb => exact ⟨bytes', bytes'', hready, hb⟩

/-- A fresh connection finds the first bytes of its peer. -/
theorem ready_connection {k : Cutting} {front : Bytes} (hbytes : k.bytes = front ++ rest)
    (tail : List Arrival) {sink : Sink} (hsink : sink.Working) (opcode : Opcode) (limit : Nat)
    (seed : UInt32) : (k.connection tail sink opcode limit seed).Ready limit
      (front ++ (rest ++ (Feed.ofArrivals [] tail).bytes)) :=
  ⟨rfl, hsink, rfl, Cutting.bytes_feed_connection hbytes tail sink opcode limit seed⟩

/-- A message of a conforming peer is what the next call finds. -/
theorem brings_dispatch {m : Dispatch} (hm : m.Conforms limit) (rest : Bytes) :
    Brings limit (m.wire ++ rest) (.value m.bytes) rest := by
  intro c h
  rw [← h.maxMessage] at hm
  obtain ⟨d, hd, hreceive⟩ := receive_dispatch h.working h.isOpen hm h.feed
  exact ⟨d, hreceive, h.of_advances hd, hd.pending⟩

/-- What the stream carries for messages that follow each other. -/
theorem carries_wires {outcomes : Dispatch → List (Outcome Bytes)} {ms : List Dispatch}
    (hms : ∀ m ∈ ms, ∀ rest, Carries limit (m.wire ++ rest) (outcomes m) rest) (rest : Bytes) :
    Carries limit (ms.flatMap Dispatch.wire ++ rest) (ms.flatMap outcomes) rest := by
  induction ms with
  | nil => exact .nil rest
  | cons m ms ih =>
    have hrest := ih fun m' hm' => hms m' (List.mem_cons_of_mem m hm')
    rw [List.flatMap_cons, List.append_assoc, List.flatMap_cons]
    exact (hms m List.mem_cons_self _).trans hrest

end EchoLoad.Connection
