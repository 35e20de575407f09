import EchoLoad.Proofs.Connection.Receiving
import Mathlib.Data.List.Chain

/-!
# The passes of a receiving call

A receiving call goes round two loops. The inner one fetches bytes until the buffer holds a frame, the
outer one deals with one frame after the other. `Connection.Pass` is one time round either of them, from
one moment of the call to the next, and `Connection.Visits` is any number of passes. What a call does on
its way can then be said of the moments that it visits, and not of its end only.

* `Inbox.asks_iff`: the stream is asked for bytes only while the buffer holds no frame.
* `Pass.progress`: a pass takes a byte from the stream, or two out of the buffer, at least.
* `Pass.assemble_eq`: a pass does not change what becomes of the call.
* `exists_ends`: a call visits a moment from which there is no further pass, and ends there.
-/

namespace EchoLoad

/-- Steps that each use something up come to a last one. -/
theorem exists_last {α : Type} {step : α → α → Prop} {left : α → Nat}
    (hstep : ∀ a b, step a b → left b < left a) (a : α) :
    ∃ b, Relation.ReflTransGen step a b ∧ ∀ c, ¬ step b c := by
  induction hleft : left a using Nat.strongRecOn generalizing a with
  | ind n ih =>
    by_cases hnext : ∃ b, step a b
    · obtain ⟨b, hab⟩ := hnext
      obtain ⟨c, hbc, hlast⟩ := ih (left b) (hleft ▸ hstep a b hab) b rfl
      exact ⟨c, .head hab hbc, hlast⟩
    · exact ⟨a, .refl, not_exists.mp hnext⟩

/-- Bytes that are read are the next ones of the source. -/
theorem Source.bytes_read {s s' : Source} {room : Nat} {bytes : Bytes}
    (h : s.read room = (.data bytes, s')) : s.bytes = bytes ++ s'.bytes := by
  have hwhole := congrArg Feed.whole (feed_read_data h [])
  rw [feed, feed, Feed.whole_ofArrivals, Feed.whole_ofArrivals, List.nil_append, List.nil_append,
    List.append_assoc] at hwhole
  exact hwhole.symm

namespace Inbox

variable {b : Inbox}

theorem next_of_malformed {m : Frame.Malformed} (h : Frame.parse b.buffer = .error m) :
    b.next = (.malformed m, b) := by
  rw [next, h]

theorem next_of_frame {f : Frame} {n : Nat} (h : Frame.parse b.buffer = .ok (some (f, n))) :
    b.next = (.frame f, { b with buffer := b.buffer.drop n }) := by
  rw [next, h]

theorem next_of_none (h : Frame.parse b.buffer = .ok none) :
    b.next = match b.source.read (readLimit + b.spare) with
      | (.data bytes, source) => { b with buffer := b.buffer ++ bytes, source }.next
      | (.ending, source) => (.ending, { b with source })
      | (.fault f, source) => (.fault f, { b with source })
      | (.waiting, source) => (.waiting, { b with source }) := by
  rw [next, h]
  dsimp only
  split
  all_goals
    next hr => rw [hr]

theorem next_of_data {bytes : Bytes} {source : Source} (h : Frame.parse b.buffer = .ok none)
    (hr : b.source.read (readLimit + b.spare) = (.data bytes, source)) :
    b.next = { b with buffer := b.buffer ++ bytes, source }.next := by
  rw [next_of_none h, hr]

/-- What interrupts the bytes of the stream stands in the place of a frame. -/
theorem next_of_halt {reading : Reading} {source : Source} {halt : Halt}
    (h : Frame.parse b.buffer = .ok none)
    (hr : b.source.read (readLimit + b.spare) = (reading, source)) (hh : reading.halt? = some halt) :
    b.next = (halt.incoming, { b with source }) := by
  rw [next_of_none h, hr]
  cases reading with
  | data => cases hh
  | ending | fault | waiting =>
    cases hh
    rfl

/-- What an inbox does to find what is next: it looks at the front of the buffer, and if there is no frame
yet, then it reads from the stream once. -/
inductive Finds (b : Inbox) : Prop where
  | malformed {m : Frame.Malformed} (hp : Frame.parse b.buffer = .error m)
      (hn : b.next = (.malformed m, b))
  | frame {f : Frame} {n : Nat} (hp : Frame.parse b.buffer = .ok (some (f, n)))
      (hn : b.next = (.frame f, { b with buffer := b.buffer.drop n }))
  | fetch {bytes : Bytes} {source : Source} (hp : Frame.parse b.buffer = .ok none)
      (hr : b.source.read (readLimit + b.spare) = (.data bytes, source))
  | halt {halt : Halt} {source : Source} (hp : Frame.parse b.buffer = .ok none)
      (hn : b.next = (halt.incoming, { b with source }))

theorem finds (b : Inbox) : b.Finds := by
  cases hp : Frame.parse b.buffer with
  | error m => exact .malformed hp (next_of_malformed hp)
  | ok result =>
    cases result with
    | some result => exact .frame hp (next_of_frame hp)
    | none =>
      cases hr : b.source.read (readLimit + b.spare) with
      | mk reading source =>
        cases reading with
        | data bytes => exact .fetch hp hr
        | ending | fault | waiting => exact .halt hp (next_of_halt hp hr rfl)

/-- What comes next depends on what the stream brings: it is asked for more bytes. -/
def Asks (b : Inbox) : Prop := ∃ source, { b with source }.next.1 ≠ b.next.1

/-- What the buffer holds already does not depend on the stream. -/
theorem next_of_parse (h : Frame.parse b.buffer ≠ .ok none) (source : Source) :
    { b with source }.next = (b.next.1, { b.next.2 with source }) := by
  cases hp : Frame.parse b.buffer with
  | error m => rw [next_of_malformed hp, next_of_malformed (b := { b with source }) hp]
  | ok result =>
    cases result with
    | none => exact absurd hp h
    | some result => rw [next_of_frame hp, next_of_frame (b := { b with source }) hp]

theorem asks_iff : b.Asks ↔ Frame.parse b.buffer = .ok none := by
  constructor
  · rintro ⟨source, hne⟩
    by_cases h : Frame.parse b.buffer = .ok none
    · exact h
    · exact absurd (congrArg Prod.fst (next_of_parse h source)) hne
  · intro h
    have hpause : { b with source := ⟨[], [.pause]⟩ }.next.1 = .waiting :=
      congrArg Prod.fst (next_of_halt (b := { b with source := ⟨[], [.pause]⟩ }) h rfl rfl)
    have hending : { b with source := ⟨[], []⟩ }.next.1 = .ending :=
      congrArg Prod.fst (next_of_halt (b := { b with source := ⟨[], []⟩ }) h rfl rfl)
    by_cases hwaiting : b.next.1 = .waiting
    · refine ⟨⟨[], []⟩, ?_⟩
      rw [hending, hwaiting]
      nofun
    · refine ⟨⟨[], [.pause]⟩, ?_⟩
      rw [hpause]
      exact fun heq => hwaiting heq.symm

/-- At least one byte has come from the stream into the buffer. -/
def Gains (b b' : Inbox) : Prop :=
  ∃ bytes, bytes ≠ [] ∧ b'.buffer = b.buffer ++ bytes ∧ b.source.bytes = bytes ++ b'.source.bytes

/-- At least two bytes have gone from the front of the buffer, and the stream is as it was. -/
def Sheds (b b' : Inbox) : Prop :=
  ∃ n, 2 ≤ n ∧ n ≤ b.buffer.length ∧ b'.buffer = b.buffer.drop n ∧ b'.source = b.source

end Inbox

namespace Connection

/-- Where a receiving call stands: the connection, and the part of a message that it holds. -/
structure Moment where
  connection : Connection
  held : Option Bytes

/-- What there is to do: two for each byte that is still to be fetched, and one for each byte that has
arrived or will arrive. -/
def Moment.work (m : Moment) : Nat :=
  m.connection.inbox.buffer.length + 3 * m.connection.inbox.source.bytes.length

/-- One time round the loops of a receiving call. Bytes are fetched while the buffer holds no frame, or a
frame is taken out of the buffer and the call goes on. -/
inductive Pass : Moment → Moment → Prop where
  | fetch {c : Connection} {held : Option Bytes} {bytes : Bytes} {source : Source}
      (hp : Frame.parse c.inbox.buffer = .ok none)
      (hr : c.inbox.source.read (readLimit + c.inbox.spare) = (.data bytes, source)) :
      Pass ⟨c, held⟩
        ⟨{ c with inbox := { c.inbox with buffer := c.inbox.buffer ++ bytes, source } }, held⟩
  | turn {c c' : Connection} {held held' : Option Bytes} {f : Frame} {n : Nat}
      (hp : Frame.parse c.inbox.buffer = .ok (some (f, n))) (h : Turn c held f c' held') :
      Pass ⟨c, held⟩ ⟨c', held'⟩

/-- On its way from one moment, a call comes to the other. -/
abbrev Visits : Moment → Moment → Prop := Relation.ReflTransGen Pass

/-- From this moment there is no further pass, and the call ends so. -/
def Moment.Ends (m : Moment) (r : Outcome Bytes × Connection) : Prop :=
  (∃ frames, Stop m.connection m.held frames r.1 r.2) ∧ ∀ m', ¬ Pass m m'

variable {c c' d : Connection} {held held' : Option Bytes} {f : Frame} {frames : List Frame}
  {o : Outcome Bytes} {m m' : Moment}

/-! ## What a pass does -/

/-- What no pass changes. -/
structure Moment.Keeps (m m' : Moment) : Prop where
  closed : m'.connection.closed = m.connection.closed
  pending : m'.connection.pending = m.connection.pending
  maxMessage : m'.connection.maxMessage = m.connection.maxMessage

theorem Turn.keeps (h : Turn c held f c' held') : Moment.Keeps ⟨c, held⟩ ⟨c', held'⟩ := by
  cases h with
  | part | pong => exact ⟨rfl, rfl, rfl⟩
  | ping _ _ hs =>
    obtain ⟨_, _, rfl⟩ := eq_of_sendFrame hs
    exact ⟨rfl, rfl, rfl⟩

theorem Pass.keeps (h : Pass m m') : m.Keeps m' := by
  cases h with
  | fetch => exact ⟨rfl, rfl, rfl⟩
  | turn _ h => exact h.keeps

/-- A turn takes out of the buffer the frame that stands at its front. -/
theorem Turn.inbox {n : Nat} (hp : Frame.parse c.inbox.buffer = .ok (some (f, n)))
    (h : Turn c held f c' held') :
    c'.inbox = { c.inbox with buffer := c.inbox.buffer.drop n } :=
  congrArg Prod.snd (h.next.symm.trans (Inbox.next_of_frame hp))

theorem Turn.assemble_eq (h : Turn c held f c' held') :
    c.assemble held = c'.assemble held' := by
  rw [Connection.assemble_eq c]
  cases h with
  | part h ht => simp only [h, proceed, ht]
  | pong h ht => simp only [h, proceed, ht]
  | ping h ht hs => simp only [h, proceed, ht, hs]

theorem Stop.assemble_eq (h : Stop c held frames o d) : c.assemble held = (o, d) := by
  rw [Connection.assemble_eq c]
  cases h with
  | malformed h | ending h | fault h | waiting h => rw [h]
  | message h ht => simp only [h, proceed, ht]
  | unanswered h ht hs => simp only [h, proceed, ht, hs]
  | close h ht =>
    simp only [h, proceed, ht]
    rfl
  | violation h ht => simp only [h, proceed, ht]

/-- A pass does not change what becomes of the call. -/
theorem Pass.assemble_eq (h : Pass m m') :
    m.connection.assemble m.held = m'.connection.assemble m'.held := by
  cases h with
  | fetch hp hr =>
    rw [Connection.assemble_eq, Connection.assemble_eq, Inbox.next_of_data hp hr]
  | turn _ h => exact h.assemble_eq

/-- A pass brings bytes from the stream into the buffer, or it takes a frame out of the buffer and leaves the
stream alone. -/
theorem Pass.progress (h : Pass m m') :
    m.connection.inbox.Gains m'.connection.inbox ∨ m.connection.inbox.Sheds m'.connection.inbox := by
  cases h with
  | @fetch c held bytes source hp hr =>
    have hne := (Source.size_read_data c.inbox.room_pos hr).1
    exact .inl ⟨bytes, hne, rfl, Source.bytes_read hr⟩
  | @turn c c' held held' f n hp h =>
    obtain ⟨htwo, hle⟩ := Frame.consumed_of_parse hp
    refine .inr ⟨n, htwo, hle, ?_, ?_⟩
    · rw [h.inbox hp]
    · rw [h.inbox hp]

theorem Pass.work_le (h : Pass m m') : m'.work + 2 ≤ m.work := by
  unfold Moment.work
  rcases h.progress with ⟨bytes, hne, hbuffer, hsource⟩ | ⟨n, htwo, hle, hbuffer, hsource⟩
  · have hpos := List.length_pos_iff.mpr hne
    rw [hbuffer, hsource, List.length_append, List.length_append]
    omega
  · rw [hbuffer, hsource, List.length_drop]
    omega

/-! ## What a call visits -/

theorem Visits.assemble_eq (h : Visits m m') :
    m.connection.assemble m.held = m'.connection.assemble m'.held := by
  induction h with
  | refl => rfl
  | tail _ hpass ih => exact ih.trans hpass.assemble_eq

theorem Visits.keeps (h : Visits m m') : m.Keeps m' := by
  induction h with
  | refl => exact ⟨rfl, rfl, rfl⟩
  | tail _ hpass ih =>
    have hkeeps := hpass.keeps
    exact ⟨hkeeps.closed.trans ih.closed, hkeeps.pending.trans ih.pending,
      hkeeps.maxMessage.trans ih.maxMessage⟩

/-- A turn that is still to come begins with a pass. -/
theorem Turn.exists_pass (h : Turn c held f c' held') : ∃ m, Pass ⟨c, held⟩ m := by
  have hnext := h.next
  cases c.inbox.finds with
  | malformed _ hn => cases hn.symm.trans hnext
  | frame hp hn =>
    cases congrArg Prod.fst (hn.symm.trans hnext)
    exact ⟨_, .turn hp h⟩
  | fetch hp hr => exact ⟨_, .fetch hp hr⟩
  | @halt halt _ _ hn =>
    cases halt with
    | ending | fault | waiting => cases hn.symm.trans hnext

/-- Where a call does not pass on, it ends. -/
theorem ends_of_not_pass (h : ∀ m', ¬ Pass m m') : m.Ends (m.connection.assemble m.held) := by
  obtain ⟨frames, hr⟩ := receiving_assemble m.connection m.held
  generalize m.connection.assemble m.held = r at hr ⊢
  cases hr with
  | stop hstop => exact ⟨⟨frames, hstop⟩, h⟩
  | turn hturn _ =>
    obtain ⟨m', hpass⟩ := hturn.exists_pass
    exact absurd hpass (h m')

/-- Every call comes to a moment at which it ends. -/
theorem exists_ends (m : Moment) : ∃ m', Visits m m' ∧ m'.Ends (m.connection.assemble m.held) := by
  have hless : ∀ m m', Pass m m' → m'.work < m.work := fun m m' hpass => by
    have hwork := hpass.work_le
    omega
  obtain ⟨m', hvisits, hlast⟩ := exists_last hless m
  rw [Visits.assemble_eq hvisits]
  exact ⟨m', hvisits, ends_of_not_pass hlast⟩

theorem receive_ends (h : c.closed = false) :
    ∃ m, Visits ⟨c, none⟩ m ∧ m.Ends c.receive := by
  rw [receive_of_open h]
  exact exists_ends ⟨c, none⟩

theorem Stop.pending (h : Stop c held frames o d) : d.pending = c.pending := by
  cases h with
  | unanswered _ _ hs =>
    obtain ⟨_, _, rfl⟩ := eq_of_sendFrame hs
    rfl
  | malformed | ending | fault | waiting | message | close | violation => rfl

/-- A receiving call leaves what is pending as it is. -/
theorem pending_receive (c : Connection) : c.receive.2.pending = c.pending := by
  cases hclosed : c.closed with
  | true => rw [receive_of_closed hclosed]
  | false =>
    obtain ⟨m, hvisits, ⟨_, hstop⟩, -⟩ := receive_ends hclosed
    exact hstop.pending.trans hvisits.keeps.pending

end Connection

end EchoLoad
