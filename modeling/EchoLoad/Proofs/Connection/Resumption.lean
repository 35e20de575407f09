import EchoLoad.Proofs.Connection.Passes
import EchoLoad.Proofs.Connection.Segmentation

/-!
# Going on behind a pause

A stream with pauses and the same stream without them bring the same bytes. A connection whose stream has
no more pauses in it (`Connection.smooth`) takes the turns that the connection with the pauses takes
(`Turn.smooth`), and it ends a call as that one does, unless that one waits (`Receiving.smooth`). A call
that waits has taken some turns; if it has met control frames only, then it holds no part of a message,
and the connection without pauses takes the same turns at the beginning of its next call
(`Receiving.idles`).
-/

namespace EchoLoad

/-- The arrivals of the same stream without its pauses. -/
def withoutPauses (arrivals : List Arrival) : List Arrival := arrivals.filter (· ≠ .pause)

namespace Feed

/-- The feed of the same stream without its pauses. -/
def smooth (f : Feed) : Feed :=
  match f.halt with
  | .waiting => ofArrivals f.bytes (withoutPauses f.later)
  | .ending | .fault _ => { f with later := withoutPauses f.later }

theorem smooth_ofArrivals (bytes : Bytes) (arrivals : List Arrival) :
    (ofArrivals bytes arrivals).smooth = ofArrivals bytes (withoutPauses arrivals) := by
  fun_induction ofArrivals bytes arrivals with
  | case1 | case3 | case4 | case5 => rfl
  | case2 bytes more rest ih => exact ih

variable {f : Feed}

theorem smooth_drop {n : Nat} (h : n ≤ f.bytes.length) :
    { f with bytes := f.bytes.drop n }.smooth =
      { f.smooth with bytes := f.smooth.bytes.drop n } := by
  obtain ⟨bytes, halt, later⟩ := f
  cases halt with
  | waiting => exact ofArrivals_drop h _
  | ending | fault => rfl

/-- What is found before a pause is found without it. -/
theorem parse_smooth (h : Frame.parse f.bytes ≠ .ok none) :
    Frame.parse f.smooth.bytes = Frame.parse f.bytes := by
  obtain ⟨bytes, halt, later⟩ := f
  cases halt with
  | waiting =>
    have hall := ofArrivals_append bytes [] (withoutPauses later)
    rw [List.append_nil] at hall
    show Frame.parse (ofArrivals bytes (withoutPauses later)).bytes = _
    rw [hall]
    exact Frame.parse_append h _
  | ending | fault => rfl

/-- Either there is a pause, and behind it the feed goes on as without it, or what is next is next without
pauses as well. -/
theorem smooth_next (f : Feed) :
    f.next.1 = .waiting ∧ f.next.2.smooth = f.smooth ∨
      f.next.1 ≠ .waiting ∧ f.smooth.next = (f.next.1, f.next.2.smooth) := by
  cases hp : Frame.parse f.bytes with
  | error m =>
    have hsmooth := parse_smooth (f := f) (by simp [hp])
    rw [hp] at hsmooth
    simp [Feed.next, hp, hsmooth]
  | ok result =>
    cases result with
    | some result =>
      obtain ⟨frame, n⟩ := result
      have hsmooth := parse_smooth (f := f) (by simp [hp])
      rw [hp] at hsmooth
      simp only [Feed.next, hp, hsmooth]
      rw [smooth_drop (Frame.consumed_of_parse hp).2]
      exact .inr ⟨by simp, rfl⟩
    | none =>
      have hnext : f.next = (f.halt.incoming, .ofArrivals f.bytes f.later) := by
        simp only [Feed.next, hp]
      rw [hnext, smooth_ofArrivals]
      obtain ⟨bytes, halt, later⟩ := f
      cases halt with
      | waiting => exact .inl ⟨rfl, rfl⟩
      | ending | fault =>
        refine .inr ⟨by simp [Halt.incoming], ?_⟩
        simp only [smooth, Feed.next, hp]

end Feed

/-- An inbox on the same stream without its pauses. -/
def Inbox.smooth (b : Inbox) : Inbox :=
  { b with source := { b.source with arrivals := withoutPauses b.source.arrivals } }

theorem Inbox.feed_smooth (b : Inbox) : b.smooth.feed = b.feed.smooth :=
  (Feed.smooth_ofArrivals _ _).symm

namespace Connection

/-- The connection on the same stream without its pauses. -/
def smooth (c : Connection) : Connection := { c with inbox := c.inbox.smooth }

variable {c c' d e : Connection} {held held' : Option Bytes} {f : Frame} {frames : List Frame}
  {o : Outcome Bytes} {incoming : Incoming} {inbox : Inbox}

/-! ## The same turns -/

theorem Alike.smooth_next (h : Alike c.smooth d) (hn : c.inbox.next = (incoming, inbox)) :
    incoming = .waiting ∧ Alike { c with inbox }.smooth d ∨
      incoming ≠ .waiting ∧ ∃ inbox', d.inbox.next = (incoming, inbox') ∧
        Alike { c with inbox }.smooth { d with inbox := inbox' } := by
  have hnext := c.inbox.feed_next
  rw [hn] at hnext
  have hfeed : c.inbox.feed.smooth = d.inbox.feed := by
    rw [← Inbox.feed_smooth]
    exact h.feed
  rcases c.inbox.feed.smooth_next with ⟨hwaiting, hrest⟩ | ⟨hne, hrest⟩
  · rw [← hnext] at hwaiting hrest
    refine .inl ⟨hwaiting, ⟨?_, h.sink, h.pending, h.opcode, h.maxMessage, h.closed⟩⟩
    rw [← hfeed, ← hrest]
    exact inbox.feed_smooth
  · rw [← hnext, hfeed] at hrest
    rw [← hnext] at hne
    obtain ⟨hincoming, hinbox⟩ := Prod.mk.inj (d.inbox.feed_next.trans hrest)
    refine .inr ⟨hne, d.inbox.next.2, Prod.ext hincoming rfl, ?_, h.sink, h.pending, h.opcode,
      h.maxMessage, h.closed⟩
    exact inbox.feed_smooth.trans hinbox.symm

/-- What is found besides a pause. -/
theorem Alike.smooth_found (h : Alike c.smooth d) (hn : c.inbox.next = (incoming, inbox))
    (hne : incoming ≠ .waiting) :
    ∃ inbox', d.inbox.next = (incoming, inbox') ∧
      Alike { c with inbox }.smooth { d with inbox := inbox' } := by
  rcases h.smooth_next hn with ⟨hwaiting, -⟩ | ⟨-, hfound⟩
  · exact absurd hwaiting hne
  · exact hfound

theorem Alike.smooth_send (h : Alike c.smooth d) {fault : Option StreamFault}
    (hs : c.sendFrame f = (fault, c')) :
    ∃ d', d.sendFrame f = (fault, d') ∧ Alike c'.smooth d' := by
  have hsend := sendFrame_agrees h f
  have hsmooth : c.smooth.sendFrame f = (fault, c'.smooth) := by
    rw [← show ((c.sendFrame f).1, (c.sendFrame f).2.smooth) = c.smooth.sendFrame f from rfl, hs]
  rw [hsmooth] at hsend
  exact ⟨(d.sendFrame f).2, Prod.ext hsend.result.symm rfl, hsend.alike⟩

theorem Turn.smooth (ht : Turn c held f c' held') (h : Alike c.smooth d) :
    ∃ d', Turn d held f d' held' ∧ Alike c'.smooth d' := by
  have hlimit : c.maxMessage = d.maxMessage := h.maxMessage
  cases ht with
  | part hn hm =>
    obtain ⟨inbox', hn', ha⟩ := h.smooth_found hn nofun
    exact ⟨_, .part hn' (hlimit ▸ hm), ha⟩
  | pong hn hm =>
    obtain ⟨inbox', hn', ha⟩ := h.smooth_found hn nofun
    exact ⟨_, .pong hn' (hlimit ▸ hm), ha⟩
  | ping hn hm hs =>
    obtain ⟨inbox', hn', ha⟩ := h.smooth_found hn nofun
    obtain ⟨d', hs', ha'⟩ := ha.smooth_send hs
    exact ⟨d', .ping hn' (hlimit ▸ hm) hs', ha'⟩

theorem Stop.smooth (hs : Stop c held frames o c') (h : Alike c.smooth d) (ho : o ≠ .waiting) :
    ∃ d', Stop d held frames o d' ∧ Alike c'.smooth d' := by
  have hlimit : c.maxMessage = d.maxMessage := h.maxMessage
  cases hs with
  | waiting => exact absurd rfl ho
  | malformed hn =>
    obtain ⟨inbox', hn', ha⟩ := h.smooth_found hn nofun
    exact ⟨_, .malformed hn', ha⟩
  | ending hn =>
    obtain ⟨inbox', hn', ha⟩ := h.smooth_found hn nofun
    exact ⟨_, .ending hn', ha.feed, ha.sink, ha.pending, ha.opcode, ha.maxMessage, rfl⟩
  | fault hn =>
    obtain ⟨inbox', hn', ha⟩ := h.smooth_found hn nofun
    exact ⟨_, .fault hn', ha⟩
  | message hn hm =>
    obtain ⟨inbox', hn', ha⟩ := h.smooth_found hn nofun
    exact ⟨_, .message hn' (hlimit ▸ hm), ha⟩
  | unanswered hn hm hs =>
    obtain ⟨inbox', hn', ha⟩ := h.smooth_found hn nofun
    obtain ⟨d', hs', ha'⟩ := ha.smooth_send hs
    exact ⟨d', .unanswered hn' (hlimit ▸ hm) hs', ha'⟩
  | close hn hm =>
    obtain ⟨inbox', hn', ha⟩ := h.smooth_found hn nofun
    exact ⟨_, .close hn' (hlimit ▸ hm), (closedByPeer_agrees ha _).alike⟩
  | violation hn hm =>
    obtain ⟨inbox', hn', ha⟩ := h.smooth_found hn nofun
    exact ⟨_, .violation hn' (hlimit ▸ hm), ha⟩

/-- A call that does not wait goes in the same way without pauses. -/
theorem Receiving.smooth (hr : Receiving c held frames o c') (h : Alike c.smooth d)
    (ho : o ≠ .waiting) : ∃ d', Receiving d held frames o d' ∧ Alike c'.smooth d' := by
  induction hr generalizing d with
  | stop hs =>
    obtain ⟨d', hs', ha⟩ := hs.smooth h ho
    exact ⟨d', .stop hs', ha⟩
  | turn ht _ ih =>
    obtain ⟨d₁, ht', ha⟩ := ht.smooth h
    obtain ⟨d', hr', ha'⟩ := ih ha ho
    exact ⟨d', .turn ht' hr', ha'⟩

theorem Receiving.assemble_eq (h : Receiving c held frames o d) : c.assemble held = (o, d) := by
  induction h with
  | stop h => exact h.assemble_eq
  | turn h _ ih => exact h.assemble_eq.trans ih

/-! ## Turns between messages -/

/-- Turns that are taken while no part of a message is held. -/
inductive Idles : Connection → List Frame → Connection → Prop where
  | refl (c : Connection) : Idles c [] c
  | head {c c' d : Connection} {f : Frame} {frames : List Frame} (h : Turn c none f c' none)
      (hrest : Idles c' frames d) : Idles c (f :: frames) d

/-- Control frames add nothing to the part of a message that is held. -/
theorem Turn.held_eq (h : Turn c held f c' held') (hf : f.opcode.isControl = true) :
    held' = held := by
  have hspec := Message.take_spec c.maxMessage held f
  cases h with
  | pong | ping => rfl
  | part _ ht =>
    rw [ht] at hspec
    obtain ⟨-, -, hadds⟩ := hspec
    cases hadds.not_isControl.symm.trans hf

/-- A call that has met control frames only and waits then. -/
theorem Receiving.idles (hr : Receiving c none frames .waiting c') (h : Alike c.smooth d)
    (hframes : ∀ f ∈ frames, f.opcode.isControl = true) :
    ∃ d', Idles d frames d' ∧ Alike c'.smooth d' := by
  generalize hheld : (none : Option Bytes) = held at hr
  generalize ho : (.waiting : Outcome Bytes) = o at hr
  induction hr generalizing d with
  | stop hs =>
    subst ho
    cases hs with
    | waiting hn =>
      rcases h.smooth_next hn with ⟨-, ha⟩ | ⟨hne, -⟩
      · exact ⟨d, .refl d, ha⟩
      · exact absurd rfl hne
  | turn ht _ ih =>
    have hkept := ht.held_eq (hframes _ List.mem_cons_self)
    obtain ⟨d₁, ht', ha⟩ := ht.smooth h
    obtain ⟨d', hrest, ha'⟩ :=
      ih ha (fun f hf => hframes f (List.mem_cons_of_mem _ hf)) (hheld.trans hkept.symm) ho
    subst hheld
    rw [hkept] at ht'
    exact ⟨d', .head ht' hrest, ha'⟩

theorem Idles.trans {frames' : List Frame} (h : Idles c frames d) (h' : Idles d frames' e) :
    Idles c (frames ++ frames') e := by
  induction h with
  | refl => exact h'
  | head hturn _ ih => exact .head hturn (ih h')

/-- A receiving call takes these turns first. -/
theorem Idles.assemble_eq (h : Idles c frames d) : c.assemble none = d.assemble none := by
  induction h with
  | refl => rfl
  | head hturn _ ih => exact hturn.assemble_eq.trans ih

theorem Idles.frames_eq (h : Idles c frames d) : c.inbox.frames = frames ++ d.inbox.frames := by
  induction h with
  | refl => rfl
  | head hturn _ ih => rw [Inbox.frames_of_next hturn.next, ih, List.cons_append]

end Connection

end EchoLoad
