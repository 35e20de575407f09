import EchoLoad.Proofs.Session.Deeds
import EchoLoad.Proofs.Session.Senders
import EchoLoad.Rehearsal

/-!
# The course of a session

A session acts, and between its actions others act: they may change the channel and the tokens at
will, and add to the trace what is theirs (`Session.Course`). What the session itself does on the way
is `deeds`.

A session that comes to its end without a panic has had one of four conversations with its transport
(`Conversation`): it has got no connection; or it has made all of its pairs of a write and a read and
has closed; or a write has failed, or a read, before they were complete, and it has closed. It has
given up its token after that, and has sent its report if all pairs were made and otherwise not, in
the order of the plan (`Course.protocol`).

`Course.Kept` holds all along: the deeds so far are the calls of the session, which its phase tells
(`Phase.Story`), and what it has done to part.
-/

namespace EchoLoad

variable {κ : Type} {plan : Plan κ}

/-! ## Conversations -/

/-- A write of each of these messages, with a read after it. -/
def Plan.pairs (plan : Plan κ) (messages : List Bytes) : List Call :=
  messages.flatMap fun message => [.write message, .read plan.workload.readBuffer]

/-- The close of a connection returns, with or without an error. -/
def Plan.Closes (plan : Plan κ) (conn : κ) : Prop :=
  (plan.transport.close conn).1 = .value () ∨ ∃ e, (plan.transport.close conn).1 = .error e

/-- The calls that a session makes if its dial has this number, and how it ends with them. -/
inductive Conversation (plan : Plan κ) (number : Nat) : List Call → Ending → Prop where
  | refused {e : Error} (hd : plan.transport.dial number plan.url plan.origin = .error e) :
      Conversation plan number [.dial plan.url plan.origin] (.failed e)
  | completed {first last : κ} {messages : List Bytes}
      (hd : plan.transport.dial number plan.url plan.origin = .value first)
      (hn : messages.length = plan.workload.count number)
      (ht : Traded plan first (plan.pairs messages).reverse messages.length last)
      (hc : plan.Closes last) :
      Conversation plan number (.dial plan.url plan.origin :: plan.pairs messages ++ [.close])
        (.finished (plan.workload.count number))
  | writeFailed {first conn last : κ} {messages : List Bytes} {message : Bytes} {e : Error}
      (hd : plan.transport.dial number plan.url plan.origin = .value first)
      (hn : messages.length < plan.workload.count number)
      (ht : Traded plan first (plan.pairs messages).reverse messages.length conn)
      (hw : plan.transport.write conn message = (.error e, last)) (hc : plan.Closes last) :
      Conversation plan number
        (.dial plan.url plan.origin :: plan.pairs messages ++ [.write message, .close]) (.failed e)
  | readFailed {first conn conn' last : κ} {messages : List Bytes} {message : Bytes}
      {written : Nat} {e : Error}
      (hd : plan.transport.dial number plan.url plan.origin = .value first)
      (hn : messages.length < plan.workload.count number)
      (ht : Traded plan first (plan.pairs messages).reverse messages.length conn)
      (hw : plan.transport.write conn message = (.value written, conn'))
      (hr : plan.transport.read conn' plan.workload.readBuffer = (.error e, last))
      (hc : plan.Closes last) :
      Conversation plan number (.dial plan.url plan.origin :: plan.pairs messages ++
        [.write message, .read plan.workload.readBuffer, .close]) (.failed e)

theorem Plan.pairs_append (plan : Plan κ) (messages : List Bytes) (message : Bytes) :
    plan.pairs (messages ++ [message]) =
      plan.pairs messages ++ [.write message, .read plan.workload.readBuffer] := by
  rw [pairs, List.flatMap_append, List.flatMap_singleton]
  rfl

theorem Plan.count_close_pairs (plan : Plan κ) (messages : List Bytes) :
    (plan.pairs messages).count .close = 0 := by
  rw [List.count_eq_zero, pairs, List.mem_flatMap]
  rintro ⟨message, -, hmem⟩
  simp at hmem

theorem Traded.calls_eq {first last : κ} {calls : List Call} {n : Nat}
    (h : Traded plan first calls n last) :
    ∃ messages : List Bytes, messages.length = n ∧ calls = (plan.pairs messages).reverse := by
  induction h with
  | none => exact ⟨[], rfl, rfl⟩
  | @pair _ _ _ _ message _ _ _ _ _ _ ih =>
    obtain ⟨messages, rfl, rfl⟩ := ih
    refine ⟨messages ++ [message], List.length_append, ?_⟩
    rw [Plan.pairs_append, List.reverse_append]
    rfl

/-- A session that has completed its round trips has had a conversation to this end. -/
theorem Completed.conversation {slot n : Nat} {t : Trace} (h : Completed plan slot n t) :
    ∃ number, Conversation plan number (t.callsOf slot).reverse (.finished n) := by
  obtain ⟨first, calls, last, ho, ht, hc⟩ := h
  obtain ⟨later, earlier, -, rfl, hd⟩ := ho.dialed
  obtain ⟨messages, hn, rfl⟩ := ht.calls_eq
  rw [← hn] at ht
  refine ⟨Trace.dialsIn earlier, ?_⟩
  have hcalls : (t.callsOf slot).reverse =
      .dial plan.url plan.origin :: plan.pairs messages ++ [.close] := by
    rw [ho.calls]
    simp
  rw [hcalls]
  exact .completed hd hn ht hc

/-- So has one that has failed. -/
theorem Failed.conversation {slot : Nat} {e : Error} {t : Trace} (h : Failed plan slot e t) :
    ∃ number, Conversation plan number (t.callsOf slot).reverse (.failed e) := by
  rcases h with ⟨planned, hrefused⟩ | ⟨planned, first, calls, n, last, hless, ho, hb, hc⟩
  · obtain ⟨later, earlier, -, rfl, hd⟩ := hrefused.dialed
    refine ⟨Trace.dialsIn earlier, ?_⟩
    rw [hrefused.calls]
    exact .refused hd
  · obtain ⟨later, earlier, -, rfl, hd⟩ := ho.dialed
    refine ⟨Trace.dialsIn earlier, ?_⟩
    cases hb with
    | @write calls message conn _ ht hw =>
      obtain ⟨messages, hn, rfl⟩ := ht.calls_eq
      rw [← hn] at ht hless
      have hcalls : (t.callsOf slot).reverse =
          .dial plan.url plan.origin :: plan.pairs messages ++ [.write message, .close] := by
        rw [ho.calls]
        simp
      rw [hcalls]
      exact .writeFailed hd hless ht hw hc
    | @read calls written message conn conn' _ ht hw hr =>
      obtain ⟨messages, hn, rfl⟩ := ht.calls_eq
      rw [← hn] at ht hless
      have hcalls : (t.callsOf slot).reverse = .dial plan.url plan.origin ::
          plan.pairs messages ++ [.write message, .read plan.workload.readBuffer, .close] := by
        rw [ho.calls]
        simp
      rw [hcalls]
      exact .readFailed hd hless ht hw hr hc

/-- A connection is closed once, and there is one to close unless the dial has failed. -/
theorem Conversation.count_close {number : Nat} {calls : List Call} {ending : Ending}
    (h : Conversation plan number calls ending) :
    (∀ conn, plan.transport.dial number plan.url plan.origin = .value conn →
      calls.count .close = 1) ∧
    ∀ e, plan.transport.dial number plan.url plan.origin = .error e → .close ∉ calls := by
  cases h with
  | refused hd =>
    refine ⟨fun conn h => ?_, fun e _ => by simp⟩
    cases hd.symm.trans h
  | completed hd | writeFailed hd | readFailed hd =>
    refine ⟨fun conn _ => ?_, fun e h => ?_⟩
    · simp [plan.count_close_pairs]
    · cases hd.symm.trans h

/-! ## Courses -/

/-- A session in a slot has come to this state by these actions of its own. In between, others have
done what they like to the channel and to the tokens, and have added to the trace what is theirs. -/
inductive Session.Course (plan : Plan κ) (slot : Nat) :
    List (Turn κ) → Session κ → Shared → Prop where
  | start {sh : Shared} (hc : sh.trace.Counted) (hnone : sh.trace.callsOf slot = []) :
      Course plan slot [] { slot } sh
  | act {turns : List (Turn κ)} {s s' : Session κ} {sh sh' : Shared}
      (h : Course plan slot turns s sh) (hs : s.step plan sh = some (s', sh')) :
      Course plan slot (turns ++ [⟨(s, sh), (s', sh')⟩]) s' sh'
  | others {turns : List (Turn κ)} {s : Session κ} {sh sh' : Shared} {other : Nat}
      (h : Course plan slot turns s sh) (hne : other ≠ slot)
      (hg : sh.trace.Grows other sh'.trace) : Course plan slot turns s sh'

/-- All that the session has done on its course. -/
def Session.deeds (turns : List (Turn κ)) : List Deed := turns.flatMap Turn.deeds

theorem Phase.Finish.ne_aborted {slot : Nat} {phase : Phase κ} {ending : Ending} {t t' : Trace}
    (h : Finish plan slot phase t ending t') : ending ≠ .aborted := by
  cases h <;> nofun

namespace Session

variable {slot : Nat} {turns : List (Turn κ)} {s s' : Session κ} {sh sh' : Shared}

theorem deeds_append (turns : List (Turn κ)) (x : Turn κ) :
    deeds (turns ++ [x]) = deeds turns ++ x.deeds := by
  rw [deeds, List.flatMap_append, List.flatMap_singleton]
  rfl

/-- What holds all along a course. -/
structure Course.Kept (plan : Plan κ) (slot : Nat) (turns : List (Turn κ)) (s : Session κ)
    (sh : Shared) (told : Deed) : Prop where
  same : s.slot = slot
  counted : sh.trace.Counted
  story : s.phase.Story plan slot sh.trace
  tokens : s.holdsToken = s.phase.holds plan.releaseOrder
  not_aborted : s.phase ≠ .ended .aborted
  deeds : Session.deeds turns = (sh.trace.callsOf slot).reverse.map .call ++
    s.phase.parting plan.releaseOrder told
  told : ∀ n, s.phase.reported? plan.releaseOrder = some n → ∃ x ∈ turns, x.deeds = [told] ∧
    told.Told slot n x.before.2.channel.isOpen

theorem Action.not_aborted (h : Action plan s sh s' sh') : s'.phase ≠ .ended .aborted := by
  have hunder : s'.phase.underWay = true → s'.phase ≠ .ended .aborted := by
    intro htrue heq
    rw [heq] at htrue
    cases htrue
  cases h with
  | advance h => exact hunder h.underWay.2
  | finish h => exact fun heq => h.ne_aborted (Phase.ended.inj heq)
  | release => exact hunder (Phase.underWay_afterRelease _ _)
  | deliver h => exact hunder (h.senders plan).2.1

theorem Course.Kept.act {told : Deed} (h : Kept plan slot turns s sh told)
    (hs : s.step plan sh = some (s', sh')) :
    ∃ told', Kept plan slot (turns ++ [⟨(s, sh), (s', sh')⟩]) s' sh' told' := by
  have haction := action_of_step hs
  have hevolves := haction.evolves h.tokens
  obtain ⟨more, parted, hcalls, hdeeds, hparts⟩ := haction.parts h.tokens
  obtain rfl := h.same
  have hcallsOf := Trace.callsOf_of_calls hcalls
  have hkept : ∀ told', (Session.deeds turns ++ (Turn.mk (s, sh) (s', sh')).deeds =
      (sh'.trace.callsOf s.slot).reverse.map .call ++ s'.phase.parting plan.releaseOrder told') →
      (∀ n, s'.phase.reported? plan.releaseOrder = some n →
        ∃ x ∈ turns ++ [⟨(s, sh), (s', sh')⟩], x.deeds = [told'] ∧
          told'.Told s.slot n x.before.2.channel.isOpen) →
      Kept plan s.slot (turns ++ [⟨(s, sh), (s', sh')⟩]) s' sh' told' := by
    intro told' hall htold
    rw [← deeds_append] at hall
    exact ⟨hevolves.slot, hevolves.grows.counted h.counted, hevolves.story h.counted h.story,
      hevolves.tokens, haction.not_aborted, hall, htold⟩
  cases hparts with
  | mute hearlier hparting hreported =>
    refine ⟨told, hkept told ?_ fun n hn => ?_⟩
    · rw [h.deeds, hdeeds, hcallsOf, hparting, List.reverse_append, List.map_append]
      -- New calls come behind the earlier ones, which no parting has followed yet.
      rcases hearlier with rfl | hnone
      · simp
      · simp [hnone]
    · obtain ⟨x, hx, hrest⟩ := h.told n (hreported.symm.trans hn)
      exact ⟨x, List.mem_append_left _ hx, hrest⟩
  | @tell n told' hbefore hafter ht hparting =>
    refine ⟨told', hkept told' ?_ fun m hm => ?_⟩
    · rw [h.deeds, hdeeds, hcallsOf, hparting, Phase.parting_of_not_reported hbefore told told']
      simp
    · cases hafter.symm.trans hm
      exact ⟨_, List.mem_append_right _ (List.mem_singleton_self _), hdeeds, ht⟩

theorem Course.kept (h : Course plan slot turns s sh) :
    ∃ told, Kept plan slot turns s sh told := by
  induction h with
  | start hc hnone =>
    refine ⟨.release, rfl, hc, hnone, rfl, nofun, ?_, nofun⟩
    rw [hnone]
    rfl
  | act h hs ih =>
    obtain ⟨told, hkept⟩ := ih
    exact hkept.act hs
  | others h hne hg ih =>
    obtain ⟨told, hkept⟩ := ih
    refine ⟨told, hkept.same, hg.counted hkept.counted, hkept.story.frame hg hne, hkept.tokens,
      hkept.not_aborted, ?_, hkept.told⟩
    rw [hg.callsOf_of_ne hne]
    exact hkept.deeds

/-- A session that has come to its end without a panic has had a conversation to this end with its
transport; it has closed its connection once, unless its dial has failed, and then it has not. After
its calls it has given up its token, and has sent its report if all of its round trips were made, in
the order of the plan. The report has been received, or dropped when nobody received any more. -/
theorem Course.protocol (h : Course plan slot turns s sh) {ending : Ending}
    (he : s.ending? = some ending) (hp : ending ≠ .panicked) :
    ∃ number calls told, Conversation plan number calls ending ∧
      (∀ conn, plan.transport.dial number plan.url plan.origin = .value conn →
        calls.count .close = 1) ∧
      (∀ e, plan.transport.dial number plan.url plan.origin = .error e → .close ∉ calls) ∧
      deeds turns = calls.map .call ++ ending.parting plan.releaseOrder told ∧
      ∀ n, ending = .finished n → ∃ x ∈ turns, x.deeds = [told] ∧
        told.Told slot n x.before.2.channel.isOpen := by
  obtain ⟨told, hkept⟩ := h.kept
  have hphase := phase_of_ending he
  have hstory := hkept.story
  have hdeeds := hkept.deeds
  have htold := hkept.told
  rw [hphase] at hstory hdeeds htold
  have hconversation :
      ∃ number, Conversation plan number (sh.trace.callsOf slot).reverse ending := by
    cases ending with
    | finished n => exact Completed.conversation hstory
    | failed e => exact Failed.conversation hstory
    | panicked => exact absurd rfl hp
    | aborted => exact absurd hphase hkept.not_aborted
  obtain ⟨number, hconversation⟩ := hconversation
  obtain ⟨hclosed, hrefused⟩ := hconversation.count_close
  refine ⟨number, _, told, hconversation, hclosed, hrefused, hdeeds, ?_⟩
  rintro n rfl
  exact htold n rfl

/-- One round trip for each session, tokens that are freed before the report, and connections that
cannot be closed without an error. -/
def reluctant : Plan Rehearsal :=
  { transport := Rehearsal.transport [{ closeError := some "no close" }]
    workload := .constant 1 5
    url := "ws://h/"
    origin := ""
    releaseOrder := .beforeReport }

/-- A session comes to its end although its close fails and nobody receives its report. -/
theorem protocol_unreceived : ∃ turns s sh, Course reluctant 0 turns s sh ∧
    s.ending? = some (.finished 1) ∧
    deeds turns = [.call (.dial "ws://h/" ""), .call (.write (List.replicate 5 filler)),
      .call (.read 128), .call .close, .release, .drop 0] ∧
    ∃ number calls told, Conversation reluctant number calls (.finished 1) ∧
      deeds turns = calls.map .call ++ [.release, told] := by
  let sh : Shared :=
    { admission := { concurrency := 1, free := 0, held := [0], next := 1 }
      channel := { capacity := 1, isOpen := false }
      trace := {} }
  have hstart : Course reluctant 0 [] { slot := 0 } sh := .start ⟨rfl, rfl⟩ rfl
  have hwrite : Course reluctant 0 _ _ _ := .act (.act hstart rfl) rfl
  have hpair : Course reluctant 0 _ _ _ := .act (.act hwrite rfl) rfl
  have hrelease : Course reluctant 0 _ _ _ := .act (.act hpair rfl) rfl
  have hend : Course reluctant 0 _ _ _ := .act (.act hrelease rfl) rfl
  obtain ⟨number, calls, told, hconversation, -, -, hdeeds, -⟩ := hend.protocol rfl nofun
  exact ⟨_, _, _, hend, rfl, by decide +kernel, number, calls, told, hconversation, hdeeds⟩

end Session

end EchoLoad
