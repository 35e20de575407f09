import EchoLoad.Proofs.Session.Polling

/-!
# What a session does to the world

A session makes calls on its transport, gives up its token and sends its report. One action of a
session is a `Turn`, and `Turn.deeds` reads off from what it has changed what the session has done:
from the trace, from its token and from the channel. A report that is sent when nobody receives any
more is dropped, and the session notes it.

The deeds of a session are its calls and, after them, what it does to part (`Phase.parting`). An
action adds to the calls as long as the parting has not begun, or it goes on with the parting
(`Action.parts`).
-/

namespace EchoLoad

variable {κ : Type}

/-- What a session does that others can see. -/
inductive Deed where
  | call (c : Call)
  /-- The token is given up. -/
  | release
  | report (r : Report)
  /-- The report of the session in this slot is sent, but nobody receives. -/
  | drop (slot : Nat)
  deriving DecidableEq, Repr

def Deed.ofEvent? : Event → Option Deed
  | .reportDropped slot => some (.drop slot)
  | _ => none

/-- One action of a session. -/
structure Session.Turn (κ : Type) where
  before : Session κ × Shared
  after : Session κ × Shared

/-- What has been added to a list that grows at its head, oldest first. -/
def Trace.newer {α : Type} (before after : List α) : List α :=
  (after.take (after.length - before.length)).reverse

theorem Trace.newer_append {α : Type} (more before : List α) :
    newer before (more ++ before) = more.reverse := by
  rw [newer, List.length_append, Nat.add_sub_cancel, List.take_left]

/-- What the session has done by this action: its calls, then what it has done with its token and
with its report. An action that calls and ends the session gives up the token as it ends. -/
def Session.Turn.deeds (x : Turn κ) : List Deed :=
  let (s, sh) := x.before
  let (s', sh') := x.after
  (Trace.newer sh.trace.calls sh'.trace.calls).map (fun c => .call c.2) ++
    (if s.holdsToken && !s'.holdsToken then [.release] else []) ++
    (sh'.channel.queue.drop sh.channel.queue.length).map .report ++
    (Trace.newer sh.trace.events sh'.trace.events).filterMap Deed.ofEvent?

/-! ## Parting -/

/-- What a session with this end has done after its last call; `told` is what it has done with its
report. -/
def Ending.parting (order : ReleaseOrder) (told : Deed) : Ending → List Deed
  | .finished _ => match order with
    | .beforeReport => [.release, told]
    | .afterReport => [told, .release]
  | .failed _ | .panicked | .aborted => [.release]

/-- What a session in this phase has done after its last call. -/
def Phase.parting (order : ReleaseOrder) (told : Deed) : Phase κ → List Deed
  | .starting | .trading _ _ | .closing _ _ _ => []
  | .releasing _ => match order with
    | .beforeReport => []
    | .afterReport => [told]
  | .delivering _ | .queued _ => match order with
    | .beforeReport => [.release]
    | .afterReport => []
  | .finishing n => (Ending.finished n).parting order told
  | .ended ending => ending.parting order told

/-- A session in a slot has done this with its report of `n` round trips. -/
inductive Deed.Told (slot n : Nat) (isOpen : Bool) : Deed → Prop where
  | reported (h : isOpen = true) : Told slot n isOpen (.report ⟨slot, n⟩)
  | dropped (h : isOpen = false) : Told slot n isOpen (.drop slot)

/-- From one phase to the next a session makes some calls and goes on with its parting, but never
calls again once it has begun to part. -/
inductive Phase.Parts (order : ReleaseOrder) (slot : Nat) (isOpen : Bool)
    (phase phase' : Phase κ) : List Call → List Deed → Prop where
  | mute {calls : List Call} {parted : List Deed}
      (hcalls : calls = [] ∨ ∀ told, phase.parting order told = [])
      (h : ∀ told, phase'.parting order told = phase.parting order told ++ parted)
      (hr : phase'.reported? order = phase.reported? order) :
      Parts order slot isOpen phase phase' calls parted
  | tell {n : Nat} {told : Deed} (hbefore : phase.reported? order = none)
      (hafter : phase'.reported? order = some n) (ht : told.Told slot n isOpen)
      (h : phase'.parting order told = phase.parting order told ++ [told]) :
      Parts order slot isOpen phase phase' [] [told]

theorem Phase.parting_of_not_reported {order : ReleaseOrder} {phase : Phase κ}
    (h : phase.reported? order = none) (told told' : Deed) :
    phase.parting order told = phase.parting order told' := by
  cases phase with
  | starting | trading | closing => rfl
  | releasing | delivering | queued => cases order with
    | beforeReport => rfl
    | afterReport => first | rfl | cases h
  | finishing => cases h
  | ended ending => cases ending with
    | finished => cases h
    | failed | panicked | aborted => rfl

theorem Phase.parting_afterClose (order : ReleaseOrder) (n : Nat) (told : Deed) :
    (Phase.afterClose order n : Phase κ).parting order told = [] := by
  cases order <;> rfl

theorem Phase.parting_afterRelease (order : ReleaseOrder) (n : Nat) (told : Deed) :
    (Phase.afterRelease order n : Phase κ).parting order told =
      (Phase.releasing n : Phase κ).parting order told ++ [.release] := by
  cases order <;> rfl

theorem Phase.parting_afterDelivery (order : ReleaseOrder) (n : Nat) (told : Deed) :
    (Phase.afterDelivery order n : Phase κ).parting order told =
      (Phase.delivering n : Phase κ).parting order told ++ [told] := by
  cases order <;> rfl

/-- A session has not begun to part as long as it goes on with its work. -/
theorem Phase.Advance.parting {plan : Plan κ} {slot : Nat} {phase phase' : Phase κ} {t t' : Trace}
    (h : Advance plan slot phase t phase' t') (told : Deed) :
    phase.parting plan.releaseOrder told = [] ∧ phase'.parting plan.releaseOrder told = [] := by
  cases h with
  | dial | trade | complete | fail => exact ⟨rfl, rfl⟩
  | close | closeFailed => exact ⟨rfl, parting_afterClose _ _ told⟩

/-- A session that ends gives up its token, unless it has parted before. -/
theorem Phase.Finish.parting {plan : Plan κ} {slot : Nat} {phase : Phase κ} {ending : Ending}
    {t t' : Trace} (h : Finish plan slot phase t ending t') :
    (phase.holds plan.releaseOrder = true ∧ (∀ told, phase.parting plan.releaseOrder told = []) ∧
      ∀ told, ending.parting plan.releaseOrder told = [.release]) ∨
    (phase.holds plan.releaseOrder = false ∧ t'.calls = t.calls ∧
      ∀ told, ending.parting plan.releaseOrder told = phase.parting plan.releaseOrder told) := by
  cases h with
  | dialFailed | dialPanicked | tripsPanicked | closed | closeFailed | closePanicked =>
    exact .inl ⟨rfl, fun _ => rfl, fun _ => rfl⟩
  | done => exact .inr ⟨rfl, rfl, fun _ => rfl⟩

namespace Session

variable {plan : Plan κ} {s s' : Session κ} {sh sh' : Shared}

theorem Turn.deeds_eq (more : List Call) (put : List Report) (noted : List Event)
    (hcalls : sh'.trace.calls = more.map (s.slot, ·) ++ sh.trace.calls)
    (hqueue : sh'.channel.queue = sh.channel.queue ++ put)
    (hevents : sh'.trace.events = noted ++ sh.trace.events) :
    (Turn.mk (s, sh) (s', sh')).deeds = more.reverse.map .call ++
      (if s.holdsToken && !s'.holdsToken then [.release] else []) ++ put.map .report ++
      noted.reverse.filterMap Deed.ofEvent? := by
  simp only [deeds]
  rw [hcalls, hqueue, hevents, Trace.newer_append, Trace.newer_append, List.drop_left,
    ← List.map_reverse, List.map_map]
  rfl

/-- The deeds of an action that puts nothing into the channel and drops nothing. -/
theorem Turn.deeds_of_quiet (more : List Call)
    (hcalls : sh'.trace.calls = more.map (s.slot, ·) ++ sh.trace.calls)
    (hquiet : ∃ noted, sh'.trace.events = noted ++ sh.trace.events ∧
      ∀ e ∈ noted, ∀ slot', e ≠ .reportDropped slot')
    (hqueue : sh'.channel.queue = sh.channel.queue) :
    (Turn.mk (s, sh) (s', sh')).deeds = more.reverse.map .call ++
      if s.holdsToken && !s'.holdsToken then [.release] else [] := by
  obtain ⟨noted, hevents, hquiet⟩ := hquiet
  have hnone : noted.reverse.filterMap Deed.ofEvent? = [] := by
    rw [List.filterMap_eq_nil_iff]
    intro e he
    cases e with
    | reportDropped slot' => exact absurd rfl (hquiet _ (List.mem_reverse.mp he) slot')
    | _ => rfl
  rw [Turn.deeds_eq more [] noted hcalls (hqueue.trans (List.append_nil _).symm) hevents, hnone,
    List.map_nil, List.append_nil, List.append_nil]

/-- What comes of an attempt to send: the report is received, or dropped since nobody receives any
more, or has to wait. -/
theorem Attempt.parts (plan : Plan κ) {n : Nat} {sending : Channel.Sending × Channel}
    (h : s.Attempt n sh.channel sending) :
    (s.deliver plan n sending sh).2.trace.calls = sh.trace.calls ∧
      Phase.Parts plan.releaseOrder s.slot sh.channel.isOpen s.phase
        (s.deliver plan n sending sh).1.phase []
        (Turn.mk (s, sh) (s.deliver plan n sending sh)).deeds := by
  have hphase : s.phase.reported? plan.releaseOrder = none ∧
      ∀ told, s.phase.parting plan.releaseOrder told =
        (Phase.delivering n : Phase κ).parting plan.releaseOrder told := by
    rcases h.phase with hp | hp
    all_goals
      rw [hp]
      exact ⟨rfl, fun _ => rfl⟩
  obtain ⟨hbefore, hparting⟩ := hphase
  have hafter := Phase.reported_afterDelivery (κ := κ) plan.releaseOrder n
  have htell : ∀ told,
      (Phase.afterDelivery plan.releaseOrder n : Phase κ).parting plan.releaseOrder told =
        s.phase.parting plan.releaseOrder told ++ [told] := by
    intro told
    rw [hparting, Phase.parting_afterDelivery]
  cases h.sends with
  | @sent channel hopen _ hq =>
    have hdeeds : (Turn.mk (s, sh) (s.deliver plan n (.sent, channel) sh)).deeds =
        [.report ⟨s.slot, n⟩] := by
      refine .trans (Turn.deeds_eq [] [⟨s.slot, n⟩] [] rfl hq rfl) ?_
      simp
    rw [hdeeds]
    exact ⟨rfl, .tell hbefore hafter (.reported hopen) (htell _)⟩
  | dropped hopen =>
    have hdeeds : (Turn.mk (s, sh) (s.deliver plan n (.dropped, sh.channel) sh)).deeds =
        [.drop s.slot] := by
      refine .trans (Turn.deeds_eq [] [] [.reportDropped s.slot] rfl (List.append_nil _).symm rfl) ?_
      simp [Deed.ofEvent?]
    rw [hdeeds]
    exact ⟨rfl, .tell hbefore hafter (.dropped hopen) (htell _)⟩
  | @blocked channel _ _ hq =>
    have hdeeds : (Turn.mk (s, sh) (s.deliver plan n (.blocked, channel) sh)).deeds = [] := by
      refine .trans (Turn.deeds_eq [] [] [] rfl (hq.trans (List.append_nil _).symm) rfl) ?_
      simp
    rw [hdeeds]
    refine ⟨rfl, .mute (.inl rfl) (fun told => ?_) hbefore.symm⟩
    rw [hparting, List.append_nil]
    rfl

/-- What an action does: it calls, or it goes on with the parting. -/
theorem Action.parts (h : Action plan s sh s' sh')
    (ht : s.holdsToken = s.phase.holds plan.releaseOrder) :
    ∃ more parted, sh'.trace.calls = more.map (s.slot, ·) ++ sh.trace.calls ∧
      (Turn.mk (s, sh) (s', sh')).deeds = more.reverse.map .call ++ parted ∧
      Phase.Parts plan.releaseOrder s.slot sh.channel.isOpen s.phase s'.phase more parted := by
  cases h with
  | advance h =>
    obtain ⟨more, hcalls⟩ := h.works.calls
    refine ⟨more, [], hcalls, .trans (Turn.deeds_of_quiet more hcalls h.works.quiet rfl) ?_,
      .mute (.inr fun told => (h.parting told).1) (fun told => ?_) h.reported⟩
    · rw [Bool.and_not_self]
      rfl
    · rw [(h.parting told).1, (h.parting told).2]
      rfl
  | finish h =>
    rcases h.parting with ⟨hholds, hbefore, hafter⟩ | ⟨hholds, hcalls, hsame⟩
    · obtain ⟨more, hcalls⟩ := h.works.calls
      refine ⟨more, [.release], hcalls,
        .trans (Turn.deeds_of_quiet more hcalls h.works.quiet rfl) ?_,
        .mute (.inr hbefore) (fun told => ?_) h.reported⟩
      · rw [ht, hholds]
        rfl
      · rw [hbefore]
        exact hafter told
    · refine ⟨[], [], hcalls, .trans (Turn.deeds_of_quiet [] hcalls h.works.quiet rfl) ?_,
        .mute (.inl rfl) (fun told => ?_) h.reported⟩
      · rw [ht, hholds]
        rfl
      · rw [List.append_nil]
        exact hsame told
  | @release n hp =>
    refine ⟨[], [.release], rfl, .trans (Turn.deeds_of_quiet [] rfl ⟨[], rfl, nofun⟩ rfl) ?_,
      .mute (.inl rfl) (fun told => ?_) ?_⟩
    · rw [ht, hp]
      rfl
    · rw [hp]
      exact Phase.parting_afterRelease _ n told
    · rw [hp]
      exact Phase.reported_afterRelease _ n
  | deliver h =>
    obtain ⟨hcalls, hparts⟩ := h.parts plan
    exact ⟨[], _, hcalls, rfl, hparts⟩

end Session

end EchoLoad
