import EchoLoad.Proofs.Session.Action

/-!
# The calls of one session in the trace of all

Sessions write into one trace. `Trace.callsOf` picks out what the session in one slot has called;
an action of a session adds calls of this session only (`Trace.Grows`), so that for the others
nothing changes (`Grows.callsOf_of_ne`). Up to its end a session does not note that its report has
been dropped; only an attempt to send it can come to that (`Trace.Works`).

Dials are numbered from 0 in the order of the trace, and every session draws its number of round
trips at the position that its dial has (`Trace.Counted`).
-/

namespace EchoLoad

def Call.isDial : Call → Bool
  | dial _ _ => true
  | _ => false

namespace Trace

/-- The calls of the session in a slot, newest first. -/
def callsOf (t : Trace) (slot : Nat) : List Call :=
  (t.calls.filter fun c => c.1 == slot).map Prod.snd

/-- How many of the calls are dials. -/
def dialsIn (calls : List (Nat × Call)) : Nat := calls.countP fun c => c.2.isDial

/-- Dials and draws are counted as they are recorded. -/
structure Counted (t : Trace) : Prop where
  dials : t.dials = dialsIn t.calls
  draws : t.countDraws = dialsIn t.calls

/-- The session in a slot has done something, and no other session has. -/
structure Grows (slot : Nat) (t t' : Trace) : Prop where
  calls : ∃ more : List Call, t'.calls = more.map (slot, ·) ++ t.calls
  counted : t.Counted → t'.Counted

variable {slot : Nat} {t t' t'' : Trace}

theorem Grows.refl (slot : Nat) (t : Trace) : Grows slot t t := ⟨⟨[], rfl⟩, id⟩

theorem Grows.trans (h₁ : Grows slot t t') (h₂ : Grows slot t' t'') : Grows slot t t'' := by
  obtain ⟨more₁, hcalls₁⟩ := h₁.calls
  obtain ⟨more₂, hcalls₂⟩ := h₂.calls
  refine ⟨⟨more₂ ++ more₁, ?_⟩, fun hcounted => h₂.counted (h₁.counted hcounted)⟩
  rw [hcalls₂, hcalls₁, List.map_append, List.append_assoc]

theorem Grows.note (h : Grows slot t t') (e : Event) : Grows slot t (t'.note e) :=
  ⟨h.calls, fun hcounted => ⟨(h.counted hcounted).dials, (h.counted hcounted).draws⟩⟩

/-- So it is, and no event since says that a report has been dropped. -/
structure Works (slot : Nat) (t t' : Trace) : Prop extends Grows slot t t' where
  quiet : ∃ noted, t'.events = noted ++ t.events ∧
    ∀ e ∈ noted, ∀ slot', e ≠ .reportDropped slot'

theorem Works.refl (slot : Nat) (t : Trace) : Works slot t t := ⟨.refl slot t, [], rfl, nofun⟩

theorem Works.trans (h₁ : Works slot t t') (h₂ : Works slot t' t'') : Works slot t t'' := by
  obtain ⟨noted₁, hevents₁, hquiet₁⟩ := h₁.quiet
  obtain ⟨noted₂, hevents₂, hquiet₂⟩ := h₂.quiet
  refine ⟨h₁.toGrows.trans h₂.toGrows, noted₂ ++ noted₁, ?_, fun e he => ?_⟩
  · rw [hevents₂, hevents₁, List.append_assoc]
  · rcases List.mem_append.mp he with he | he
    · exact hquiet₂ e he
    · exact hquiet₁ e he

theorem Works.note (h : Works slot t t') {e : Event} (he : ∀ slot', e ≠ .reportDropped slot') :
    Works slot t (t'.note e) := by
  obtain ⟨noted, hevents, hquiet⟩ := h.quiet
  exact ⟨h.toGrows.note e, e :: noted, congrArg _ hevents, List.forall_mem_cons.mpr ⟨he, hquiet⟩⟩

theorem works_call (t : Trace) (slot : Nat) {c : Call} (hc : c.isDial = false) :
    Works slot t (t.call slot c) := by
  refine ⟨⟨⟨[c], rfl⟩, fun hcounted => ?_⟩, [], rfl, nofun⟩
  have hdials : dialsIn ((slot, c) :: t.calls) = dialsIn t.calls :=
    List.countP_cons_of_neg (Bool.eq_false_iff.mp hc)
  exact ⟨hcounted.dials.trans hdials.symm, hcounted.draws.trans hdials.symm⟩

theorem works_dialed {κ : Type} (plan : Plan κ) (slot : Nat) (t : Trace) :
    Works slot t (plan.dialed slot t) := by
  refine ⟨⟨⟨[.dial plan.url plan.origin], rfl⟩, fun hcounted => ?_⟩, [], rfl, nofun⟩
  have hdials : dialsIn ((slot, .dial plan.url plan.origin) :: t.calls) = dialsIn t.calls + 1 :=
    List.countP_cons_of_pos rfl
  exact ⟨(congrArg (· + 1) hcounted.dials).trans hdials.symm,
    (congrArg (· + 1) hcounted.draws).trans hdials.symm⟩

theorem callsOf_of_calls {more : List Call} (h : t'.calls = more.map (slot, ·) ++ t.calls) :
    t'.callsOf slot = more ++ t.callsOf slot := by
  rw [callsOf, h, List.filter_append, List.map_append, List.filter_map, List.map_map]
  simp [callsOf, Function.comp_def]

theorem callsOf_call (t : Trace) (slot : Nat) (c : Call) :
    (t.call slot c).callsOf slot = c :: t.callsOf slot := by
  simp [callsOf, call]

/-- What one session does is not seen among the calls of another. -/
theorem Grows.callsOf_of_ne {other : Nat} (h : Grows other t t') (hne : other ≠ slot) :
    t'.callsOf slot = t.callsOf slot := by
  obtain ⟨more, hcalls⟩ := h.calls
  have hnone : (more.map (other, ·)).filter (fun c => c.1 == slot) = [] := by
    rw [List.filter_eq_nil_iff]
    intro c hc
    obtain ⟨call, -, rfl⟩ := List.mem_map.mp hc
    simpa using hne
  rw [callsOf, hcalls, List.filter_append, hnone]
  rfl

end Trace

/-! ## What actions add to the trace -/

theorem Trips.works_reply {κ : Type} {transport : Transport κ} {workload : Workload}
    {slot written left : Nat} {conn : κ} {t t' : Trace} {progress : Progress κ}
    (h : reply transport workload slot written left conn t = (progress, t')) :
    t.Works slot t' := by
  unfold reply at h
  split at h
  · dsimp only at h
    split at h
    · cases h
      exact .refl slot t
    · cases h
      exact (Trace.Works.refl slot t).note nofun
  all_goals
    cases h
    exact .refl slot t

theorem Trips.works_step {κ : Type} {transport : Transport κ} {workload : Workload} {slot : Nat}
    {trips : Trips κ} {t t' : Trace} {progress : Progress κ}
    (h : step transport workload slot trips t = (progress, t')) : t.Works slot t' := by
  have hsized : t.Works slot { t with sizeDraws := t.sizeDraws + 1 } :=
    ⟨⟨⟨[], rfl⟩, fun hcounted => ⟨hcounted.dials, hcounted.draws⟩⟩, [], rfl, nofun⟩
  unfold step at h
  split at h
  · split at h
    · cases h
      exact .refl slot t
    split at h
    · cases h
      exact .refl slot t
    dsimp only at h
    split at h
    · cases h
      exact hsized
    split at h
    all_goals
      cases h
      exact hsized.trans (Trace.works_call _ slot rfl)
  · have hcall := fun room => Trace.works_call t slot (c := .read room) rfl
    dsimp only at h
    split at h
    · cases h
      exact hcall _
    · exact (hcall _).trans (works_reply h)
  · exact works_reply h

theorem Phase.Advance.works {κ : Type} {plan : Plan κ} {slot : Nat} {phase phase' : Phase κ}
    {t t' : Trace} (h : Advance plan slot phase t phase' t') : t.Works slot t' := by
  cases h with
  | dial => exact Trace.works_dialed plan slot t
  | trade h => exact Trips.works_step h
  | complete h => exact Trips.works_step h
  | fail h => exact Trips.works_step h
  | close => exact Trace.works_call t slot rfl
  | closeFailed => exact (Trace.works_call t slot rfl).note nofun

theorem Phase.Finish.works {κ : Type} {plan : Plan κ} {slot : Nat} {phase : Phase κ}
    {ending : Ending} {t t' : Trace} (h : Finish plan slot phase t ending t') :
    t.Works slot t' := by
  cases h with
  | dialFailed => exact Trace.works_dialed plan slot t
  | dialPanicked => exact Trace.works_dialed plan slot t
  | tripsPanicked h => exact Trips.works_step h
  | closed => exact Trace.works_call t slot rfl
  | closeFailed => exact (Trace.works_call t slot rfl).note nofun
  | closePanicked => exact Trace.works_call t slot rfl
  | done => exact (Trace.Works.refl slot t).note nofun

theorem Session.grows_deliver {κ : Type} (plan : Plan κ) (s : Session κ) (n : Nat)
    (sending : Channel.Sending × Channel) (sh : Shared) :
    sh.trace.Grows s.slot (s.deliver plan n sending sh).2.trace := by
  obtain ⟨outcome, channel⟩ := sending
  cases outcome with
  | sent => exact .refl _ _
  | dropped => exact (Trace.Grows.refl _ _).note _
  | blocked => exact .refl _ _

theorem Session.Action.grows {κ : Type} {plan : Plan κ} {s s' : Session κ} {sh sh' : Shared}
    (h : Action plan s sh s' sh') : sh.trace.Grows s.slot sh'.trace := by
  cases h with
  | advance h => exact h.works.toGrows
  | finish h => exact h.works.toGrows
  | release => exact .refl _ _
  | deliver h => exact grows_deliver plan s _ _ sh

end EchoLoad
