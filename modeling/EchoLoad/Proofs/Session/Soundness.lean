import EchoLoad.Proofs.Session.Tokens
import EchoLoad.Session.Pool
import Mathlib.Data.List.Nodup

/-!
# The books of a pool agree

`Pool.Sound`: the tokens that are held are those of the sessions, each its own; which sessions hold
one can be read off their phases; and the phases and the trace tell the same story. A pool changes
in a few ways (`Pool.Change`), and all of them keep it sound (`Sound.change`). For the actions of
sessions and for their end from outside this is one argument, in `Sound.update`: the session that
has changed is put back, and the others are where they were.
-/

namespace EchoLoad

variable {κ : Type}

namespace Pool

/-- The books of a pool agree: tokens, sessions and the trace. -/
structure Sound (plan : Plan κ) (p : Pool κ) : Prop where
  balanced : p.shared.admission.Balanced
  distinct : (p.sessions.map Session.slot).Nodup
  issued : ∀ s ∈ p.sessions, s.slot < p.shared.admission.next
  tokens : ∀ s ∈ p.sessions, s.holdsToken = s.phase.holds plan.releaseOrder
  held : ∀ slot, slot ∈ p.shared.admission.held ↔
    ∃ s ∈ p.sessions, s.slot = slot ∧ s.holdsToken = true
  counted : p.shared.trace.Counted
  silent : ∀ slot, p.shared.admission.next ≤ slot → p.shared.trace.callsOf slot = []
  stories : ∀ s ∈ p.sessions, s.phase.Story plan s.slot p.shared.trace

variable {plan : Plan κ} {p p' : Pool κ} {s s' t : Session κ} {sh' : Shared}

theorem mem_of_session? {slot : Nat} (h : p.session? slot = some s) :
    s ∈ p.sessions ∧ s.slot = slot :=
  ⟨List.mem_of_find?_eq_some h, by simpa using List.find?_some h⟩

theorem slots_update (p : Pool κ) (s : Session κ) (sh : Shared) :
    (p.update s sh).sessions.map Session.slot = p.sessions.map Session.slot := by
  rw [update, List.map_map]
  refine List.map_congr_left fun t _ => ?_
  show (if t.slot = s.slot then s else t).slot = t.slot
  split
  · next heq => exact heq.symm
  · rfl

theorem mem_update (hs : s ∈ p.sessions) (hslot : s'.slot = s.slot) :
    t ∈ (p.update s' sh').sessions ↔ t = s' ∨ t ∈ p.sessions ∧ t.slot ≠ s.slot := by
  constructor
  · intro ht
    obtain ⟨u, hu, rfl⟩ := List.mem_map.mp ht
    by_cases heq : u.slot = s'.slot
    · exact .inl (if_pos heq)
    · rw [if_neg heq]
      exact .inr ⟨hu, fun h => heq (h.trans hslot.symm)⟩
  · rintro (rfl | ⟨ht, hne⟩)
    · exact List.mem_map.mpr ⟨s, hs, if_pos hslot.symm⟩
    · exact List.mem_map.mpr ⟨t, ht, if_neg fun h => hne (h.trans hslot)⟩

/-- The slots of the sessions of a kind. -/
def slotsOf (p : Pool κ) (f : Session κ → Bool) : List Nat := (p.sessions.filter f).map Session.slot

theorem mem_slotsOf {f : Session κ → Bool} (hs : s ∈ p.sessions) (hf : f s = true) :
    s.slot ∈ p.slotsOf f := List.mem_map_of_mem (List.mem_filter.mpr ⟨hs, hf⟩)

theorem length_slotsOf (p : Pool κ) (f : Session κ → Bool) :
    (p.slotsOf f).length = p.sessions.countP f := by
  rw [slotsOf, List.length_map, List.countP_eq_length_filter]

namespace Sound

theorem eq_of_slot_eq (h : p.Sound plan) (hs : s ∈ p.sessions) (ht : t ∈ p.sessions)
    (heq : t.slot = s.slot) : t = s := List.inj_on_of_nodup_map h.distinct ht hs heq

theorem slot_mem_held (h : p.Sound plan) (hs : s ∈ p.sessions) (hholds : s.holdsToken = true) :
    s.slot ∈ p.shared.admission.held := (h.held _).mpr ⟨s, hs, rfl, hholds⟩

/-- A session that has ended holds no token. -/
theorem holdsToken_of_ending (h : p.Sound plan) (hs : s ∈ p.sessions) {ending : Ending}
    (he : s.ending? = some ending) : s.holdsToken = false := by
  rw [h.tokens s hs, Session.phase_of_ending he]
  rfl

/-- Sessions that hold tokens are not more than the tokens that are held. -/
theorem countP_le (h : p.Sound plan) {f : Session κ → Bool}
    (hf : ∀ s ∈ p.sessions, f s = true → s.holdsToken = true) :
    p.sessions.countP f ≤ p.shared.admission.held.length := by
  have hdistinct : (p.slotsOf f).Nodup := h.distinct.sublist (List.filter_sublist.map _)
  have hsub : p.slotsOf f ⊆ p.shared.admission.held := by
    intro slot hslot
    obtain ⟨s, hs, rfl⟩ := List.mem_map.mp hslot
    obtain ⟨hmem, hfs⟩ := List.mem_filter.mp hs
    exact h.slot_mem_held hmem (hf s hmem hfs)
  have hlength := hdistinct.length_le_of_subset hsub
  rw [length_slotsOf] at hlength
  exact hlength

/-- As many tokens are in use as there are sessions that hold one. -/
theorem inUse_eq (h : p.Sound plan) :
    p.shared.admission.inUse = p.sessions.countP Session.holdsToken := by
  have hle := h.countP_le (f := Session.holdsToken) fun _ _ hholds => hholds
  have hsub : p.shared.admission.held ⊆ p.slotsOf Session.holdsToken := by
    intro slot hslot
    obtain ⟨s, hs, rfl, hholds⟩ := (h.held slot).mp hslot
    exact mem_slotsOf hs hholds
  have hge := h.balanced.distinct.length_le_of_subset hsub
  rw [length_slotsOf] at hge
  rw [h.balanced.inUse_eq]
  omega

/-- The tokens that are held after a session has been replaced are again those of the sessions. -/
theorem held_update (h : p.Sound plan) (hs : s ∈ p.sessions)
    (he : s.Evolves plan p.shared s' sh') (slot : Nat) :
    slot ∈ sh'.admission.held ↔
      ∃ t ∈ (p.update s' sh').sessions, t.slot = slot ∧ t.holdsToken = true := by
  have hothers : (∃ t ∈ (p.update s' sh').sessions, t.slot = slot ∧ t.holdsToken = true) ↔
      (s.slot = slot ∧ s'.holdsToken = true) ∨ (slot ≠ s.slot ∧ slot ∈ p.shared.admission.held) := by
    constructor
    · rintro ⟨t, ht, rfl, hholds⟩
      rcases (mem_update hs he.slot).mp ht with rfl | ⟨ht, hne⟩
      · exact .inl ⟨he.slot.symm, hholds⟩
      · exact .inr ⟨hne, (h.held _).mpr ⟨t, ht, rfl, hholds⟩⟩
    · rintro (⟨rfl, hholds⟩ | ⟨hne, hmem⟩)
      · exact ⟨s', (mem_update hs he.slot).mpr (.inl rfl), he.slot, hholds⟩
      · obtain ⟨t, ht, rfl, hholds⟩ := (h.held slot).mp hmem
        exact ⟨t, (mem_update hs he.slot).mpr (.inr ⟨ht, hne⟩), rfl, hholds⟩
  rw [hothers, he.admission]
  split
  · next hsame =>
    by_cases heq : slot = s.slot
    · subst heq
      rw [hsame, h.held]
      constructor
      · rintro ⟨t, ht, hslot, hholds⟩
        rw [h.eq_of_slot_eq hs ht hslot] at hholds
        exact .inl ⟨rfl, hholds⟩
      · rintro (⟨-, hholds⟩ | ⟨hne, -⟩)
        · exact ⟨s, hs, rfl, hholds⟩
        · exact absurd rfl hne
    · constructor
      · exact fun hmem => .inr ⟨heq, hmem⟩
      · rintro (⟨rfl, -⟩ | ⟨-, hmem⟩)
        · exact absurd rfl heq
        · exact hmem
  · next hdiffer =>
    have hfalse : s'.holdsToken ≠ true := fun htrue => hdiffer (htrue.trans (he.keeps htrue).symm)
    rw [h.balanced.mem_held_release]
    constructor
    · exact .inr
    · rintro (⟨-, hholds⟩ | hmem)
      · exact absurd hholds hfalse
      · exact hmem

/-- A session that has evolved is put back. -/
theorem update (h : p.Sound plan) (hs : s ∈ p.sessions) (he : s.Evolves plan p.shared s' sh') :
    (p.update s' sh').Sound plan := by
  have hnext := he.next
  refine ⟨?_, ?_, ?_, ?_, h.held_update hs he, he.grows.counted h.counted, ?_, ?_⟩
  · show sh'.admission.Balanced
    rw [he.admission]
    split
    · exact h.balanced
    · exact h.balanced.release _
  · rw [slots_update]
    exact h.distinct
  · intro t ht
    show t.slot < sh'.admission.next
    rw [hnext]
    rcases (mem_update hs he.slot).mp ht with rfl | ⟨ht, -⟩
    · rw [he.slot]
      exact h.issued s hs
    · exact h.issued t ht
  · intro t ht
    rcases (mem_update hs he.slot).mp ht with rfl | ⟨ht, -⟩
    · exact he.tokens
    · exact h.tokens t ht
  · intro slot hslot
    have hle : p.shared.admission.next ≤ slot := hnext ▸ hslot
    have hne : s.slot ≠ slot := Nat.ne_of_lt (Nat.lt_of_lt_of_le (h.issued s hs) hle)
    exact (he.grows.callsOf_of_ne hne).trans (h.silent slot hle)
  · intro t ht
    rcases (mem_update hs he.slot).mp ht with rfl | ⟨ht, hne⟩
    · rw [he.slot]
      exact he.story h.counted (h.stories s hs)
    · exact (h.stories t ht).frame he.grows hne.symm

end Sound

/-! ## The changes of a pool -/

/-- A pool that differs in the channel and the events only. -/
theorem Sound.of_shared (h : p.Sound plan) {channel : Channel} {trace : Trace}
    (hcalls : trace.calls = p.shared.trace.calls) (hcounted : trace.Counted) :
    Pool.Sound plan { p with shared := { p.shared with channel, trace } } := by
  have hgrows : p.shared.trace.Grows p.shared.admission.next trace :=
    ⟨⟨[], hcalls⟩, fun _ => hcounted⟩
  have hcallsOf : ∀ slot, trace.callsOf slot = p.shared.trace.callsOf slot := by
    intro slot
    rw [Trace.callsOf, hcalls, Trace.callsOf]
  exact ⟨h.balanced, h.distinct, h.issued, h.tokens, h.held, hcounted,
    fun slot hslot => (hcallsOf slot).trans (h.silent slot hslot),
    fun t ht => (h.stories t ht).frame hgrows (Nat.ne_of_gt (h.issued t ht))⟩

/-- A pool begins with all tokens free, with no report and with no past. -/
theorem eq_of_empty {concurrency capacity : Nat} (h : empty? concurrency capacity = some p) :
    p = { shared := { admission := { concurrency, free := concurrency, held := [], next := 0 }
                      channel := { capacity }
                      trace := {} } } := by
  obtain ⟨channel, hchannel, h⟩ := Option.bind_eq_some_iff.mp h
  obtain ⟨admission, hadmission, h⟩ := Option.bind_eq_some_iff.mp h
  cases h
  unfold Channel.ofCapacity? at hchannel
  unfold Admission.ofConcurrency? at hadmission
  split at hchannel <;> cases hchannel
  split at hadmission <;> cases hadmission
  rfl

theorem sound_of_empty (plan : Plan κ) {concurrency capacity : Nat}
    (h : empty? concurrency capacity = some p) :
    p.Sound plan ∧ p.shared.admission.concurrency = concurrency := by
  obtain rfl := eq_of_empty h
  refine ⟨⟨⟨rfl, List.nodup_nil, nofun⟩, List.nodup_nil, nofun, nofun, fun slot => ?_, ⟨rfl, rfl⟩,
    fun _ _ => rfl, nofun⟩, rfl⟩
  exact ⟨nofun, fun ⟨s, hs, _⟩ => nomatch hs⟩

theorem eq_of_launch {slot : Nat} (h : p.launch? = some (slot, p')) :
    ∃ admission, p.shared.admission.acquire? = some (slot, admission) ∧
      p' = { shared := { p.shared with
                admission, channel := { p.shared.channel with
                  senders := p.shared.channel.senders + 1 } }
             sessions := p.sessions ++ [{ slot }] } := by
  obtain ⟨⟨slot', admission⟩, ha, h⟩ := Option.map_eq_some_iff.mp h
  cases h
  exact ⟨admission, ha, rfl⟩

theorem eq_of_receive {report : Report} (h : p.receive? = some (report, p')) :
    ∃ channel, p.shared.channel.receive? = some (report, channel) ∧
      p' = { p with shared := { p.shared with channel } } := by
  obtain ⟨⟨report', channel⟩, hchannel, heq⟩ := Option.map_eq_some_iff.mp h
  cases heq
  exact ⟨channel, hchannel, rfl⟩

theorem mem_launch {slot : Nat} (h : p.launch? = some (slot, p')) :
    s ∈ p'.sessions ↔ s ∈ p.sessions ∨ s = { slot := p.shared.admission.next } := by
  obtain ⟨admission, ha, rfl⟩ := eq_of_launch h
  obtain ⟨-, rfl, -⟩ := Admission.eq_of_acquire ha
  rw [List.mem_append, List.mem_singleton]

/-- A session that is let in has a slot of its own and holds the token with this number. -/
theorem Sound.launch (h : p.Sound plan) {slot : Nat} (hl : p.launch? = some (slot, p')) :
    p'.Sound plan := by
  have hsessions := fun s => mem_launch (s := s) hl
  obtain ⟨admission, ha, rfl⟩ := eq_of_launch hl
  obtain ⟨-, rfl, heq⟩ := Admission.eq_of_acquire ha
  have hnext : admission.next = p.shared.admission.next + 1 := by rw [heq]
  have hheld : admission.held = p.shared.admission.next :: p.shared.admission.held := by rw [heq]
  refine ⟨h.balanced.acquire ha, ?_, ?_, ?_, fun slot => ?_, h.counted, ?_, ?_⟩
  · rw [List.map_append, List.nodup_append]
    refine ⟨h.distinct, List.nodup_singleton _, ?_⟩
    rintro slot hslot _ hnew rfl
    obtain ⟨s, hs, rfl⟩ := List.mem_map.mp hslot
    exact Nat.ne_of_lt (h.issued s hs) (List.mem_singleton.mp hnew)
  · intro s hs
    show s.slot < admission.next
    rw [hnext]
    rcases (hsessions s).mp hs with hs | rfl
    · exact Nat.lt_succ_of_lt (h.issued s hs)
    · exact Nat.lt_succ_self _
  · intro s hs
    rcases (hsessions s).mp hs with hs | rfl
    · exact h.tokens s hs
    · rfl
  · show slot ∈ admission.held ↔ _
    rw [hheld, List.mem_cons, h.held]
    constructor
    · rintro (rfl | ⟨s, hs, hslot, hholds⟩)
      · exact ⟨_, (hsessions _).mpr (.inr rfl), rfl, rfl⟩
      · exact ⟨s, (hsessions s).mpr (.inl hs), hslot, hholds⟩
    · rintro ⟨s, hs, rfl, hholds⟩
      rcases (hsessions s).mp hs with hs | rfl
      · exact .inr ⟨s, hs, rfl, hholds⟩
      · exact .inl rfl
  · intro slot hslot
    have hle : admission.next ≤ slot := hslot
    exact h.silent slot (by omega)
  · intro s hs
    rcases (hsessions s).mp hs with hs | rfl
    · exact h.stories s hs
    · exact h.silent _ (Nat.le_refl _)

theorem session_of_step {slot : Nat} (h : p.step? plan slot = some p') :
    ∃ s s' sh', s ∈ p.sessions ∧ s.slot = slot ∧ s.step plan p.shared = some (s', sh') ∧
      p' = p.update s' sh' := by
  obtain ⟨s, hs, h⟩ := Option.bind_eq_some_iff.mp h
  obtain ⟨⟨s', sh'⟩, hstep, h⟩ := Option.bind_eq_some_iff.mp h
  cases h
  obtain ⟨hmem, hslot⟩ := mem_of_session? hs
  exact ⟨s, s', sh', hmem, hslot, hstep, rfl⟩

theorem Sound.step (h : p.Sound plan) {slot : Nat} (hs : p.step? plan slot = some p') :
    p'.Sound plan := by
  obtain ⟨s, s', sh', hmem, -, hstep, rfl⟩ := session_of_step hs
  exact h.update hmem (Session.evolves_step hstep (h.tokens s hmem))

theorem Sound.abort (h : p.Sound plan) (slot : Nat) : (p.abort slot).Sound plan := by
  unfold Pool.abort
  split
  · exact h
  · next s hs =>
    obtain ⟨hmem, -⟩ := mem_of_session? hs
    exact h.update hmem (Session.evolves_abort plan s p.shared (h.tokens s hmem))

/-- A session that has ended holds no token, so it can be taken away. -/
theorem Sound.remove (h : p.Sound plan) {slot : Nat} {ending : Ending}
    (hs : p.session? slot = some s) (he : s.ending? = some ending) :
    (p.remove slot).Sound plan := by
  have hsub : (p.remove slot).sessions ⊆ p.sessions := List.filter_sublist.subset
  obtain ⟨hmem, hslot⟩ := mem_of_session? hs
  have hfree : s.holdsToken ≠ true := Bool.eq_false_iff.mp (h.holdsToken_of_ending hmem he)
  refine ⟨h.balanced, h.distinct.sublist (List.Sublist.map _ List.filter_sublist),
    fun t ht => h.issued t (hsub ht), fun t ht => h.tokens t (hsub ht), fun slot' => ?_, h.counted,
    h.silent, fun t ht => h.stories t (hsub ht)⟩
  show slot' ∈ p.shared.admission.held ↔ _
  rw [h.held]
  constructor
  · rintro ⟨t, ht, hslot', hholds⟩
    refine ⟨t, List.mem_filter.mpr ⟨ht, ?_⟩, hslot', hholds⟩
    rw [bne_iff_ne]
    intro heq
    rw [h.eq_of_slot_eq hmem ht (heq.trans hslot.symm)] at hholds
    exact hfree hholds
  · rintro ⟨t, ht, hslot', hholds⟩
    exact ⟨t, hsub ht, hslot', hholds⟩

/-- What can happen to a pool. -/
inductive Change (plan : Plan κ) : Pool κ → Pool κ → Prop where
  | launch {p p' : Pool κ} {slot : Nat} (h : p.launch? = some (slot, p')) : Change plan p p'
  | step {p p' : Pool κ} {slot : Nat} (h : p.step? plan slot = some p') : Change plan p p'
  | abort (p : Pool κ) (slot : Nat) : Change plan p (p.abort slot)
  | receive {p p' : Pool κ} {report : Report} (h : p.receive? = some (report, p')) :
      Change plan p p'
  | dropReceiver (p : Pool κ) : Change plan p p.dropReceiver
  | remove {p : Pool κ} {slot : Nat} {s : Session κ} {ending : Ending}
      (hs : p.session? slot = some s) (he : s.ending? = some ending) :
      Change plan p (p.remove slot)
  | note (p : Pool κ) (e : Event) :
      Change plan p { p with shared := { p.shared with trace := p.shared.trace.note e } }

theorem Sound.change (h : p.Sound plan) (hc : Change plan p p') : p'.Sound plan := by
  cases hc with
  | launch hl => exact h.launch hl
  | step hs => exact h.step hs
  | abort slot => exact h.abort slot
  | receive hr =>
    obtain ⟨channel, -, rfl⟩ := eq_of_receive hr
    exact h.of_shared rfl h.counted
  | dropReceiver => exact h.of_shared rfl h.counted
  | remove hs he => exact h.remove hs he
  | note e => exact h.of_shared rfl ⟨h.counted.dials, h.counted.draws⟩

theorem Sound.concurrency_change (h : p.Sound plan) (hc : Change plan p p') :
    p'.shared.admission.concurrency = p.shared.admission.concurrency := by
  cases hc with
  | launch hl =>
    obtain ⟨admission, ha, rfl⟩ := eq_of_launch hl
    obtain ⟨-, -, rfl⟩ := Admission.eq_of_acquire ha
    rfl
  | step hs =>
    obtain ⟨s, s', sh', hmem, -, hstep, rfl⟩ := session_of_step hs
    exact (Session.evolves_step hstep (h.tokens s hmem)).concurrency
  | abort slot =>
    unfold Pool.abort
    split
    · rfl
    · next s hs =>
      obtain ⟨hmem, -⟩ := mem_of_session? hs
      exact (Session.evolves_abort plan s p.shared (h.tokens s hmem)).concurrency
  | receive hr =>
    obtain ⟨channel, -, rfl⟩ := eq_of_receive hr
    rfl
  | dropReceiver | remove | note => rfl

end Pool

end EchoLoad
