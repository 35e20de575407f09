import EchoLoad.Proofs.Session.Polling

/-!
# Who waits for whom

The sessions that are in line for a place of the channel are those whose phase says that they wait
for one (`Pool.Lined`). An action of a session moves at most this session into the line or out of it
(`Session.Queues`), so nothing that happens to a pool changes this.

It follows that nobody waits in vain: when the channel is empty and a session finds no place kept
for it, then all places are kept for others, and each of these can go on (`Lined.exists_unblocked`).
-/

namespace EchoLoad

variable {κ : Type} {plan : Plan κ}

namespace Phase

def isQueued : Phase κ → Bool
  | .queued _ => true
  | _ => false

theorem isQueued_afterClose (order : ReleaseOrder) (n : Nat) :
    (Phase.afterClose order n : Phase κ).isQueued = false := by
  cases order <;> rfl

theorem isQueued_afterRelease (order : ReleaseOrder) (n : Nat) :
    (Phase.afterRelease order n : Phase κ).isQueued = false := by
  cases order <;> rfl

theorem isQueued_afterDelivery (order : ReleaseOrder) (n : Nat) :
    (Phase.afterDelivery order n : Phase κ).isQueued = false := by
  cases order <;> rfl

theorem Advance.isQueued {slot : Nat} {phase phase' : Phase κ} {t t' : Trace}
    (h : Advance plan slot phase t phase' t') :
    phase.isQueued = false ∧ phase'.isQueued = false := by
  cases h with
  | dial | trade | complete | fail => exact ⟨rfl, rfl⟩
  | close | closeFailed => exact ⟨rfl, isQueued_afterClose _ _⟩

theorem Finish.isQueued {slot : Nat} {phase : Phase κ} {ending : Ending} {t t' : Trace}
    (h : Finish plan slot phase t ending t') : phase.isQueued = false := by
  cases h <;> rfl

end Phase

namespace Session

variable {s s' : Session κ} {c c' : Channel} {sh sh' : Shared}

/-- A session that is in line says so, as long as somebody receives. -/
def Stands (s : Session κ) (c : Channel) : Prop :=
  c.isOpen = true → (s.slot ∈ c.line ↔ s.phase.isQueued = true)

/-- What one session does to the line: it comes into it or goes out of it, as its phase says, and all
others stay where they are. -/
structure Queues (s : Session κ) (c : Channel) (s' : Session κ) (c' : Channel) : Prop where
  slot : s'.slot = s.slot
  isOpen : c'.isOpen = c.isOpen
  fits : ∀ places, c.Fits places → c'.Fits places
  orderly : c'.Orderly
  line : c.isOpen = true → ∀ slot, slot ∈ c'.line ↔
    slot = s.slot ∧ s'.phase.isQueued = true ∨ slot ≠ s.slot ∧ slot ∈ c.line

/-- The line stays as it is, and so does the place of the session in it. -/
theorem queues_of_line_eq (ho : c'.Orderly) (hs : s.Stands c) (hslot : s'.slot = s.slot)
    (hline : c'.line = c.line) (hopen : c'.isOpen = c.isOpen)
    (hfits : ∀ places, c.Fits places → c'.Fits places)
    (hphase : s'.phase.isQueued = s.phase.isQueued) : s.Queues c s' c' := by
  refine ⟨hslot, hopen, hfits, ho, fun htrue slot => ?_⟩
  rw [hline, hphase, ← hs htrue]
  by_cases hown : slot = s.slot
  · simp [hown]
  · simp [hown]

theorem queues_finish (sh : Shared) (ho : sh.channel.Orderly) (hs : s.Stands sh.channel)
    (hphase : s.phase.isQueued = false) (ending : Ending) :
    s.Queues sh.channel (s.finish ending sh).1 (s.finish ending sh).2.channel :=
  queues_of_line_eq ⟨ho.distinct, ho.full⟩ hs rfl rfl rfl
    (fun _ hfits => ⟨hfits.capacity, hfits.taken⟩) hphase.symm

theorem isQueued_deliver {n : Nat} {sending : Channel.Sending × Channel} :
    (s.deliver plan n sending sh).1.phase.isQueued = true ↔ sending.1 = .blocked := by
  have hdelivered := Phase.isQueued_afterDelivery (κ := κ) plan.releaseOrder n
  obtain ⟨outcome, channel⟩ := sending
  cases outcome with
  | sent | dropped =>
    show (Phase.afterDelivery _ n : Phase κ).isQueued = true ↔ _
    rw [hdelivered]
    exact ⟨nofun, nofun⟩
  | blocked => exact ⟨fun _ => rfl, fun _ => rfl⟩

theorem deliver_eq (plan : Plan κ) (s : Session κ) (n : Nat)
    (sending : Channel.Sending × Channel) (sh : Shared) :
    (s.deliver plan n sending sh).1.slot = s.slot ∧
      (s.deliver plan n sending sh).2.channel = sending.2 := by
  obtain ⟨outcome, channel⟩ := sending
  cases outcome <;> exact ⟨rfl, rfl⟩

/-- A session for which a place is kept sends its report. -/
theorem resume_of_not_isBlocked {n : Nat} (hp : s.phase = .queued n) (hb : s.isBlocked c = false)
    (hopen : c.isOpen = true) : (c.resume ⟨s.slot, n⟩).1 = .sent := by
  have hmem : s.slot ∈ c.reserved := by simpa [isBlocked, hp, hopen] using hb
  rw [Channel.resume, hopen, if_neg (by simp), if_pos hmem]

/-- The session sends its report or drops it, or finds no place and comes into the line. -/
theorem Attempt.queues (plan : Plan κ) {n : Nat} {sending : Channel.Sending × Channel}
    (h : s.Attempt n sh.channel sending) (ho : sh.channel.Orderly) (hs : s.Stands sh.channel) :
    s.Queues sh.channel (s.deliver plan n sending sh).1
      (s.deliver plan n sending sh).2.channel := by
  obtain ⟨hslot, hchannel⟩ := deliver_eq plan s n sending sh
  have hopen : sending.2.isOpen = sh.channel.isOpen := by
    cases h.sends with
    | sent hopen ho => exact ho.trans hopen.symm
    | dropped => rfl
    | blocked hopen ho => exact ho.trans hopen.symm
  rw [hchannel]
  cases h with
  | first hp =>
    have hnew : sh.channel.isOpen = true → s.slot ∉ sh.channel.line := by
      intro htrue hmem
      have hqueued := (hs htrue).mp hmem
      rw [hp] at hqueued
      cases hqueued
    refine ⟨hslot, hopen, fun _ hfits => hfits.send _, ho.send hnew, fun htrue slot => ?_⟩
    rw [isQueued_deliver, Channel.mem_line_send, or_comm, and_comm]
    refine or_congr_right ⟨fun hmem => ⟨fun heq => hnew htrue (heq ▸ hmem), hmem⟩, And.right⟩
  | again hp hb =>
    refine ⟨hslot, hopen, fun _ hfits => hfits.resume _, ho.resume, fun htrue slot => ?_⟩
    have hsent := resume_of_not_isBlocked hp hb htrue
    rw [isQueued_deliver, ho.mem_line_resume hsent, hsent]
    exact ⟨.inr, fun h => h.resolve_left nofun⟩

theorem Action.queues (h : Action plan s sh s' sh') (ho : sh.channel.Orderly)
    (hs : s.Stands sh.channel) : s.Queues sh.channel s' sh'.channel := by
  cases h with
  | advance h =>
    obtain ⟨hbefore, hafter⟩ := h.isQueued
    exact queues_of_line_eq ho hs rfl rfl rfl (fun _ => id) (hafter.trans hbefore.symm)
  | @finish ending trace h =>
    exact queues_finish { sh with trace } ho hs h.isQueued ending
  | @release n hp =>
    refine queues_of_line_eq ho hs rfl rfl rfl (fun _ => id) ?_
    rw [hp]
    exact Phase.isQueued_afterRelease _ n
  | deliver h => exact h.queues plan ho hs

/-- A session that is dropped leaves the line. -/
theorem queues_abort (ho : sh.channel.Orderly) (hs : s.Stands sh.channel) :
    s.Queues sh.channel (s.abort sh).1 (s.abort sh).2.channel := by
  unfold abort
  split
  · exact queues_of_line_eq ho hs rfl rfl rfl (fun _ => id) rfl
  · have hdropped := ho.abandon s.slot
    refine ⟨rfl, Channel.isOpen_abandon _ _, fun _ hfits => ?_, ⟨hdropped.distinct, hdropped.full⟩,
      fun _ slot => ?_⟩
    · have hfits := hfits.abandon s.slot
      exact ⟨hfits.capacity, hfits.taken⟩
    · exact ho.mem_line_abandon.trans ⟨.inr, fun h => h.resolve_left nofun⟩
  · next hqueued =>
    refine queues_finish sh ho hs ?_ .aborted
    cases hp : s.phase with
    | queued n => exact absurd hp (hqueued n)
    | _ => rfl

end Session

namespace Pool

variable {p p' : Pool κ} {s s' : Session κ} {sh' : Shared} {places : Nat}

/-- The channel has so many places, and the sessions in line for one are those that wait for it. -/
structure Lined (places : Nat) (p : Pool κ) : Prop where
  fits : p.shared.channel.Fits places
  orderly : p.shared.channel.Orderly
  line : p.shared.channel.isOpen = true → ∀ slot, slot ∈ p.shared.channel.line ↔
    ∃ s ∈ p.sessions, s.slot = slot ∧ s.phase.isQueued = true

namespace Lined

theorem stands (h : p.Lined places) (hsound : p.Sound plan) (hs : s ∈ p.sessions) :
    s.Stands p.shared.channel := by
  intro hopen
  rw [h.line hopen]
  constructor
  · rintro ⟨t, ht, hslot, hqueued⟩
    rwa [hsound.eq_of_slot_eq hs ht hslot] at hqueued
  · exact fun hqueued => ⟨s, hs, rfl, hqueued⟩

/-- A session is put back, with what it has done to the line. -/
theorem update (h : p.Lined places) (hs : s ∈ p.sessions)
    (hq : s.Queues p.shared.channel s' sh'.channel) : (p.update s' sh').Lined places := by
  refine ⟨hq.fits _ h.fits, hq.orderly, fun hopen slot => ?_⟩
  have hopen : p.shared.channel.isOpen = true := hq.isOpen.symm.trans hopen
  show slot ∈ sh'.channel.line ↔ _
  rw [hq.line hopen, h.line hopen]
  constructor
  · rintro (⟨rfl, hqueued⟩ | ⟨hne, t, ht, rfl, hqueued⟩)
    · exact ⟨s', (mem_update hs hq.slot).mpr (.inl rfl), hq.slot, hqueued⟩
    · exact ⟨t, (mem_update hs hq.slot).mpr (.inr ⟨ht, hne⟩), rfl, hqueued⟩
  · rintro ⟨t, ht, rfl, hqueued⟩
    rcases (mem_update hs hq.slot).mp ht with rfl | ⟨ht, hne⟩
    · exact .inl ⟨hq.slot, hqueued⟩
    · exact .inr ⟨hne, t, ht, rfl, hqueued⟩

theorem change (h : p.Lined places) (hsound : p.Sound plan) (hc : Change plan p p') :
    p'.Lined places := by
  cases hc with
  | launch hl =>
    have hsessions := fun s => mem_launch (s := s) hl
    obtain ⟨admission, ha, rfl⟩ := eq_of_launch hl
    refine ⟨⟨h.fits.capacity, h.fits.taken⟩, ⟨h.orderly.distinct, h.orderly.full⟩,
      fun hopen slot => (h.line hopen slot).trans ?_⟩
    -- The new session does not wait for a place.
    constructor
    · rintro ⟨s, hs, hrest⟩
      exact ⟨s, (hsessions s).mpr (.inl hs), hrest⟩
    · rintro ⟨s, hs, hslot, hqueued⟩
      rcases (hsessions s).mp hs with hs | rfl
      · exact ⟨s, hs, hslot, hqueued⟩
      · cases hqueued
  | step hs =>
    obtain ⟨s, s', sh', hmem, -, hstep, rfl⟩ := session_of_step hs
    exact h.update hmem ((Session.action_of_step hstep).queues h.orderly (h.stands hsound hmem))
  | abort slot =>
    unfold Pool.abort
    split
    · exact h
    · next s hs =>
      obtain ⟨hmem, -⟩ := mem_of_session? hs
      exact h.update hmem (Session.queues_abort h.orderly (h.stands hsound hmem))
  | receive hr =>
    obtain ⟨channel, hchannel, rfl⟩ := eq_of_receive hr
    obtain ⟨-, hopen⟩ := Channel.eq_cons_of_receive hchannel
    refine ⟨h.fits.receive hchannel, h.orderly.receive hchannel, fun htrue slot => ?_⟩
    exact (Channel.mem_line_of_receive hchannel).trans (h.line (hopen.symm.trans htrue) slot)
  | dropReceiver => exact ⟨h.fits.drop, h.orderly.drop, nofun⟩
  | @remove slot s ending hs he =>
    refine ⟨h.fits, h.orderly, fun hopen slot' => (h.line hopen slot').trans ?_⟩
    obtain ⟨hmem, hslot⟩ := mem_of_session? hs
    constructor
    · rintro ⟨t, ht, hslot', hqueued⟩
      refine ⟨t, List.mem_filter.mpr ⟨ht, ?_⟩, hslot', hqueued⟩
      rw [bne_iff_ne]
      intro heq
      rw [hsound.eq_of_slot_eq hmem ht (heq.trans hslot.symm), Session.phase_of_ending he] at hqueued
      cases hqueued
    · rintro ⟨t, ht, hrest⟩
      exact ⟨t, List.filter_sublist.subset ht, hrest⟩
  | note e => exact ⟨h.fits, h.orderly, h.line⟩

/-- If no report waits to be received and a session waits for a place all the same, then every place
is kept for some other session, which has yet to find it. -/
theorem exists_unblocked (h : p.Lined places) (hplaces : 0 < places)
    (hqueue : p.shared.channel.queue = []) (hs : s ∈ p.sessions)
    (hb : s.isBlocked p.shared.channel = true) :
    ∃ t ∈ p.sessions, t.phase.isQueued = true ∧ t.isBlocked p.shared.channel = false := by
  obtain ⟨n, hp⟩ : ∃ n, s.phase = .queued n := by
    unfold Session.isBlocked at hb
    split at hb
    · next n hp => exact ⟨n, hp⟩
    · cases hb
  have hwaits : p.shared.channel.isOpen = true ∧ s.slot ∉ p.shared.channel.reserved := by
    simpa [Session.isBlocked, hp] using hb
  obtain ⟨hopen, hkept⟩ := hwaits
  have hqueued : s.phase.isQueued = true := by
    rw [hp]
    rfl
  have hwaiting : s.slot ∈ p.shared.channel.waiting :=
    (List.mem_append.mp ((h.line hopen _).mpr ⟨s, hs, rfl, hqueued⟩)).resolve_right hkept
  have hfull := h.orderly.full hopen (List.ne_nil_of_mem hwaiting)
  rw [h.fits.capacity, hqueue, List.length_nil, Nat.zero_add] at hfull
  obtain ⟨slot, hslot⟩ := List.exists_mem_of_length_pos (Nat.lt_of_lt_of_le hplaces hfull)
  obtain ⟨t, ht, rfl, htq⟩ := (h.line hopen slot).mp (List.mem_append_right _ hslot)
  refine ⟨t, ht, htq, ?_⟩
  unfold Session.isBlocked
  split
  · simp [hslot]
  · rfl

end Lined

theorem lined_of_empty {concurrency capacity : Nat} (h : empty? concurrency capacity = some p) :
    p.Lined capacity := by
  obtain rfl := eq_of_empty h
  refine ⟨⟨rfl, Nat.zero_le _⟩, ⟨List.nodup_nil, fun _ hne => absurd rfl hne⟩, fun _ slot => ?_⟩
  exact ⟨nofun, fun ⟨s, hs, _⟩ => nomatch hs⟩

end Pool

end EchoLoad
