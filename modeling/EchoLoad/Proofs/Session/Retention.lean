import EchoLoad.Proofs.Session.Books

/-!
# Which tokens are kept, and how long

The two orders in which a session frees its slot and reports differ in what a full channel does to
the tokens. If a session reports first, it keeps its token until its report is in the channel, or
nobody receives any more. So every token that has been handed out is held, or its session has put
its report, has failed, was dropped, or came too late to be heard (`Pool.Retained`): sessions that
wait for a place stand in the way of new ones. If a session frees its slot first, one that waits for
a place holds no token, and no token can be had only as long as there are as many sessions before the
end of their close as the ceiling allows (`Pool.Yielded`).
-/

namespace EchoLoad

variable {κ : Type}

/-- Whether a session with this end has failed; one that has panicked counts as well. -/
def Ending.isFailure : Ending → Bool
  | .failed _ | .panicked => true
  | .finished _ | .aborted => false

def Ending.isFinished : Ending → Bool
  | .finished _ => true
  | _ => false

/-- The session is under way and has not finished its close. -/
def Session.IsUnclosed (s : Session κ) (t : Trace) : Prop :=
  s.ending? = none ∧ .close ∉ t.callsOf s.slot

instance (s : Session κ) (t : Trace) : Decidable (s.IsUnclosed t) :=
  inferInstanceAs (Decidable (_ ∧ _))

/-- At rest, a session has not finished its close if it would hold its token even where tokens are
freed first. -/
theorem Phase.Story.isUnclosed_iff {plan : Plan κ} {s : Session κ} {t : Trace}
    (h : s.phase.Story plan s.slot t) (hr : s.phase.rests = true) :
    s.IsUnclosed t ↔ s.phase.holds .beforeReport = true := by
  have hopen := h.isOpen_iff
  cases hp : s.phase with
  | releasing | delivering | finishing =>
    rw [hp] at hr
    cases hr
  | starting =>
    rw [hp] at h
    refine ⟨fun _ => rfl, fun _ => ⟨by rw [Session.ending?, hp], ?_⟩⟩
    rw [show t.callsOf s.slot = [] from h]
    exact List.not_mem_nil
  | trading | closing =>
    rw [hp] at hopen
    exact ⟨fun _ => rfl, fun _ => ⟨(hopen.mpr rfl).2.2, (hopen.mpr rfl).2.1⟩⟩
  | queued n =>
    rw [hp] at h
    obtain ⟨first, calls, last, ho, -⟩ := h
    refine ⟨fun hunclosed => absurd ?_ hunclosed.2, fun hholds => absurd hholds Bool.false_ne_true⟩
    rw [ho.calls]
    exact List.mem_cons_self
  | ended ending =>
    refine ⟨fun hunclosed => ?_, fun hholds => absurd hholds Bool.false_ne_true⟩
    have hended := hunclosed.1
    rw [Session.ending?, hp] at hended
    cases hended

/-- A session at rest that has not ended holds its token if it reports first. -/
theorem Phase.holds_of_rests {s : Session κ} (hr : s.phase.rests = true) (he : s.ending? = none) :
    s.phase.holds .afterReport = true := by
  cases hp : s.phase with
  | starting | trading | closing | queued => rfl
  | releasing | delivering | finishing =>
    rw [hp] at hr
    cases hr
  | ended ending =>
    rw [Session.ending?, hp] at he
    cases he

namespace Pool

variable {plan : Plan κ} {p p' p₀ : Pool κ} {c : Command} {cs : List Command}
  {added removed : List Report} {concurrency capacity : Nat}

theorem unheard_iff {slot : Nat} : p₀.Unheard plan cs slot ↔
    ∃ i < cs.length, cs[i]? = some (.poll slot) ∧ .hangUp ∈ cs.take i ∧
      ∃ s ∈ (p₀.after plan (cs.take i)).sessions, s.slot = slot ∧ s.ending? = none := by
  constructor
  · rintro ⟨front, back, rfl, hrest⟩
    refine ⟨front.length, ?_, ?_, ?_⟩
    · rw [List.length_append, List.length_cons]
      omega
    · rw [List.getElem?_append_right (Nat.le_refl _), Nat.sub_self]
      rfl
    · rw [List.take_left]
      exact hrest
  · rintro ⟨i, hi, hpoll, hrest⟩
    obtain ⟨hi, hpoll⟩ := List.getElem?_eq_some_iff.mp hpoll
    refine ⟨cs.take i, cs.drop (i + 1), ?_, hrest⟩
    rw [← hpoll, ← List.drop_eq_getElem_cons hi, List.take_append_drop]

instance (slot : Nat) : Decidable (p₀.Unheard plan cs slot) := decidable_of_iff' _ unheard_iff

/-! ## Reporting first -/

/-- What keeps the tokens from being free if sessions report first, in a pool that has been set up empty
as `p₀` and is `p` after the commands `cs`. -/
structure Retained (plan : Plan κ) (concurrency : Nat) (p₀ : Pool κ) (cs : List Command)
    (p : Pool κ) : Prop where
  /-- A session that has not ended holds its token. -/
  going : ∀ s ∈ p.sessions, s.ending? = none →
    s.holdsToken = true ∧ s.slot ∈ p.shared.admission.held
  /-- One that has ended without a failure, and not from outside, has put its report before, unless the
  receiver had been dropped before that. -/
  finished : ∀ s ∈ p.sessions, ∀ n, s.ending? = some (.finished n) →
    ⟨s.slot, n⟩ ∈ p₀.posted plan cs ∨ p₀.Unheard plan cs s.slot
  /-- So there are no more tokens than that. -/
  admitted : p.shared.admission.admitted ≤ concurrency + (p₀.posted plan cs).length +
    p.sessions.countP (fun s => s.ending?.any Ending.isFailure) +
    p.sessions.countP (fun s => s.ending? = some .aborted) +
    p.sessions.countP (fun s => s.ending?.any Ending.isFinished && p₀.Unheard plan cs s.slot)

theorem Steady.holdsToken_of_going (h : p.Steady plan concurrency capacity)
    (horder : plan.releaseOrder = .afterReport) {s : Session κ} (hs : s ∈ p.sessions)
    (he : s.ending? = none) : s.holdsToken = true := by
  rw [h.sound.tokens s hs, horder]
  exact Phase.holds_of_rests (h.rests s hs) he

/-- Whatever commands are given, in whatever order. -/
theorem retained (h : empty? concurrency capacity = some p₀)
    (horder : plan.releaseOrder = .afterReport) (cs : List Command) :
    Retained plan concurrency p₀ cs (p₀.after plan cs) := by
  obtain ⟨hsteady, -, hsettled⟩ := books_after plan h cs
  generalize hp : p₀.after plan cs = p at hsteady hsettled
  have hsound := hsteady.sound
  have hgoing : ∀ s ∈ p.sessions, s.ending? = none →
      s.holdsToken = true ∧ s.slot ∈ p.shared.admission.held := by
    intro s hs he
    have hholds := hsteady.holdsToken_of_going horder hs he
    exact ⟨hholds, hsound.slot_mem_held hs hholds⟩
  have hfinished : ∀ s ∈ p.sessions, ∀ n, s.ending? = some (.finished n) →
      ⟨s.slot, n⟩ ∈ p₀.posted plan cs ∨ p₀.Unheard plan cs s.slot :=
    fun s hs n hn => hsettled.told s hs n (Session.reported_of_ending hn _)
  refine ⟨hgoing, hfinished, ?_⟩
  have hall : ∀ slot < p.shared.admission.next, slot ∈ p.shared.admission.held ∨
      slot ∈ (p₀.posted plan cs).map Report.slot ++
        p.slotsOf (fun s => s.ending?.any Ending.isFailure) ++
        p.slotsOf (fun s => s.ending? = some .aborted) ++
        p.slotsOf (fun s => s.ending?.any Ending.isFinished && p₀.Unheard plan cs s.slot) := by
    intro slot hslot
    obtain ⟨s, hs, rfl⟩ : ∃ s ∈ p.sessions, s.slot = slot := by
      rw [← List.mem_map, hsteady.started]
      exact List.mem_range.mpr hslot
    simp only [List.mem_append]
    cases he : s.ending? with
    | none => exact .inl (hgoing s hs he).2
    | some ending =>
      cases ending with
      | finished n =>
        rcases hfinished s hs n he with hposted | hunheard
        · exact .inr (.inl (.inl (.inl (List.mem_map_of_mem hposted))))
        · exact .inr (.inr (mem_slotsOf hs (by simp [he, hunheard, Ending.isFinished])))
      | failed e =>
        exact .inr (.inl (.inl (.inr (mem_slotsOf hs (by simp [he, Ending.isFailure])))))
      | panicked =>
        exact .inr (.inl (.inl (.inr (mem_slotsOf hs (by simp [he, Ending.isFailure])))))
      | aborted => exact .inr (.inl (.inr (mem_slotsOf hs (by simp [he]))))
  have hle := hsound.balanced.next_le hall
  simp only [List.length_append, List.length_map, length_slotsOf, hsteady.ceiling] at hle
  show p.shared.admission.next ≤ _
  omega

/-! ## Freeing first -/

/-- What keeps the tokens from being free if sessions free their slots first, in a pool with this
ceiling. -/
structure Yielded (concurrency : Nat) (p : Pool κ) : Prop where
  /-- A session that waits for a place holds no token. -/
  waiting : ∀ s ∈ p.sessions, ∀ n, s.phase = .queued n →
    s.holdsToken = false ∧ s.slot ∉ p.shared.admission.held
  /-- No token can be had just if as many sessions as the ceiling allows have not finished their
  close. -/
  blocks : p.shared.admission.acquire? = none ↔
    p.sessions.countP (fun s => s.IsUnclosed p.shared.trace) = concurrency

theorem Performed.isOpen (h : Performed plan p c added removed p') :
    p'.shared.admission.isOpen = p.shared.admission.isOpen := by
  cases h with
  | start hl =>
    obtain ⟨admission, ha, rfl⟩ := eq_of_launch hl
    obtain ⟨-, -, rfl⟩ := Admission.eq_of_acquire ha
    rfl
  | act _ _ he => exact he.isOpen
  | receive hr =>
    obtain ⟨channel, -, rfl⟩ := eq_of_receive hr
    rfl
  | idle | hangUp => rfl

/-- Tokens are handed out whatever commands are given. -/
theorem isOpen_after (plan : Plan κ) (h : empty? concurrency capacity = some p₀)
    (cs : List Command) : (p₀.after plan cs).shared.admission.isOpen = true := by
  induction cs using List.reverseRecOn with
  | nil =>
    obtain rfl := eq_of_empty h
    rfl
  | append_singleton cs c ih =>
    rw [after_append_singleton, ((books_after plan h cs).1.performed c).isOpen, ih]

/-- Whatever commands are given, in whatever order. -/
theorem yielded (h : empty? concurrency capacity = some p₀)
    (horder : plan.releaseOrder = .beforeReport) (cs : List Command) :
    Yielded concurrency (p₀.after plan cs) := by
  have hopen := isOpen_after plan h cs
  obtain ⟨hsteady, -, -⟩ := books_after plan h cs
  generalize hp : p₀.after plan cs = p at hopen hsteady
  have hsound := hsteady.sound
  have hholds : ∀ s ∈ p.sessions, s.holdsToken = s.phase.holds .beforeReport := by
    rw [← horder]
    exact hsound.tokens
  refine ⟨fun s hs n hq => ?_, ?_⟩
  · have hfree : s.holdsToken = false := by
      rw [hholds s hs, hq]
      rfl
    refine ⟨hfree, fun hmem => ?_⟩
    obtain ⟨t, ht, hslot, htoken⟩ := (hsound.held _).mp hmem
    rw [hsound.eq_of_slot_eq hs ht hslot, hfree] at htoken
    cases htoken
  · have hcount : p.sessions.countP (fun s => s.IsUnclosed p.shared.trace) =
        p.shared.admission.held.length := by
      rw [← hsound.balanced.inUse_eq, hsound.inUse_eq]
      refine List.countP_congr fun s hs => ?_
      rw [decide_eq_true_iff, (hsound.stories s hs).isUnclosed_iff (hsteady.rests s hs),
        hholds s hs]
    have hbalance := hsound.balanced.balance
    rw [hsteady.ceiling] at hbalance
    have hblocked : p.shared.admission.acquire? = none ↔ p.shared.admission.free = 0 := by
      simp [Admission.acquire?, hopen]
    rw [hcount, hblocked]
    omega

end Pool

end EchoLoad
