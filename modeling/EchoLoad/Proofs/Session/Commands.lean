import EchoLoad.Proofs.Session.Polling

/-!
# Commands to a pool

The commands by which a pool is driven from outside, as data, so that statements can speak of every
sequence of them: a session is started, polled or aborted, a report is received, the receiver is
dropped. `Pool.after` carries out commands in turn; `Pool.posted` and `Pool.received` are the reports
that have gone into the channel and come out of it meanwhile, each in its order.

`Pool.Performed` says what a command can do, and `performed` that it can do nothing else. Between two
commands a pool is steady (`Pool.Steady`): its books agree, no more places are taken than there are,
and its sessions are at rest.
-/

namespace EchoLoad.Pool

variable {κ : Type}

inductive Command where
  | start
  | poll (slot : Nat)
  | abort (slot : Nat)
  | receive
  /-- The receiver is dropped. -/
  | hangUp
  deriving DecidableEq, Repr

/-- Carries out a command. No session is started if no token is free, and none is polled or aborted in
a slot without a session; nothing is received if there is no report. -/
def perform (plan : Plan κ) (p : Pool κ) : Command → Pool κ
  | .start => (p.launch?.map Prod.snd).getD p
  | .poll slot => p.poll plan slot
  | .abort slot => p.abort slot
  | .receive => (p.receive?.map Prod.snd).getD p
  | .hangUp => p.dropReceiver

/-- The reports that a command puts into the channel. -/
def put (plan : Plan κ) (p : Pool κ) (c : Command) : List Report :=
  (p.perform plan c).shared.channel.queue.drop p.shared.channel.queue.length

/-- The report that a command takes out of the channel. -/
def taken (p : Pool κ) : Command → List Report
  | .receive => (p.receive?.map Prod.fst).toList
  | _ => []

/-- The pool after commands that are carried out in turn. -/
def after (plan : Plan κ) (p : Pool κ) (cs : List Command) : Pool κ := cs.foldl (perform plan) p

/-- All reports that have gone into the channel, the first one first. -/
def posted (plan : Plan κ) (p : Pool κ) : List Command → List Report
  | [] => []
  | c :: cs => p.put plan c ++ (p.perform plan c).posted plan cs

/-- All reports that have come out of the channel, the first one first. -/
def received (plan : Plan κ) (p : Pool κ) : List Command → List Report
  | [] => []
  | c :: cs => p.taken c ++ (p.perform plan c).received plan cs

theorem after_append_singleton (plan : Plan κ) (p : Pool κ) (cs : List Command) (c : Command) :
    p.after plan (cs ++ [c]) = (p.after plan cs).perform plan c := by
  rw [after, List.foldl_append]
  rfl

theorem posted_append_singleton (plan : Plan κ) (p : Pool κ) (cs : List Command) (c : Command) :
    p.posted plan (cs ++ [c]) = p.posted plan cs ++ (p.after plan cs).put plan c := by
  induction cs generalizing p with
  | nil => exact List.append_nil _
  | cons c' cs ih =>
    have hcons : p.posted plan (c' :: cs ++ [c]) =
        p.put plan c' ++ (p.perform plan c').posted plan (cs ++ [c]) := rfl
    rw [hcons, ih, ← List.append_assoc]
    rfl

theorem received_append_singleton (plan : Plan κ) (p : Pool κ) (cs : List Command) (c : Command) :
    p.received plan (cs ++ [c]) = p.received plan cs ++ (p.after plan cs).taken c := by
  induction cs generalizing p with
  | nil => exact List.append_nil _
  | cons c' cs ih =>
    have hcons : p.received plan (c' :: cs ++ [c]) =
        p.taken c' ++ (p.perform plan c').received plan (cs ++ [c]) := rfl
    rw [hcons, ih, ← List.append_assoc]
    rfl

/-! ## What a command can do -/

/-- What a command does, what it puts into the channel and what it takes out of it. -/
inductive Performed (plan : Plan κ) (p : Pool κ) :
    Command → List Report → List Report → Pool κ → Prop where
  | idle {c : Command} (hc : c ≠ .hangUp) : Performed plan p c [] [] p
  | start {slot : Nat} {p' : Pool κ} (h : p.launch? = some (slot, p')) :
      Performed plan p .start [] [] p'
  | act {c : Command} {s s' : Session κ} {sh' : Shared} {added : List Report} (hs : s ∈ p.sessions)
      (hc : c = .poll s.slot ∨ c = .abort s.slot ∧
        s'.phase.reported? plan.releaseOrder = s.phase.reported? plan.releaseOrder)
      (he : s.Evolves plan p.shared s' sh') (ht : s.Tells plan p.shared s' sh' added)
      (hrests : s'.phase.rests = true) (hended : ∀ ending, s.phase = .ended ending → s' = s) :
      Performed plan p c added [] (p.update s' sh')
  | receive {report : Report} {p' : Pool κ} (h : p.receive? = some (report, p')) :
      Performed plan p .receive [] [report] p'
  | hangUp : Performed plan p .hangUp [] [] p.dropReceiver

/-- Between two commands: the books agree, no session that has been started is missing, the ceiling and
the number of places are what they were in the beginning, and every session is at rest. -/
structure Steady (plan : Plan κ) (concurrency capacity : Nat) (p : Pool κ) : Prop where
  sound : p.Sound plan
  started : p.sessions.map Session.slot = List.range p.shared.admission.admitted
  ceiling : p.shared.admission.concurrency = concurrency
  fits : p.shared.channel.Fits capacity
  rests : ∀ s ∈ p.sessions, s.phase.rests = true

variable {plan : Plan κ} {p p' : Pool κ} {c : Command} {reports added removed : List Report}
  {concurrency capacity : Nat}

theorem put_eq (h : (p.perform plan c).shared.channel.queue = p.shared.channel.queue ++ reports) :
    p.put plan c = reports := by
  rw [put, h, List.drop_left]

theorem performed_of_idle (hp : p.perform plan c = p) (ht : p.taken c = []) (hc : c ≠ .hangUp) :
    Performed plan p c (p.put plan c) (p.taken c) (p.perform plan c) := by
  have hput : p.put plan c = [] := put_eq (by rw [hp, List.append_nil])
  rw [hput, ht, hp]
  exact .idle hc

theorem performed_of_act {s s' : Session κ} {sh' : Shared} (hp : p.perform plan c = p.update s' sh')
    (ht : p.taken c = []) (hs : s ∈ p.sessions)
    (hc : c = .poll s.slot ∨ c = .abort s.slot ∧
      s'.phase.reported? plan.releaseOrder = s.phase.reported? plan.releaseOrder)
    (he : s.Evolves plan p.shared s' sh') (htells : s.Tells plan p.shared s' sh' reports)
    (hrests : s'.phase.rests = true) (hended : ∀ ending, s.phase = .ended ending → s' = s) :
    Performed plan p c (p.put plan c) (p.taken c) (p.perform plan c) := by
  have hqueue : (p.perform plan c).shared.channel.queue = p.shared.channel.queue ++ reports := by
    rw [hp]
    exact htells.queue
  rw [put_eq hqueue, ht, hp]
  exact .act hs hc he htells hrests hended

theorem Steady.performed_poll (h : p.Steady plan concurrency capacity) (slot : Nat) :
    Performed plan p (.poll slot) (p.put plan (.poll slot)) (p.taken (.poll slot))
      (p.perform plan (.poll slot)) := by
  cases hs : p.session? slot with
  | none =>
    have hp : p.perform plan (.poll slot) = p := by rw [perform, poll, hs]
    exact performed_of_idle hp rfl nofun
  | some s =>
    obtain ⟨hmem, rfl⟩ := mem_of_session? hs
    have hp : p.perform plan (.poll s.slot) =
        p.update (s.run plan p.shared).1 (s.run plan p.shared).2 := by rw [perform, poll, hs]
    have hacts := Session.acts_run plan s p.shared
    obtain ⟨reports, htells⟩ := hacts.tells
    refine performed_of_act hp rfl hmem (.inl rfl) (hacts.evolves (h.sound.tokens s hmem)) htells
      (Session.rests_run plan s p.shared) fun ending hended => ?_
    rw [Session.run_of_ended hended]

theorem Steady.performed_abort (h : p.Steady plan concurrency capacity) (slot : Nat) :
    Performed plan p (.abort slot) (p.put plan (.abort slot)) (p.taken (.abort slot))
      (p.perform plan (.abort slot)) := by
  cases hs : p.session? slot with
  | none =>
    have hp : p.perform plan (.abort slot) = p := by rw [perform, abort, hs]
    exact performed_of_idle hp rfl nofun
  | some s =>
    obtain ⟨hmem, rfl⟩ := mem_of_session? hs
    have hp : p.perform plan (.abort s.slot) =
        p.update (s.abort p.shared).1 (s.abort p.shared).2 := by rw [perform, abort, hs]
    have hrests := h.rests s hmem
    refine performed_of_act hp rfl hmem
      (.inr ⟨rfl, Session.reported_abort plan.releaseOrder hrests p.shared⟩)
      (Session.evolves_abort plan s p.shared (h.sound.tokens s hmem))
      (Session.tells_abort plan hrests p.shared) (Session.rests_abort s p.shared)
      fun ending hended => ?_
    rw [Session.abort, hended]

/-- A command does nothing but what is said above. -/
theorem Steady.performed (h : p.Steady plan concurrency capacity) (c : Command) :
    Performed plan p c (p.put plan c) (p.taken c) (p.perform plan c) := by
  cases c with
  | start =>
    cases hl : p.launch? with
    | none =>
      have hp : p.perform plan .start = p := by rw [perform, hl]; rfl
      exact performed_of_idle hp rfl nofun
    | some launched =>
      obtain ⟨slot, p'⟩ := launched
      have hp : p.perform plan .start = p' := by rw [perform, hl]; rfl
      have hqueue : p'.shared.channel.queue = p.shared.channel.queue ++ [] := by
        obtain ⟨admission, -, rfl⟩ := eq_of_launch hl
        exact (List.append_nil _).symm
      rw [put_eq (hp ▸ hqueue), hp]
      exact .start hl
  | poll slot => exact h.performed_poll slot
  | abort slot => exact h.performed_abort slot
  | receive =>
    cases hr : p.receive? with
    | none =>
      have hp : p.perform plan .receive = p := by rw [perform, hr]; rfl
      have ht : p.taken .receive = [] := by rw [taken, hr]; rfl
      exact performed_of_idle hp ht nofun
    | some pair =>
      obtain ⟨report, p'⟩ := pair
      have hp : p.perform plan .receive = p' := by rw [perform, hr]; rfl
      have ht : p.taken .receive = [report] := by rw [taken, hr]; rfl
      have hput : p.put plan .receive = [] := by
        obtain ⟨channel, hchannel, rfl⟩ := eq_of_receive hr
        obtain ⟨hqueue, -⟩ := Channel.eq_cons_of_receive hchannel
        rw [put, hp, hqueue, List.length_cons]
        exact List.drop_eq_nil_of_le (Nat.le_succ _)
      rw [hput, ht, hp]
      exact .receive hr
  | hangUp =>
    have hput : p.put plan .hangUp = [] := List.drop_nil
    rw [hput]
    exact .hangUp

/-- What goes into the channel goes behind what is in it, and what comes out of it is its head. -/
theorem Performed.queue (h : Performed plan p c added removed p') (hc : c ≠ .hangUp) :
    p.shared.channel.queue ++ added = removed ++ p'.shared.channel.queue ∧
      p'.shared.channel.isOpen = p.shared.channel.isOpen := by
  cases h with
  | idle => exact ⟨List.append_nil _, rfl⟩
  | start hl =>
    obtain ⟨admission, -, rfl⟩ := eq_of_launch hl
    exact ⟨List.append_nil _, rfl⟩
  | act _ _ _ ht => exact ⟨ht.queue.symm, ht.isOpen⟩
  | receive hr =>
    obtain ⟨channel, hchannel, rfl⟩ := eq_of_receive hr
    obtain ⟨hqueue, hopen⟩ := Channel.eq_cons_of_receive hchannel
    exact ⟨(List.append_nil _).trans hqueue, hopen⟩
  | hangUp => exact absurd rfl hc

/-- A report is put by a poll of its own session, while somebody receives. -/
theorem Performed.eq_of_mem (h : Performed plan p c added removed p') {report : Report}
    (hr : report ∈ added) :
    c = .poll report.slot ∧ added = [report] ∧ p.shared.channel.isOpen = true := by
  cases h with
  | idle | start | receive | hangUp => cases hr
  | act _ hc _ ht =>
    obtain ⟨hput, hslot, hopen, hbefore, hafter⟩ := ht.report.eq_of_mem hr
    rcases hc with rfl | ⟨-, heq⟩
    · exact ⟨by rw [hslot], hput, hopen⟩
    · cases hafter.symm.trans (heq.trans hbefore)

theorem Performed.eq_of_hangUp (h : Performed plan p .hangUp added removed p') :
    added = [] ∧ removed = [] ∧ p' = p.dropReceiver := by
  cases h with
  | idle hc => exact absurd rfl hc
  | act _ hc => rcases hc with hc | ⟨hc, -⟩ <;> cases hc
  | hangUp => exact ⟨rfl, rfl, rfl⟩

/-! ## Between two commands -/

theorem steady_of_empty (plan : Plan κ) (h : empty? concurrency capacity = some p) :
    p.Steady plan concurrency capacity ∧ p.sessions = [] ∧ p.shared.channel.queue = [] ∧
      p.shared.channel.isOpen = true := by
  obtain ⟨hsound, hceiling⟩ := sound_of_empty plan h
  obtain rfl := eq_of_empty h
  exact ⟨⟨hsound, rfl, hceiling, ⟨rfl, Nat.zero_le _⟩, nofun⟩, rfl, rfl, rfl⟩

/-- A command leaves a steady pool steady. -/
theorem Steady.of_performed (h : p.Steady plan concurrency capacity)
    (hp : Performed plan p c added removed p') : p'.Steady plan concurrency capacity := by
  have hchange : ∀ {q : Pool κ}, Change plan p q → q.Sound plan ∧
      q.shared.admission.concurrency = concurrency := fun hc =>
    ⟨h.sound.change hc, (h.sound.concurrency_change hc).trans h.ceiling⟩
  cases hp with
  | idle => exact h
  | start hl =>
    obtain ⟨hsound, hceiling⟩ := hchange (.launch hl)
    have hsessions := fun s => mem_launch (s := s) hl
    obtain ⟨admission, hadmission, rfl⟩ := eq_of_launch hl
    obtain ⟨-, rfl, rfl⟩ := Admission.eq_of_acquire hadmission
    refine ⟨hsound, ?_, hceiling, ⟨h.fits.capacity, h.fits.taken⟩, fun s hs => ?_⟩
    · show (p.sessions ++ [_]).map Session.slot = List.range (p.shared.admission.admitted + 1)
      rw [List.map_append, h.started, List.range_succ]
      rfl
    · rcases (hsessions s).mp hs with hs | rfl
      · exact h.rests s hs
      · rfl
  | @act _ s s' sh' _ hs _ he ht hrests =>
    have hadmitted : sh'.admission.admitted = p.shared.admission.admitted := he.next
    refine ⟨h.sound.update hs he, ?_, he.concurrency.trans h.ceiling, ht.fits _ h.fits,
      fun s hmem => ?_⟩
    · show (p.update s' sh').sessions.map Session.slot = List.range sh'.admission.admitted
      rw [slots_update, hadmitted]
      exact h.started
    rcases (mem_update hs he.slot).mp hmem with rfl | ⟨hmem, -⟩
    · exact hrests
    · exact h.rests s hmem
  | receive hr =>
    obtain ⟨hsound, hceiling⟩ := hchange (.receive hr)
    obtain ⟨channel, hchannel, rfl⟩ := eq_of_receive hr
    exact ⟨hsound, h.started, hceiling, h.fits.receive hchannel, h.rests⟩
  | hangUp =>
    obtain ⟨hsound, hceiling⟩ := hchange (.dropReceiver p)
    exact ⟨hsound, h.started, hceiling, h.fits.drop, h.rests⟩

end EchoLoad.Pool
