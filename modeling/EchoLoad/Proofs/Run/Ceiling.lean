import EchoLoad.Proofs.Run.Made
import EchoLoad.Proofs.Session.Soundness
import EchoLoad.Rehearsal
import Mathlib.Logic.Relation

/-!
# The ceiling of a run

At no time are more tokens held than the configuration allows, and every open connection belongs to
a session that holds its own token, so there are never more open connections than that either
(`ceiling`). This is so after the driver has returned as well, while the sessions that are left go
on until they are dropped: `Run.Live` takes in these states.

Nothing is proved here about single moves but that they change the pool in one of the ways that keep
it sound (`Made.changes`). Whatever else these changes keep holds of a run in the same way
(`Live.invariant`).
-/

namespace EchoLoad.Run

variable {κ : Type} {s : Setting κ} {r r' : Run κ}

/-- The states of a run to its very end. Once the driver has returned, its sessions are dropped one
by one, and so is the aggregator; until then they go on. -/
inductive Live (s : Setting κ) : Run κ → Prop where
  | running {r : Run κ} (h : Reachable s r) : Live s r
  | act {r : Run κ} {slot : Nat} {pool : Pool κ} (h : Live s r) (hv : r.verdict.isSome = true)
      (hs : r.pool.step? s.plan slot = some pool) : Live s { r with pool }
  | collect {r : Run κ} {report : Report} {pool : Pool κ} (h : Live s r)
      (hv : r.verdict.isSome = true) (hr : r.pool.receive? = some (report, pool)) :
      Live s { r with pool }
  | abort {r : Run κ} (slot : Nat) (h : Live s r) (hv : r.verdict.isSome = true) :
      Live s { r with pool := r.pool.abort slot }
  | hangUp {r : Run κ} (h : Live s r) (hv : r.verdict.isSome = true) :
      Live s { r with pool := r.pool.dropReceiver }

abbrev Changes (s : Setting κ) : Pool κ → Pool κ → Prop :=
  Relation.ReflTransGen (Pool.Change s.plan)

theorem changes_note (s : Setting κ) (r : Run κ) (e : Event) :
    Changes s r.pool (r.note e).pool := .single (.note _ e)

theorem changes_collect {report : Report} {pool : Pool κ}
    (h : r.pool.receive? = some (report, pool)) :
    Changes s r.pool (r.collect s report pool).pool := by
  have hreceive : Changes s r.pool pool := .single (.receive h)
  unfold collect
  dsimp only
  split
  · exact (hreceive.tail (.dropReceiver pool)).tail (.note _ _)
  · exact hreceive

theorem Made.changes {m : Move} (h : Made s r m r') : Changes s r.pool r'.pool := by
  cases h with
  | launch hl => exact .single (.launch hl)
  | refuse => exact .refl
  | act hs => exact .single (.step hs)
  | collect _ hr => exact changes_collect hr
  | close => exact .refl
  | stop => exact changes_note s r _
  | giveUp => exact .refl
  | leave hx he => exact .single (.remove hx he)
  | fail => exact changes_note s r _
  | panic => exact .refl

/-- A sound pool under the ceiling of the configuration. -/
structure Kept (s : Setting κ) (p : Pool κ) : Prop where
  sound : p.Sound s.plan
  concurrency : p.shared.admission.concurrency = s.config.concurrency

theorem Kept.changes {p p' : Pool κ} (h : Kept s p) (hc : Changes s p p') : Kept s p' := by
  induction hc with
  | refl => exact h
  | tail _ hc ih => exact ⟨ih.sound.change hc, (ih.sound.concurrency_change hc).trans ih.concurrency⟩

theorem kept_of_begin (h : begin s = .value r) : Kept s r.pool := by
  obtain ⟨pool, hp, rfl⟩ := eq_of_begin h
  obtain ⟨hsound, hconcurrency⟩ := Pool.sound_of_empty s.plan hp
  exact Kept.changes ⟨hsound, hconcurrency⟩ (.single (.note pool _))

theorem Reachable.kept (h : Reachable s r) : Kept s r.pool := by
  induction h with
  | begin h => exact kept_of_begin h
  | step m _ hs ih => exact ih.changes (made_of_step hs).2.changes

theorem Live.kept (h : Live s r) : Kept s r.pool := by
  induction h with
  | running h => exact h.kept
  | act _ _ hs ih => exact ih.changes (.single (.step hs))
  | collect _ _ hr ih => exact ih.changes (.single (.receive hr))
  | abort slot _ _ ih => exact ih.changes (.single (.abort _ slot))
  | hangUp _ _ ih => exact ih.changes (.single (.dropReceiver _))

/-- What holds of the empty pool, and is kept by every change of a sound pool, holds as long as the
run lives. -/
theorem Live.invariant {holds : Pool κ → Prop}
    (hempty : ∀ pool, Pool.empty? s.config.concurrency s.config.reportBuffer = some pool →
      holds pool)
    (hchange : ∀ p p', p.Sound s.plan → Pool.Change s.plan p p' → holds p → holds p')
    (h : Live s r) : holds r.pool := by
  have hchanges : ∀ {p p' : Pool κ}, Kept s p → Changes s p p' → holds p → holds p' := by
    intro p p' hk hc hp
    induction hc with
    | refl => exact hp
    | tail hchanges hc ih => exact hchange _ _ (hk.changes hchanges).sound hc ih
  have hreachable : ∀ {r : Run κ}, Reachable s r → holds r.pool := by
    intro r h
    induction h with
    | begin h =>
      obtain ⟨pool, hp, rfl⟩ := eq_of_begin h
      exact hchange _ _ (Pool.sound_of_empty s.plan hp).1 (.note pool _) (hempty pool hp)
    | step m h hs ih => exact hchanges h.kept (made_of_step hs).2.changes ih
  induction h with
  | running h => exact hreachable h
  | act h _ hs ih => exact hchange _ _ h.kept.sound (.step hs) ih
  | collect h _ hr ih => exact hchange _ _ h.kept.sound (.receive hr) ih
  | abort slot h _ ih => exact hchange _ _ h.kept.sound (.abort _ slot) ih
  | hangUp h _ ih => exact hchange _ _ h.kept.sound (.dropReceiver _) ih

/-- At no time are there more tokens outstanding than the configuration allows. A connection that has
been dialed and has been neither closed nor dropped belongs to a session that holds its own token,
and so there are never more of these connections either. -/
theorem ceiling (h : Live s r) :
    let shared := r.pool.shared
    shared.admission.inUse = shared.admission.held.length ∧
      shared.admission.held.length ≤ s.config.concurrency ∧
      (r.pool.sessions.map Session.slot).Nodup ∧
      (∀ x ∈ r.pool.sessions, x.IsOpen shared.trace →
        x.holdsToken = true ∧ x.slot ∈ shared.admission.held) ∧
      r.pool.sessions.countP (fun x => x.IsOpen shared.trace) ≤ s.config.concurrency := by
  have hkept := h.kept
  have hsound := hkept.sound
  have hlength : r.pool.shared.admission.held.length ≤ s.config.concurrency := by
    rw [← hkept.concurrency]
    exact hsound.balanced.length_held_le
  have hopen : ∀ x ∈ r.pool.sessions, x.IsOpen r.pool.shared.trace → x.holdsToken = true := by
    intro x hx hopen
    rw [hsound.tokens x hx]
    exact Phase.holds_of_conn _ ((hsound.stories x hx).isOpen_iff.mp hopen)
  refine ⟨hsound.balanced.inUse_eq, hlength, hsound.distinct, ?_, ?_⟩
  · intro x hx hx'
    exact ⟨hopen x hx hx', hsound.slot_mem_held hx (hopen x hx hx')⟩
  · have hcount := hsound.countP_le (f := fun x => x.IsOpen r.pool.shared.trace)
      (fun x hx hx' => hopen x hx (of_decide_eq_true hx'))
    exact Nat.le_trans hcount hlength

/-- Two sessions at a time, three round trips each, and a target of five. -/
def Setting.pair : Setting Rehearsal :=
  { config := { concurrency := 2, targetTotal := 5, url := "ws://h/", releaseOrder := .afterReport }
    transport := Rehearsal.transport []
    workload := .constant 3 5
    elapsed := ⟨0, 0⟩ }

theorem check_pair : Setting.pair.config.check Setting.pair.reader = .ok () := by rfl

/-- Two sessions have dialed, and a third one has to wait. -/
theorem ceiling_pair : ∃ r, Live Setting.pair r ∧ r.pool.openConnections = 2 ∧
    r.step? Setting.pair .launch = none ∧ r.pool.shared.admission.held.length ≤ 2 ∧
    (r.pool.sessions.map Session.slot).Nodup ∧
    r.pool.sessions.countP (fun x => x.IsOpen r.pool.shared.trace) ≤ 2 := by
  have hbegin : Reachable Setting.pair _ := .begin (by rw [begin, check_pair]; rfl)
  have hlaunch : Reachable Setting.pair _ := .step .launch (.step .launch hbegin rfl) rfl
  have hdial : Reachable Setting.pair _ := .step (.act 1) (.step (.act 0) hlaunch rfl) rfl
  obtain ⟨-, hheld, hdistinct, -, hopen⟩ := ceiling (.running hdial)
  exact ⟨_, .running hdial, rfl, rfl, hheld, hdistinct, hopen⟩

end EchoLoad.Run
