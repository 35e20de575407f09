import EchoLoad.Proofs.Admission
import Mathlib.Data.List.Induction

/-!
# Asking for tokens

A call that finds no free token waits. It can be polled again, and it can be given up. A token that
is taken back while a call waits does not become free: it is put aside for the call, which takes it
with the next poll, and it becomes free if the call is given up. `Desk` is an admission with the
call that waits at it, and `Desk.Command` is what is done there.

What is put aside is as good as free. Seen in this way (`Desk.settled`), a command hands out a
token, takes one back, or leaves the admission as it is; so calls that come to nothing leave no mark
(`Desk.Stands.settled_after`). The rest follows from the books of an admission, which a desk keeps
(`Desk.Stands`): a token is handed out at once exactly if fewer than the ceiling are outstanding,
and tokens are numbered without a gap in the order in which they are handed out
(`tokens_accounted`).
-/

namespace EchoLoad.Admission

namespace Desk

/-- A call that has found no free token. -/
inductive Waiting where
  | inLine
  /-- A token that was taken back since has been put aside for the call. -/
  | served
  deriving DecidableEq, Repr

end Desk

/-- An admission, and the call that waits for a token, if there is one. -/
structure Desk where
  admission : Admission
  call : Option Desk.Waiting := none
  deriving DecidableEq, Repr

namespace Desk

inductive Command where
  /-- A token is asked for. If a call waits, it is polled. -/
  | ask
  /-- The call that waits is given up. -/
  | giveUp
  | release (slot : Nat)
  /-- The token is dropped by the session that holds it. -/
  | drop (slot : Nat)
  deriving DecidableEq, Repr

/-- The token that a command gives back. -/
def Command.returned? : Command → Option Nat
  | ask | giveUp => none
  | release slot | drop slot => some slot

/-- The admission without the call: what has been put aside for it is free. -/
def settled (d : Desk) : Admission :=
  match d.call with
  | some .served => { d.admission with free := d.admission.free + 1 }
  | some .inLine | none => d.admission

/-- Asks for a token. It is handed out at once, or the call waits. -/
def ask (d : Desk) : Option Nat × Desk :=
  match d.call with
  | some .inLine => (none, d)
  | some .served | none =>
    match d.settled.acquire? with
    | some (slot, admission) => (some slot, { admission })
    | none => (none, { d with call := some .inLine })

/-- A token comes back. If a call waits that has none yet, it is put aside for this call. -/
def takeBack (d : Desk) (slot : Nat) : Desk :=
  let admission := d.admission.release slot
  if d.call = some .inLine ∧ slot ∈ d.admission.held then
    { admission := { admission with free := admission.free - 1 }, call := some .served }
  else { d with admission }

def giveUp (d : Desk) : Desk := { admission := d.settled }

def perform (d : Desk) : Command → Desk
  | .ask => d.ask.2
  | .giveUp => d.giveUp
  | .release slot | .drop slot => d.takeBack slot

/-- The desk after commands that are carried out in turn. -/
def after (d : Desk) (cs : List Command) : Desk := cs.foldl perform d

/-- The token that a command hands out. -/
def given (d : Desk) : Command → List Nat
  | .ask => d.ask.1.toList
  | .giveUp | .release _ | .drop _ => []

/-- All tokens that commands hand out, the first one first. -/
def issued (d : Desk) : List Command → List Nat
  | [] => []
  | c :: cs => d.given c ++ (d.perform c).issued cs

/-- The token has been handed out, and it has neither been released nor been dropped since. -/
def Outstanding (d : Desk) (cs : List Command) (slot : Nat) : Prop :=
  ∃ front back, cs = front ++ .ask :: back ∧ (d.after front).ask.1 = some slot ∧
    ∀ c ∈ back, c.returned? ≠ some slot

variable {d : Desk} {concurrency slot : Nat} {cs : List Command} {c : Command}

theorem after_append_singleton (d : Desk) (cs : List Command) (c : Command) :
    d.after (cs ++ [c]) = (d.after cs).perform c := by
  rw [after, List.foldl_append]
  rfl

theorem issued_append_singleton (d : Desk) (cs : List Command) (c : Command) :
    d.issued (cs ++ [c]) = d.issued cs ++ (d.after cs).given c := by
  induction cs generalizing d with
  | nil => exact List.append_nil _
  | cons c' cs ih =>
    have hcons : d.issued (c' :: cs ++ [c]) = d.given c' ++ (d.perform c').issued (cs ++ [c]) := rfl
    rw [hcons, ih, ← List.append_assoc]
    rfl

/-- A token is outstanding after one more command if it was before and does not come back now, or if
it is handed out now. -/
theorem outstanding_append_singleton : d.Outstanding (cs ++ [c]) slot ↔
    (d.Outstanding cs slot ∧ c.returned? ≠ some slot) ∨
      (c = .ask ∧ (d.after cs).ask.1 = some slot) := by
  constructor
  · rintro ⟨front, back, heq, hgiven, hkept⟩
    rcases List.eq_nil_or_concat back with rfl | ⟨back, last, rfl⟩
    · obtain ⟨rfl, hc⟩ := List.append_inj' heq rfl
      exact .inr ⟨(List.cons.inj hc).1, hgiven⟩
    · rw [List.concat_eq_append] at heq hkept
      rw [← List.cons_append, ← List.append_assoc] at heq
      obtain ⟨rfl, hc⟩ := List.append_inj' heq rfl
      obtain rfl := (List.cons.inj hc).1
      rw [List.forall_mem_append, List.forall_mem_singleton] at hkept
      exact .inl ⟨⟨front, back, rfl, hgiven, hkept.1⟩, hkept.2⟩
  · rintro (⟨⟨front, back, rfl, hgiven, hkept⟩, hc⟩ | ⟨rfl, hgiven⟩)
    · refine ⟨front, back ++ [c], by simp, hgiven, ?_⟩
      rw [List.forall_mem_append, List.forall_mem_singleton]
      exact ⟨hkept, hc⟩
    · exact ⟨cs, [], rfl, hgiven, List.forall_mem_nil _⟩

/-! ## A desk without its call -/

@[simp] theorem held_settled (d : Desk) : d.settled.held = d.admission.held := by
  unfold settled
  split <;> rfl

@[simp] theorem next_settled (d : Desk) : d.settled.next = d.admission.next := by
  unfold settled
  split <;> rfl

@[simp] theorem concurrency_settled (d : Desk) :
    d.settled.concurrency = d.admission.concurrency := by
  unfold settled
  split <;> rfl

theorem free_le_settled (d : Desk) : d.admission.free ≤ d.settled.free := by
  unfold settled
  split
  · exact Nat.le_succ _
  · exact Nat.le_refl _
  · exact Nat.le_refl _

theorem settled_of_no_call (h : d.call = none) : d.settled = d.admission := by
  rw [settled, h]

/-- It makes no difference to the admission whether a call waits for the token that comes back. -/
theorem settled_takeBack (d : Desk) (slot : Nat) :
    (d.takeBack slot).settled = d.settled.release slot := by
  obtain ⟨a, call⟩ := d
  by_cases hheld : slot ∈ a.held
  · rcases call with _ | _ | _
    all_goals simp [takeBack, settled, Admission.release, hheld]
  · rcases call with _ | _ | _
    all_goals simp [takeBack, settled, Admission.release, hheld]

/-- The books of a desk: they balance, and a token that is free is not withheld from a call. -/
structure Stands (concurrency : Nat) (d : Desk) : Prop where
  balanced : d.settled.Balanced
  ceiling : d.settled.concurrency = concurrency
  isOpen : d.settled.isOpen = true
  inLine : d.call = some .inLine → d.admission.free = 0

/-- What comes of asking: the token with the next number, or the call waits because none is free. -/
inductive Asked (d : Desk) : Option Nat × Desk → Prop where
  | given {admission : Admission} (h : d.settled.acquire? = some (d.admission.next, admission)) :
      Asked d (some d.admission.next, { admission })
  | waits (h : d.settled.free = 0) : Asked d (none, { d with call := some .inLine })

/-- Where nothing is free, nothing has been put aside. -/
theorem settled_of_free (h : d.settled.free = 0) : d.settled = d.admission := by
  unfold settled at h ⊢
  split
  · next hcall =>
    rw [hcall] at h
    cases h
  · rfl
  · rfl

theorem asked_of_acquire (hopen : d.settled.isOpen = true) :
    d.Asked (match d.settled.acquire? with
      | some (slot, admission) => (some slot, { admission })
      | none => (none, { d with call := some .inLine })) := by
  cases hacquire : d.settled.acquire? with
  | some result =>
    obtain ⟨slot, admission⟩ := result
    obtain ⟨-, rfl, -⟩ := eq_of_acquire hacquire
    rw [next_settled] at hacquire ⊢
    exact .given hacquire
  | none =>
    refine .waits (Classical.byContradiction fun hfree => ?_)
    rw [Admission.acquire?, if_neg (by simp [hfree, hopen])] at hacquire
    cases hacquire

namespace Stands

theorem asked (h : d.Stands concurrency) : d.Asked d.ask := by
  obtain ⟨admission, call⟩ := d
  rcases call with _ | _ | _
  · exact asked_of_acquire h.isOpen
  · exact .waits (h.inLine rfl)
  · exact asked_of_acquire h.isOpen

theorem balance (h : d.Stands concurrency) :
    d.settled.free + d.admission.held.length = concurrency := by
  have hbalance := h.balanced.balance
  rwa [held_settled, h.ceiling] at hbalance

theorem takeBack (h : d.Stands concurrency) (slot : Nat) :
    (d.takeBack slot).Stands concurrency := by
  refine ⟨?_, ?_, ?_, fun hcall => ?_⟩
  · rw [settled_takeBack]
    exact h.balanced.release slot
  · rw [settled_takeBack, concurrency_release]
    exact h.ceiling
  · rw [settled_takeBack, isOpen_release]
    exact h.isOpen
  · unfold Desk.takeBack at hcall ⊢
    dsimp only at hcall ⊢
    split at hcall
    · cases hcall
    · next hnot =>
      -- The call goes on waiting, so it was no token that came back.
      have hheld : slot ∉ d.admission.held := fun hheld => hnot ⟨hcall, hheld⟩
      rw [if_neg hnot]
      show (d.admission.release slot).free = 0
      rw [release, if_neg hheld]
      exact h.inLine hcall

theorem ask (h : d.Stands concurrency) : d.ask.2.Stands concurrency := by
  have hasked := h.asked
  generalize d.ask = result at hasked ⊢
  cases hasked with
  | given hacquire =>
    obtain ⟨-, -, heq⟩ := eq_of_acquire hacquire
    refine ⟨h.balanced.acquire hacquire, ?_, ?_, nofun⟩
    · rw [heq]
      exact h.ceiling
    · rw [heq]
      exact h.isOpen
  | waits hfree =>
    have hsame := settled_of_free hfree
    exact ⟨hsame ▸ h.balanced, hsame ▸ h.ceiling, hsame ▸ h.isOpen, fun _ => hsame ▸ hfree⟩

/-- A desk stands whatever is done there. -/
theorem perform (h : d.Stands concurrency) (c : Command) : (d.perform c).Stands concurrency := by
  cases c with
  | ask => exact h.ask
  | giveUp => exact ⟨h.balanced, h.ceiling, h.isOpen, nofun⟩
  | release slot => exact h.takeBack slot
  | drop slot => exact h.takeBack slot

/-- A token is handed out at once exactly if fewer of them are outstanding than the ceiling allows.
-/
theorem exists_given_iff (h : d.Stands concurrency) :
    (∃ slot, d.ask.1 = some slot) ↔ d.admission.held.length < concurrency := by
  have hbalance := h.balance
  have hasked := h.asked
  generalize d.ask = result at hasked ⊢
  cases hasked with
  | given hacquire =>
    obtain ⟨hfree, -, -⟩ := eq_of_acquire hacquire
    refine ⟨fun _ => ?_, fun _ => ⟨_, rfl⟩⟩
    omega
  | waits hfree =>
    refine ⟨nofun, fun hless => ?_⟩
    omega

end Stands

/-! ## Calls that come to nothing -/

theorem settled_perform_of_returned (h : c.returned? = some slot) :
    (d.perform c).settled = d.settled.release slot := by
  cases c with
  | ask | giveUp => cases h
  | release slot' | drop slot' =>
    cases h
    exact settled_takeBack d slot

/-- A command that neither hands out a token nor takes one back changes nothing but the call. -/
theorem Stands.settled_perform (h : d.Stands concurrency) (hreturned : c.returned? = none)
    (hgiven : d.given c = []) : (d.perform c).settled = d.settled := by
  cases c with
  | ask =>
    have hnone : d.ask.1 = none := Option.toList_eq_nil_iff.mp hgiven
    show d.ask.2.settled = _
    have hasked := h.asked
    generalize d.ask = result at hasked hnone ⊢
    cases hasked with
    | given => cases hnone
    | waits hfree => exact (settled_of_free hfree).symm
  | giveUp => rfl
  | release slot | drop slot => cases hreturned

/-- As long as no token is handed out, only the tokens that come back make a difference. -/
theorem Stands.settled_after (h : d.Stands concurrency) (hnone : d.issued cs = []) :
    (d.after cs).settled = (cs.filterMap Command.returned?).foldl release d.settled := by
  induction cs generalizing d with
  | nil => rfl
  | cons c cs ih =>
    obtain ⟨hgiven, hrest⟩ := List.append_eq_nil_iff.mp hnone
    have hafter := ih (h.perform c) hrest
    show ((d.perform c).after cs).settled = _
    cases hreturned : c.returned? with
    | none => rw [hafter, List.filterMap_cons_none hreturned, h.settled_perform hreturned hgiven]
    | some slot =>
      rw [hafter, List.filterMap_cons_some hreturned, settled_perform_of_returned hreturned]
      rfl

/-! ## All commands -/

/-- Which tokens are held after a command. -/
theorem Stands.mem_held_perform (h : d.Stands concurrency) :
    slot ∈ (d.perform c).admission.held ↔
      (slot ∈ d.admission.held ∧ c.returned? ≠ some slot) ∨
        (c = .ask ∧ d.ask.1 = some slot) := by
  have hback : ∀ slot', slot ∈ (d.takeBack slot').admission.held ↔
      slot ∈ d.admission.held ∧ some slot' ≠ some slot := by
    intro slot'
    rw [← held_settled, settled_takeBack, h.balanced.mem_held_release, held_settled, and_comm,
      ne_comm]
    simp
  cases c with
  | ask =>
    show slot ∈ d.ask.2.admission.held ↔ _
    have hasked := h.asked
    generalize d.ask = result at hasked ⊢
    cases hasked with
    | given hacquire =>
      obtain ⟨-, -, rfl⟩ := eq_of_acquire hacquire
      simp [Command.returned?, or_comm, eq_comm]
    | waits => simp [Command.returned?]
  | giveUp =>
    show slot ∈ d.settled.held ↔ _
    simp [Command.returned?]
  | release slot' =>
    refine (hback slot').trans ?_
    simp [Command.returned?]
  | drop slot' =>
    refine (hback slot').trans ?_
    simp [Command.returned?]

/-- A token has the number that is next, and the numbers go on from there. -/
theorem Stands.range_perform (h : d.Stands concurrency) (c : Command) :
    List.range (d.perform c).admission.next = List.range d.admission.next ++ d.given c := by
  have hback : ∀ slot, (d.takeBack slot).admission.next = d.admission.next := by
    intro slot
    rw [← next_settled, settled_takeBack, next_release, next_settled]
  cases c with
  | ask =>
    show List.range d.ask.2.admission.next = _ ++ d.ask.1.toList
    have hasked := h.asked
    generalize d.ask = result at hasked ⊢
    cases hasked with
    | given hacquire =>
      obtain ⟨-, -, rfl⟩ := eq_of_acquire hacquire
      rw [next_settled]
      exact List.range_succ
    | waits => exact (List.append_nil _).symm
  | giveUp =>
    show List.range d.settled.next = _
    rw [next_settled]
    exact (List.append_nil _).symm
  | release slot | drop slot =>
    show List.range (d.takeBack slot).admission.next = _
    rw [hback]
    exact (List.append_nil _).symm

/-- What has been done at a desk from its opening on. -/
structure Books (concurrency : Nat) (start : Desk) (cs : List Command) : Prop where
  stands : (start.after cs).Stands concurrency
  issued : start.issued cs = List.range (start.after cs).admission.next
  held : ∀ slot, slot ∈ (start.after cs).admission.held ↔ start.Outstanding cs slot

theorem Books.perform {start : Desk} (h : Books concurrency start cs) (c : Command) :
    Books concurrency start (cs ++ [c]) := by
  refine ⟨?_, ?_, fun slot => ?_⟩
  · rw [after_append_singleton]
    exact h.stands.perform c
  · rw [issued_append_singleton, after_append_singleton, h.stands.range_perform, h.issued]
  · rw [after_append_singleton, h.stands.mem_held_perform, outstanding_append_singleton, h.held]

theorem books {admission : Admission} (h : ofConcurrency? concurrency = some admission)
    (cs : List Command) : Books concurrency { admission } cs := by
  induction cs using List.reverseRecOn with
  | nil =>
    unfold ofConcurrency? at h
    split at h
    · cases h
      refine ⟨⟨⟨rfl, List.nodup_nil, nofun⟩, rfl, rfl, nofun⟩, rfl, fun slot => ⟨nofun, ?_⟩⟩
      rintro ⟨front, back, heq, -⟩
      simp at heq
    · cases h
  | append_singleton cs c ih => exact ih.perform c

end Desk

open Desk in
/-- A ceiling that can be managed can be set up, and then the following holds whatever is asked for,
given up and given back, in any order. A token is handed out at once exactly if fewer than the
ceiling are outstanding. The tokens that have been handed out are numbered from 0 in their order, as
many as are said to be admitted. If no call waits, as many are in use as are outstanding, and what
is subtracted for this is never too much. Calls that have come to nothing and are given up leave the
admission as it would be without them. -/
theorem tokens_accounted {concurrency : Nat} (h : concurrency ≤ maxPermits) :
    ∃ admission, ofConcurrency? concurrency = some admission ∧ ∀ cs : List Desk.Command,
      let start : Desk := { admission }
      let d := start.after cs
      (∃ outstanding : List Nat, outstanding.Nodup ∧
        (∀ slot, slot ∈ outstanding ↔ start.Outstanding cs slot) ∧
        ((∃ slot, d.ask.1 = some slot) ↔ outstanding.length < concurrency) ∧
        (d.call = none → d.admission.inUse = outstanding.length)) ∧
      d.admission.free ≤ d.admission.concurrency ∧
      start.issued cs = List.range d.admission.admitted ∧
      ∀ attempts, d.call = none → d.issued attempts = [] →
        (d.after attempts).giveUp =
          { admission := (attempts.filterMap Command.returned?).foldl release d.admission } := by
  have hset : ofConcurrency? concurrency = some _ := if_pos h
  refine ⟨_, hset, fun cs => ?_⟩
  intro start d
  have hbooks : Books concurrency start cs := books hset cs
  have hstands : d.Stands concurrency := hbooks.stands
  refine ⟨⟨d.admission.held, ?_, hbooks.held, hstands.exists_given_iff, fun hcall => ?_⟩, ?_,
    hbooks.issued, fun attempts hcall hnone => ?_⟩
  · rw [← held_settled]
    exact hstands.balanced.distinct
  · have hbalanced := hstands.balanced
    rw [settled_of_no_call hcall] at hbalanced
    exact hbalanced.inUse_eq
  · have hbalance := hstands.balance
    have hle := d.free_le_settled
    rw [← concurrency_settled, hstands.ceiling]
    omega
  · rw [giveUp, hstands.settled_after hnone, settled_of_no_call hcall]

/-- With a ceiling of one, the second call waits, is served by the first token when this comes back,
and is given up, and a third call gets the second token. -/
theorem tokens_accounted_given_up : ∃ admission, ofConcurrency? 1 = some admission ∧
    let start : Desk := { admission }
    let d := start.after [.ask, .ask, .release 0, .giveUp, .ask]
    d.admission.inUse = 1 ∧ start.issued [.ask, .ask, .release 0, .giveUp, .ask] = [0, 1] ∧
      (start.after [.ask]).after [.ask, .giveUp] = start.after [.ask] := by
  obtain ⟨admission, hset, hall⟩ := @tokens_accounted 1 (by decide)
  obtain rfl : _ = admission := Option.some.inj hset
  obtain ⟨-, -, hissued, -⟩ := hall [.ask, .ask, .release 0, .giveUp, .ask]
  obtain ⟨-, -, -, hnothing⟩ := hall [.ask]
  exact ⟨_, hset, rfl, hissued, hnothing [.ask] rfl rfl⟩

end EchoLoad.Admission
