import EchoLoad.Admission
import Mathlib.Data.List.Nodup

/-!
# The books of an admission

Tokens that are free and tokens that are held make up the ceiling, no token is held twice, and the
slots of those that are held have been handed out. `Admission.Balanced` says so; handing out a token
and taking one back keep it. What the subtraction in `Admission.inUse` gives is therefore the number
of the tokens that are held (`Balanced.inUse_eq`), and there are never more of them than the ceiling
(`Balanced.length_held_le`).
-/

namespace EchoLoad.Admission

structure Balanced (a : Admission) : Prop where
  balance : a.free + a.held.length = a.concurrency
  distinct : a.held.Nodup
  issued : ∀ slot ∈ a.held, slot < a.next

theorem eq_of_acquire {a a' : Admission} {slot : Nat} (h : a.acquire? = some (slot, a')) :
    0 < a.free ∧ slot = a.next ∧
      a' = { a with free := a.free - 1, held := a.next :: a.held, next := a.next + 1 } := by
  unfold acquire? at h
  split at h
  · cases h
  · next hfree =>
    cases h
    exact ⟨Nat.pos_of_ne_zero fun hzero => hfree (.inl hzero), rfl, rfl⟩

namespace Balanced

variable {a a' : Admission}

theorem inUse_eq (h : a.Balanced) : a.inUse = a.held.length := by
  have hbalance := h.balance
  unfold inUse
  omega

theorem length_held_le (h : a.Balanced) : a.held.length ≤ a.concurrency := by
  have hbalance := h.balance
  omega

/-- If every token that has been handed out is held or is one of some others, then no more have been
handed out than the ceiling allows and those others. -/
theorem next_le (h : a.Balanced) {slots : List Nat}
    (hall : ∀ slot < a.next, slot ∈ a.held ∨ slot ∈ slots) :
    a.next ≤ a.concurrency + slots.length := by
  have hsub : List.range a.next ⊆ a.held ++ slots := fun slot hslot =>
    List.mem_append.mpr (hall slot (List.mem_range.mp hslot))
  have hlength := List.nodup_range.length_le_of_subset hsub
  rw [List.length_range, List.length_append] at hlength
  exact Nat.le_trans hlength (Nat.add_le_add_right h.length_held_le _)

theorem next_notMem (h : a.Balanced) : a.next ∉ a.held :=
  fun hmem => Nat.lt_irrefl _ (h.issued _ hmem)

theorem acquire (h : a.Balanced) {slot : Nat} (ha : a.acquire? = some (slot, a')) :
    a'.Balanced := by
  obtain ⟨hfree, -, rfl⟩ := eq_of_acquire ha
  refine ⟨?_, List.nodup_cons.mpr ⟨h.next_notMem, h.distinct⟩, ?_⟩
  · have hbalance := h.balance
    simp only [List.length_cons]
    omega
  · intro slot' hslot'
    rcases List.mem_cons.mp hslot' with rfl | hslot'
    · exact Nat.lt_succ_self _
    · exact Nat.lt_succ_of_lt (h.issued _ hslot')

theorem release (h : a.Balanced) (slot : Nat) : (a.release slot).Balanced := by
  unfold Admission.release
  split
  · next hmem =>
    have hlength := List.length_erase_of_mem hmem
    have hpos := List.length_pos_of_mem hmem
    have hbalance := h.balance
    refine ⟨?_, h.distinct.erase slot, fun slot' hslot' => h.issued _ (List.mem_of_mem_erase hslot')⟩
    simp only [hlength]
    omega
  · exact h

/-- Taking back a token leaves all others where they are. -/
theorem mem_held_release (h : a.Balanced) {slot slot' : Nat} :
    slot' ∈ (a.release slot).held ↔ slot' ≠ slot ∧ slot' ∈ a.held := by
  unfold Admission.release
  split
  · exact h.distinct.mem_erase_iff
  · next hmem =>
    constructor
    · intro hslot'
      exact ⟨fun heq => hmem (heq ▸ hslot'), hslot'⟩
    · exact fun hslot' => hslot'.2

end Balanced

@[simp] theorem next_release (a : Admission) (slot : Nat) : (a.release slot).next = a.next := by
  unfold release
  split <;> rfl

@[simp] theorem concurrency_release (a : Admission) (slot : Nat) :
    (a.release slot).concurrency = a.concurrency := by
  unfold release
  split <;> rfl

@[simp] theorem isOpen_release (a : Admission) (slot : Nat) :
    (a.release slot).isOpen = a.isOpen := by
  unfold release
  split <;> rfl

end EchoLoad.Admission
