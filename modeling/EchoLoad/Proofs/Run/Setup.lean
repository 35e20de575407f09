import EchoLoad.Proofs.Config
import EchoLoad.Proofs.Run.Made
import EchoLoad.Rehearsal

/-!
# Setting up a run

A run sets up the admission and the channel of reports as large as the configuration says. The check
keeps the ceiling within what an admission can manage, and it keeps empty ranges from the draws; of
the channel it only asks that there is a place at all. So a checked configuration can still ask for
more places than there can be, and then the run panics before it has begun (`setup`).
-/

namespace EchoLoad

theorem Admission.ofConcurrency?_eq_some {n : Nat} (h : n ≤ maxPermits) :
    ofConcurrency? n = some { concurrency := n, free := n, held := [], next := 0 } := if_pos h

theorem Channel.ofCapacity?_eq_some {n : Nat} (hpos : 0 < n) (h : n ≤ Admission.maxPermits) :
    ofCapacity? n = some { capacity := n } := if_pos ⟨hpos, h⟩

theorem Channel.ofCapacity?_eq_none {n : Nat} (h : Admission.maxPermits < n) :
    ofCapacity? n = none := if_neg fun hfits => Nat.not_le_of_lt h hfits.2

/-- A range that is not empty holds what is drawn from it. -/
theorem Amount.draw_of_not_isEmpty {a : Amount} (h : a.isEmpty = false) {min max : Nat}
    (ha : a = .uniform min max) :
    min < max ∧ ∀ random, min ≤ a.draw random ∧ a.draw random < max := by
  subst ha
  have hlt : min < max := by simpa [isEmpty] using h
  exact ⟨hlt, draw_mem hlt⟩

namespace Run

variable {κ : Type} {s : Setting κ}

theorem begin_of_fits (h : s.config.check s.reader = .ok ())
    (hfits : s.config.reportBuffer ≤ Admission.maxPermits) : ∃ r, begin s = .value r := by
  obtain ⟨⟨-, hmax⟩, hpos, -⟩ := Config.check_eq_ok_iff.mp h
  simp only [begin, h, Pool.empty?, Channel.ofCapacity?_eq_some hpos hfits,
    Admission.ofConcurrency?_eq_some hmax]
  exact ⟨_, rfl⟩

theorem begin_of_excess (h : s.config.check s.reader = .ok ())
    (hexcess : Admission.maxPermits < s.config.reportBuffer) : begin s = .panicked := by
  simp only [begin, h, Pool.empty?, Channel.ofCapacity?_eq_none hexcess]
  rfl

/-- A checked configuration has a ceiling that can be managed, at least one place for reports, and
no empty range to draw from. The run begins if the places are not too many, and panics if they
are. -/
theorem setup (s : Setting κ) (h : s.config.check s.reader = .ok ()) :
    let c := s.config
    (0 < c.concurrency ∧ c.concurrency ≤ Admission.maxPermits) ∧ 0 < c.reportBuffer ∧
      (∀ a, a = c.count ∨ a = c.size → ∀ min max, a = .uniform min max →
        min < max ∧ ∀ random, min ≤ a.draw random ∧ a.draw random < max) ∧
      ((∃ r, begin s = .value r) ↔ c.reportBuffer ≤ Admission.maxPermits) ∧
      (begin s = .panicked ↔ Admission.maxPermits < c.reportBuffer) := by
  intro c
  obtain ⟨hconcurrency, hpos, hcount, hsize, -⟩ := Config.check_eq_ok_iff.mp h
  refine ⟨hconcurrency, hpos, ?_, ⟨?_, begin_of_fits h⟩, ⟨?_, begin_of_excess h⟩⟩
  · rintro a (rfl | rfl) min max ha
    · exact Amount.draw_of_not_isEmpty hcount ha
    · exact Amount.draw_of_not_isEmpty hsize ha
  · rintro ⟨r, hr⟩
    refine Nat.le_of_not_lt fun hexcess => ?_
    cases hr.symm.trans (begin_of_excess h hexcess)
  · intro hp
    refine Nat.lt_of_not_le fun hfits => ?_
    obtain ⟨r, hr⟩ := begin_of_fits h hfits
    cases hr.symm.trans hp

/-- A run of the default configuration, but for the number of places for reports. -/
def Setting.withBuffer (n : Nat) : Setting Rehearsal :=
  { config := { reportBuffer := n }
    transport := Rehearsal.transport []
    workload := .constant 1 5
    elapsed := ⟨0, 0⟩ }

theorem check_withBuffer {n : Nat} (hpos : 0 < n) :
    (Setting.withBuffer n).config.check (Setting.withBuffer n).reader = .ok () := by
  have hconcurrency : 0 < 100 ∧ 100 ≤ Admission.maxPermits := by decide
  have hurl : Config.checkUrl Url.parse "ws://localhost:9898/ws" = .ok () := by rfl
  exact Config.check_eq_ok_iff.mpr ⟨hconcurrency, hpos, rfl, rfl, hurl⟩

theorem setup_default : (Setting.withBuffer 10).config.check (Setting.withBuffer 10).reader = .ok () ∧
    ∃ r, begin (Setting.withBuffer 10) = .value r := by
  have hcheck := check_withBuffer (n := 10) (by decide)
  obtain ⟨-, -, -, hbegin, -⟩ := setup (Setting.withBuffer 10) hcheck
  exact ⟨hcheck, hbegin.mpr (by decide)⟩

/-- One place too many is not noticed by the check. -/
theorem setup_excess_buffer :
    let s := Setting.withBuffer (Admission.maxPermits + 1)
    s.config.check s.reader = .ok () ∧ ¬ s.config.reportBuffer ≤ Admission.maxPermits ∧
      begin s = .panicked := by
  intro s
  have hcheck : s.config.check s.reader = .ok () := check_withBuffer (Nat.zero_lt_succ _)
  have hexcess : Admission.maxPermits < s.config.reportBuffer := Nat.lt_succ_self _
  exact ⟨hcheck, Nat.not_le_of_lt hexcess, begin_of_excess hcheck hexcess⟩

end Run

end EchoLoad
