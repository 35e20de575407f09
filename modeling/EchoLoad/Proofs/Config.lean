import EchoLoad.Config

/-!
# What a checked configuration is like

`Config.check` gives the first defect, and `Config.check_eq_ok_iff` says what it means that there is
none, whatever the URL is read with. Every part of this is about one field, so what follows from it
follows from the whole.
-/

namespace EchoLoad.Config

theorem checkAmount_eq_ok_iff {a : Amount} {defect : Nat → Nat → Defect} :
    checkAmount a defect = .ok () ↔ a.isEmpty = false := by
  cases a with
  | fixed n => simp [checkAmount, Amount.isEmpty]
  | uniform min max => simp [checkAmount, Amount.isEmpty]

theorem checkUrl_eq_ok_iff {read : Url.Reader} {url : String} :
    checkUrl read url = .ok () ↔
      ∃ u, read url = .ok u ∧ u.scheme = "ws" ∧ u.hostText?.isSome := by
  unfold checkUrl
  cases read url with
  | error e => simp
  | ok u =>
    by_cases hscheme : u.scheme = "ws"
    · cases hhost : u.hostText? <;> simp [hscheme, hhost]
    · simp [hscheme]

section Chain

variable {p : Prop} [Decidable p] {d : Defect} {x y : Except Defect Unit}

theorem guard_eq_ok_iff :
    (if p then (Except.error d : Except Defect Unit).bind fun _ => y else x) = .ok () ↔
      ¬ p ∧ x = .ok () := by
  split
  · next hp => exact ⟨nofun, fun h => absurd hp h.1⟩
  · next hp => exact ⟨fun h => ⟨hp, h⟩, fun h => h.2⟩

theorem bind_eq_ok_iff : (x.bind fun _ => y) = .ok () ↔ x = .ok () ∧ y = .ok () := by
  cases x with
  | error e => exact ⟨nofun, nofun⟩
  | ok u => exact ⟨fun h => ⟨rfl, h⟩, fun h => h.2⟩

end Chain

theorem check_eq_ok_iff {c : Config} {read : Url.Reader} :
    c.check read = .ok () ↔ (0 < c.concurrency ∧ c.concurrency ≤ Admission.maxPermits) ∧
      0 < c.reportBuffer ∧ c.count.isEmpty = false ∧ c.size.isEmpty = false ∧
      checkUrl read c.url = .ok () := by
  have hurl : (checkUrl read c.url).mapError Defect.url = .ok () ↔ checkUrl read c.url = .ok () := by
    cases checkUrl read c.url with
    | error e => exact ⟨nofun, nofun⟩
    | ok u => exact ⟨fun _ => rfl, fun _ => rfl⟩
  simp only [check, bind, throw, throwThe, MonadExceptOf.throw, guard_eq_ok_iff, bind_eq_ok_iff,
    checkAmount_eq_ok_iff, hurl, and_assoc, Nat.pos_iff_ne_zero, Nat.not_lt, gt_iff_lt, ne_eq]

end EchoLoad.Config
