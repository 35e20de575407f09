/-!
# Bytes

Byte strings are lists of `UInt8`. `BigEndian` reads and writes numbers with the most significant
byte first: `BigEndian.toNat_ofNat` says that a number written into enough bytes is read back,
`BigEndian.ofNat_toNat` that bytes are written again as they were, and `BigEndian.length_ofNat` how
many bytes are written.
-/

namespace EchoLoad

abbrev Bytes := List UInt8

namespace BigEndian

/-- The number that `bs` writes, most significant byte first. -/
def toNat (bs : Bytes) : Nat := bs.foldl (fun n b => n * 256 + b.toNat) 0

/-- The last `width` digits of `n` in base 256, most significant first. -/
def ofNat : (width : Nat) → Nat → Bytes
  | 0, _ => []
  | w + 1, n => ofNat w (n / 256) ++ [UInt8.ofNat (n % 256)]

/-- The first number that does not fit into `width` bytes. -/
def limit : (width : Nat) → Nat
  | 0 => 1
  | w + 1 => 256 * limit w

@[simp] theorem length_ofNat (w n : Nat) : (ofNat w n).length = w := by
  induction w generalizing n with
  | zero => rfl
  | succ w ih => simp [ofNat, ih]

theorem toNat_append_singleton (bs : Bytes) (b : UInt8) :
    toNat (bs ++ [b]) = toNat bs * 256 + b.toNat := by
  simp [toNat]

theorem toNat_ofNat (w n : Nat) : toNat (ofNat w n) = n % limit w := by
  induction w generalizing n with
  | zero => simp [ofNat, toNat, limit, Nat.mod_one]
  | succ w ih =>
    rw [ofNat, toNat_append_singleton, ih, limit, Nat.mod_mul]
    simp
    omega

/-- Writing a number in as many bytes as it was read from gives these bytes. -/
theorem ofNat_toNat {w : Nat} {bs : Bytes} (h : bs.length = w) : ofNat w (toNat bs) = bs := by
  induction w generalizing bs with
  | zero => rw [List.eq_nil_of_length_eq_zero h, ofNat]
  | succ w ih =>
    have hne : bs ≠ [] := List.ne_nil_of_length_eq_add_one h
    have hfront : bs.dropLast.length = w := by rw [List.length_dropLast, h, Nat.add_sub_cancel]
    have hlast := (bs.getLast hne).toNat_lt
    have hdiv : (toNat bs.dropLast * 256 + (bs.getLast hne).toNat) / 256 = toNat bs.dropLast := by
      omega
    have hmod : (toNat bs.dropLast * 256 + (bs.getLast hne).toNat) % 256 =
        (bs.getLast hne).toNat := by omega
    have hread : toNat bs = toNat bs.dropLast * 256 + (bs.getLast hne).toNat := by
      rw [← toNat_append_singleton, List.dropLast_concat_getLast hne]
    rw [ofNat, hread, hdiv, hmod, ih hfront, UInt8.ofNat_toNat, List.dropLast_concat_getLast hne]

theorem toNat_lt (bs : Bytes) : toNat bs < limit bs.length := by
  suffices h : ∀ n, bs.foldl (fun n b => n * 256 + b.toNat) n < (n + 1) * limit bs.length by
    simpa [toNat] using h 0
  induction bs with
  | nil => simp [limit]
  | cons b bs ih =>
    intro n
    have hb := b.toNat_lt
    refine Nat.lt_of_lt_of_le (ih _) ?_
    rw [List.length_cons, limit, ← Nat.mul_assoc]
    exact Nat.mul_le_mul_right _ (by dsimp only; omega)

end BigEndian

end EchoLoad
