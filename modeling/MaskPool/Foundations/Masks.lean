import Mathlib.Tactic

/-!
# High-bit masks and saturating iteration

Masking a word with `2 ^ w - 2 ^ k` keeps its quotient by `2 ^ k`, and a function
that moves a measure up by one until it sticks at a top value runs through an
interval of measures. The elements it runs through are different ones exactly as long as
the top is not met twice.
-/

namespace MaskPool

/-- Two words agree under the mask exactly when they have the same high part. -/
theorem and_highMask_inj {w : ℕ} {x y : BitVec w} {k : ℕ} :
    x &&& (BitVec.allOnes w <<< k) = y &&& (BitVec.allOnes w <<< k) ↔
      x.toNat / 2 ^ k = y.toNat / 2 ^ k := by
  have hhigh (z : BitVec w) : ((z >>> k) <<< k).toNat = z.toNat / 2 ^ k * 2 ^ k := by
    rw [BitVec.toNat_shiftLeft, BitVec.toNat_ushiftRight, Nat.shiftRight_eq_div_pow,
      Nat.shiftLeft_eq]
    exact Nat.mod_eq_of_lt ((Nat.div_mul_le_self _ _).trans_lt z.isLt)
  rw [← BitVec.shiftLeft_ushiftRight, ← BitVec.shiftLeft_ushiftRight, ← BitVec.toNat_inj,
    hhigh, hhigh]
  exact Nat.mul_left_inj (Nat.two_pow_pos k).ne'

variable {α : Type*} {f : α → α} {measure : α → ℕ} {top : ℕ}

theorem iterate_saturating (hf : ∀ a, measure (f a) = min (measure a + 1) top) (a : α)
    (ha : measure a ≤ top) (n : ℕ) : measure (f^[n] a) = min (measure a + n) top := by
  induction n with
  | zero => simpa using ha
  | succ n ih =>
    rw [Function.iterate_succ_apply', hf, ih]
    omega

/-- The measures met within `n` rounds form the interval of length `n` from the start,
cut off at the top. -/
theorem exists_iterate_saturating (hf : ∀ a, measure (f a) = min (measure a + 1) top)
    {a : α} (ha : measure a ≤ top) {v n : ℕ} (hv : v ≤ top) :
    (∃ j < n, measure (f^[j] a) = v) ↔ measure a ≤ v ∧ v < measure a + n := by
  constructor
  · intro h
    obtain ⟨j, hj, hvalue⟩ := h
    rw [iterate_saturating hf a ha] at hvalue
    omega
  · intro h
    obtain ⟨hlow, hhigh⟩ := h
    refine ⟨v - measure a, by omega, ?_⟩
    rw [iterate_saturating hf a ha]
    omega

theorem nodup_iterate_saturating_iff (hf : ∀ a, measure (f a) = min (measure a + 1) top)
    (hstuck : ∀ a, measure a = top → f a = a) {a : α} (ha : measure a ≤ top) {n : ℕ} :
    (List.iterate f a n).Nodup ↔ measure a + n ≤ top + 1 := by
  rw [← List.range_map_iterate]
  constructor
  · intro h
    by_contra hlong
    -- the top is met at position `top - measure a` and never left
    have htop : measure (f^[top - measure a] a) = top := by
      rw [iterate_saturating hf a ha]
      omega
    have hagain : f^[top - measure a + 1] a = f^[top - measure a] a := by
      rw [Function.iterate_succ_apply', hstuck _ htop]
    have hindex := List.inj_on_of_nodup_map h (List.mem_range.mpr (by omega))
      (List.mem_range.mpr (by omega)) hagain
    omega
  · intro h
    apply List.Nodup.map_on
    · intro i hi j hj hij
      rw [List.mem_range] at hi hj
      have hmeasure := congrArg measure hij
      rw [iterate_saturating hf a ha, iterate_saturating hf a ha] at hmeasure
      omega
    · exact List.nodup_range

end MaskPool
