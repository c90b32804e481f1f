import MaskPool.Model.Types

/-!
# Words in network order

An address is compared by the code as the host loads its words, and means a number in
network order. Both hosts agree on which addresses are equal; on a little-endian one the
first byte of a word in memory is its lowest.
-/

namespace MaskPool

theorem append_toNat {v w : ℕ} (high : BitVec v) (low : BitVec w) :
    (high ++ low).toNat = high.toNat * 2 ^ w + low.toNat := by
  rw [BitVec.toNat_append, ← Nat.shiftLeft_add_eq_or_of_lt low.isLt, Nat.shiftLeft_eq]

theorem byteSwap_toNat {w : Word} {b0 b1 b2 b3 : ℕ} (h0 : b0 < 256) (h1 : b1 < 256)
    (h2 : b2 < 256) (h3 : b3 < 256)
    (h : w.toNat = b3 * 2 ^ 24 + b2 * 2 ^ 16 + b1 * 2 ^ 8 + b0) :
    (byteSwap w).toNat = b0 * 2 ^ 24 + b1 * 2 ^ 16 + b2 * 2 ^ 8 + b3 := by
  have hdigit0 : w.toNat / 2 ^ 0 % 2 ^ 8 = b0 := by omega
  have hdigit1 : w.toNat / 2 ^ 8 % 2 ^ 8 = b1 := by omega
  have hdigit2 : w.toNat / 2 ^ 16 % 2 ^ 8 = b2 := by omega
  have hdigit3 : w.toNat / 2 ^ 24 % 2 ^ 8 = b3 := by omega
  simp only [byteSwap, append_toNat, BitVec.extractLsb'_toNat, Nat.shiftRight_eq_div_pow,
    hdigit0, hdigit1, hdigit2, hdigit3]
  omega

theorem exists_bytes (w : Word) : ∃ b0 b1 b2 b3, b0 < 256 ∧ b1 < 256 ∧ b2 < 256 ∧ b3 < 256 ∧
    w.toNat = b3 * 2 ^ 24 + b2 * 2 ^ 16 + b1 * 2 ^ 8 + b0 := by
  have hlt := w.isLt
  refine ⟨w.toNat % 256, w.toNat / 256 % 256, w.toNat / 65536 % 256, w.toNat / 16777216, ?_⟩
  omega

@[simp] theorem byteSwap_byteSwap (w : Word) : byteSwap (byteSwap w) = w := by
  obtain ⟨b0, b1, b2, b3, h0, h1, h2, h3, h⟩ := exists_bytes w
  apply BitVec.eq_of_toNat_eq
  rw [byteSwap_toNat h3 h2 h1 h0 (byteSwap_toNat h0 h1 h2 h3 h), h]

theorem be32ToCpu_little {host : Host} (hlittle : host.order = .little) (w : Word) :
    be32ToCpu host w = byteSwap w := by
  unfold be32ToCpu
  rw [hlittle]

theorem be32ToCpu_inj {host : Host} {x y : Word} :
    be32ToCpu host x = be32ToCpu host y ↔ x = y := by
  have hinvolution (w : Word) : be32ToCpu host (be32ToCpu host w) = w := by
    unfold be32ToCpu
    cases host.order with
    | little => exact byteSwap_byteSwap w
    | big => rfl
  constructor
  · intro h
    rw [← hinvolution x, h, hinvolution]
  · rintro rfl
    rfl

theorem In6Addr.value_inj {host : Host} {a b : In6Addr} :
    a.value host = b.value host ↔ a = b := by
  constructor
  · intro h
    obtain ⟨a0, a1, a2, a3⟩ := a
    obtain ⟨b0, b1, b2, b3⟩ := b
    have ha1 := (be32ToCpu host a1).isLt
    have ha2 := (be32ToCpu host a2).isLt
    have ha3 := (be32ToCpu host a3).isLt
    have hb1 := (be32ToCpu host b1).isLt
    have hb2 := (be32ToCpu host b2).isLt
    have hb3 := (be32ToCpu host b3).isLt
    simp only [In6Addr.value] at h
    have h0 : be32ToCpu host a0 = be32ToCpu host b0 := BitVec.eq_of_toNat_eq (by omega)
    have h1 : be32ToCpu host a1 = be32ToCpu host b1 := BitVec.eq_of_toNat_eq (by omega)
    have h2 : be32ToCpu host a2 = be32ToCpu host b2 := BitVec.eq_of_toNat_eq (by omega)
    have h3 : be32ToCpu host a3 = be32ToCpu host b3 := BitVec.eq_of_toNat_eq (by omega)
    simp only [be32ToCpu_inj] at h0 h1 h2 h3
    rw [h0, h1, h2, h3]
  · rintro rfl
    rfl

/-- The first byte in memory is the lowest of the loaded word. -/
theorem byteSwap_div (w : Word) : (byteSwap w).toNat / 2 ^ 24 = w.toNat % 256 := by
  obtain ⟨b0, b1, b2, b3, h0, h1, h2, h3, h⟩ := exists_bytes w
  have hswap := byteSwap_toNat h0 h1 h2 h3 h
  have hfirst : (byteSwap w).toNat / 2 ^ 24 = b0 := by omega
  have hlowest : w.toNat % 256 = b0 := by omega
  rw [hfirst, hlowest]

/-- The last byte in memory is the highest. -/
theorem byteSwap_mod (w : Word) : (byteSwap w).toNat % 256 = w.toNat / 2 ^ 24 := by
  obtain ⟨b0, b1, b2, b3, h0, h1, h2, h3, h⟩ := exists_bytes w
  have hswap := byteSwap_toNat h0 h1 h2 h3 h
  have hlast : (byteSwap w).toNat % 256 = b3 := by omega
  have hhighest : w.toNat / 2 ^ 24 = b3 := by omega
  rw [hlast, hhighest]

theorem byteSwap_not (w : Word) : byteSwap (~~~w) = ~~~byteSwap w := by
  obtain ⟨b0, b1, b2, b3, h0, h1, h2, h3, h⟩ := exists_bytes w
  have hnot : (~~~w).toNat =
      (255 - b3) * 2 ^ 24 + (255 - b2) * 2 ^ 16 + (255 - b1) * 2 ^ 8 + (255 - b0) := by
    rw [BitVec.toNat_not]
    omega
  have hswap := byteSwap_toNat h0 h1 h2 h3 h
  apply BitVec.eq_of_toNat_eq
  rw [byteSwap_toNat (by omega) (by omega) (by omega) (by omega) hnot, BitVec.toNat_not]
  omega

theorem be32ToCpu_not (host : Host) (w : Word) :
    be32ToCpu host (~~~w) = ~~~be32ToCpu host w := by
  unfold be32ToCpu
  cases host.order with
  | little => exact byteSwap_not w
  | big => rfl

theorem be32ToCpu_ones (host : Host) : be32ToCpu host 0xffffffff = 0xffffffff := by
  unfold be32ToCpu
  cases host.order <;> decide

theorem be32ToCpu_zero (host : Host) : be32ToCpu host 0 = 0 := by
  unfold be32ToCpu
  cases host.order <;> decide

/-- The number, split before its last word. -/
def In6Addr.upper (host : Host) (a : In6Addr) : ℕ :=
  (be32ToCpu host a.word0).toNat * 2 ^ 64 + (be32ToCpu host a.word1).toNat * 2 ^ 32 +
    (be32ToCpu host a.word2).toNat

theorem In6Addr.value_eq (host : Host) (a : In6Addr) :
    a.value host = 2 ^ 32 * a.upper host + (be32ToCpu host a.word3).toNat := by
  rw [In6Addr.value, In6Addr.upper]
  omega

theorem In6Addr.value_lt {host : Host} (a : In6Addr) : a.value host < 2 ^ 128 := by
  have h0 := (be32ToCpu host a.word0).isLt
  have h1 := (be32ToCpu host a.word1).isLt
  have h2 := (be32ToCpu host a.word2).isLt
  have h3 := (be32ToCpu host a.word3).isLt
  rw [In6Addr.value]
  omega

/-- Up to 32 low bits concern the last word alone. -/
theorem In6Addr.value_div {host : Host} (a : In6Addr) {k : ℕ} (hk : k ≤ 32) :
    a.value host / 2 ^ k =
      2 ^ (32 - k) * a.upper host + (be32ToCpu host a.word3).toNat / 2 ^ k := by
  have hsplit : 2 ^ 32 = 2 ^ k * 2 ^ (32 - k) := by
    rw [← Nat.pow_add, Nat.add_sub_cancel' hk]
  rw [In6Addr.value_eq, hsplit, Nat.mul_assoc, Nat.mul_add_div (Nat.two_pow_pos k)]

theorem In6Addr.value_mod {host : Host} (a : In6Addr) {k : ℕ} (hk : k ≤ 32) :
    a.value host % 2 ^ k = (be32ToCpu host a.word3).toNat % 2 ^ k := by
  have hsplit : 2 ^ 32 = 2 ^ k * 2 ^ (32 - k) := by
    rw [← Nat.pow_add, Nat.add_sub_cancel' hk]
  rw [In6Addr.value_eq, hsplit, Nat.mul_assoc, Nat.mul_add_mod]

/-- From 32 low bits on the last word does not matter. -/
theorem In6Addr.value_div_upper {host : Host} (a : In6Addr) {k : ℕ} (hk : 32 ≤ k) :
    a.value host / 2 ^ k = a.upper host / 2 ^ (k - 32) := by
  have hlast := (be32ToCpu host a.word3).isLt
  have hupper : a.value host / 2 ^ 32 = a.upper host := by
    rw [In6Addr.value_eq]
    omega
  rw [← hupper, Nat.div_div_eq_div_mul, ← Nat.pow_add, Nat.add_sub_cancel' hk]

theorem In6Addr.value_div_first {host : Host} (a : In6Addr) :
    a.value host / 2 ^ 96 = (be32ToCpu host a.word0).toNat := by
  have h1 := (be32ToCpu host a.word1).isLt
  have h2 := (be32ToCpu host a.word2).isLt
  rw [In6Addr.value_div_upper a (by omega), In6Addr.upper]
  omega

end MaskPool
