import MaskPool.Clients.Addresses
import MaskPool.Clients.NetworkOrder

/-!
# Counting in swapped words

Swapping the bytes of a word changes it by a multiple of how far its outer bytes are
apart, plus one of how far its inner bytes are. Two numbers of three words therefore
have the same difference before and after the swap only if each of their words keeps
both distances, and consecutive numbers never do.
-/

namespace MaskPool

def byteAt (n i : ℕ) : ℕ := n / 256 ^ i % 256

/-- In the lowest word of two numbers the outer bytes are equally far apart, and so are
the inner ones. -/
def SameSkew (n m : ℕ) : Prop :=
  byteAt n 0 + byteAt m 3 = byteAt m 0 + byteAt n 3 ∧
    byteAt n 1 + byteAt m 2 = byteAt m 1 + byteAt n 2

instance (n m : ℕ) : Decidable (SameSkew n m) := inferInstanceAs (Decidable (_ ∧ _))

def SameSkews (n m : ℕ) : Prop :=
  ∀ i < 3, SameSkew (n / 2 ^ (32 * i)) (m / 2 ^ (32 * i))

instance (n m : ℕ) : Decidable (SameSkews n m) := inferInstanceAs (Decidable (∀ _ < _, _))

theorem byteAt_mod (n : ℕ) {i : ℕ} (hi : i < 4) : byteAt (n % 2 ^ 32) i = byteAt n i := by
  have hsplit : 2 ^ 32 = 256 ^ i * 256 ^ (4 - i) := by
    rw [← Nat.pow_add, Nat.add_sub_cancel' hi.le]
    rfl
  have hdvd : 256 ∣ 256 ^ (4 - i) := dvd_pow_self 256 (by omega)
  rw [byteAt, byteAt, hsplit, Nat.mod_mul_right_div_self, Nat.mod_mod_of_dvd _ hdvd]

theorem sameSkew_mod {n m : ℕ} : SameSkew (n % 2 ^ 32) (m % 2 ^ 32) ↔ SameSkew n m := by
  simp (disch := omega) only [SameSkew, byteAt_mod]

def swapGain (w : Word) : ℤ := ((byteSwap w).toNat : ℤ) - w.toNat

theorem swapGain_eq (w : Word) :
    swapGain w = ((byteAt w.toNat 0 : ℤ) - byteAt w.toNat 3) * (2 ^ 24 - 1) +
      ((byteAt w.toNat 1 : ℤ) - byteAt w.toNat 2) * (2 ^ 16 - 2 ^ 8) := by
  obtain ⟨b0, b1, b2, b3, h0, h1, h2, h3, h⟩ := exists_bytes w
  have hbyte0 : byteAt w.toNat 0 = b0 := by
    rw [byteAt]
    omega
  have hbyte1 : byteAt w.toNat 1 = b1 := by
    rw [byteAt]
    omega
  have hbyte2 : byteAt w.toNat 2 = b2 := by
    rw [byteAt]
    omega
  have hbyte3 : byteAt w.toNat 3 = b3 := by
    rw [byteAt]
    omega
  rw [swapGain, byteSwap_toNat h0 h1 h2 h3 h, hbyte0, hbyte1, hbyte2, hbyte3, h]
  push_cast
  ring

theorem swapGain_congr {x y : Word} (h : SameSkew x.toNat y.toNat) :
    swapGain x = swapGain y := by
  obtain ⟨houter, hinner⟩ := h
  have houter' : (byteAt x.toNat 0 : ℤ) - byteAt x.toNat 3 =
      byteAt y.toNat 0 - byteAt y.toNat 3 := by omega
  have hinner' : (byteAt x.toNat 1 : ℤ) - byteAt x.toNat 2 =
      byteAt y.toNat 1 - byteAt y.toNat 2 := by omega
  rw [swapGain_eq, swapGain_eq, houter', hinner']

/-- Multiples of the two weights are congruent modulo the word only if they are equal. -/
theorem weights_independent {a b : ℤ} (ha : -510 ≤ a ∧ a ≤ 510) (hb : -510 ≤ b ∧ b ≤ 510)
    (h : (2 ^ 32 : ℤ) ∣ a * (2 ^ 24 - 1) + b * (2 ^ 16 - 2 ^ 8)) : a = 0 ∧ b = 0 := by
  obtain ⟨c, hc⟩ := h
  -- the lowest byte leaves three values for the first factor
  obtain rfl | rfl | rfl : a = -256 ∨ a = 0 ∨ a = 256 := by omega
  · omega
  · omega
  · omega

theorem sameSkew_of_dvd {x y : Word} (h : (2 ^ 32 : ℤ) ∣ swapGain x - swapGain y) :
    SameSkew x.toNat y.toNat := by
  have hbyte (n i : ℕ) : byteAt n i < 256 := Nat.mod_lt _ (by decide)
  have hx0 := hbyte x.toNat 0
  have hx1 := hbyte x.toNat 1
  have hx2 := hbyte x.toNat 2
  have hx3 := hbyte x.toNat 3
  have hy0 := hbyte y.toNat 0
  have hy1 := hbyte y.toNat 1
  have hy2 := hbyte y.toNat 2
  have hy3 := hbyte y.toNat 3
  have hsplit : swapGain x - swapGain y =
      (((byteAt x.toNat 0 : ℤ) - byteAt x.toNat 3) -
        (byteAt y.toNat 0 - byteAt y.toNat 3)) * (2 ^ 24 - 1) +
      (((byteAt x.toNat 1 : ℤ) - byteAt x.toNat 2) -
        (byteAt y.toNat 1 - byteAt y.toNat 2)) * (2 ^ 16 - 2 ^ 8) := by
    rw [swapGain_eq, swapGain_eq]
    ring
  rw [hsplit] at h
  obtain ⟨houter, hinner⟩ := weights_independent (by omega) (by omega) h
  constructor
  · omega
  · omega

/-- Counting up keeps the distances only where all four bytes roll over. -/
theorem mod_eq_of_sameSkew_succ {n : ℕ} (h : SameSkew n (n + 1)) :
    n % 2 ^ 32 = 2 ^ 32 - 1 := by
  have houter := h.1
  simp only [byteAt] at houter
  omega

theorem In6Addr.low_words (a : In6Addr) :
    a.low / 2 ^ (32 * 0) % 2 ^ 32 = a.word3.toNat ∧
      a.low / 2 ^ (32 * 1) % 2 ^ 32 = a.word2.toNat ∧
        a.low / 2 ^ (32 * 2) % 2 ^ 32 = a.word1.toNat := by
  have h1 := a.word1.isLt
  have h2 := a.word2.isLt
  have h3 := a.word3.isLt
  rw [In6Addr.low]
  omega

theorem sameSkews_low {a b : In6Addr} :
    SameSkews a.low b.low ↔ SameSkew a.word3.toNat b.word3.toNat ∧
      SameSkew a.word2.toNat b.word2.toNat ∧ SameSkew a.word1.toNat b.word1.toNat := by
  obtain ⟨ha3, ha2, ha1⟩ := a.low_words
  obtain ⟨hb3, hb2, hb1⟩ := b.low_words
  rw [← ha3, ← ha2, ← ha1, ← hb3, ← hb2, ← hb1, sameSkew_mod, sameSkew_mod, sameSkew_mod]
  constructor
  · intro h
    exact ⟨h 0 (by omega), h 1 (by omega), h 2 (by omega)⟩
  · intro h i hi
    obtain ⟨h3, h2, h1⟩ := h
    interval_cases i
    · exact h3
    · exact h2
    · exact h1

/-- The last three words as one number in network order. -/
def In6Addr.wireLow (host : Host) (a : In6Addr) : ℕ :=
  (be32ToCpu host a.word1).toNat * 2 ^ 64 + (be32ToCpu host a.word2).toNat * 2 ^ 32 +
    (be32ToCpu host a.word3).toNat

theorem In6Addr.value_wireLow (host : Host) (a : In6Addr) :
    a.value host = (be32ToCpu host a.word0).toNat * 2 ^ 96 + a.wireLow host := by
  rw [In6Addr.value, In6Addr.wireLow]
  omega

theorem In6Addr.wireLow_lt (host : Host) (a : In6Addr) : a.wireLow host < 2 ^ 96 := by
  have h1 := (be32ToCpu host a.word1).isLt
  have h2 := (be32ToCpu host a.word2).isLt
  have h3 := (be32ToCpu host a.word3).isLt
  rw [In6Addr.wireLow]
  omega

variable {host : Host}

theorem In6Addr.wireLow_big (hbig : host.order = .big) (a : In6Addr) :
    a.wireLow host = a.low := by
  simp only [In6Addr.wireLow, In6Addr.low, be32ToCpu, hbig]

theorem In6Addr.wireLow_little (hlittle : host.order = .little) (a : In6Addr) :
    (a.wireLow host : ℤ) = a.low + swapGain a.word1 * 2 ^ 64 + swapGain a.word2 * 2 ^ 32 +
      swapGain a.word3 := by
  simp only [In6Addr.wireLow, In6Addr.low, be32ToCpu_little hlittle, swapGain]
  push_cast
  ring

/-- On a little-endian host two addresses are as far apart on the wire as when loaded
exactly if every word keeps its distances. -/
theorem wireLow_sub_iff (hlittle : host.order = .little) {a b : In6Addr} :
    b.wireLow host + a.low = a.wireLow host + b.low ↔ SameSkews a.low b.low := by
  have ha := a.wireLow_little hlittle
  have hb := b.wireLow_little hlittle
  rw [sameSkews_low]
  constructor
  · intro h
    -- from the last word up, a word that keeps its distances drops out of the sum
    have h3 : SameSkew a.word3.toNat b.word3.toNat := sameSkew_of_dvd (by omega)
    have hgain3 := swapGain_congr h3
    have h2 : SameSkew a.word2.toNat b.word2.toNat := sameSkew_of_dvd (by omega)
    have hgain2 := swapGain_congr h2
    have h1 : SameSkew a.word1.toNat b.word1.toNat := sameSkew_of_dvd (by omega)
    exact ⟨h3, h2, h1⟩
  · intro h
    obtain ⟨h3, h2, h1⟩ := h
    have hgain3 := swapGain_congr h3
    have hgain2 := swapGain_congr h2
    have hgain1 := swapGain_congr h1
    omega

theorem not_sameSkews_succ {n : ℕ} (hn : n + 1 < 2 ^ 96) : ¬SameSkews n (n + 1) := by
  intro h
  have h0 : n % 2 ^ 32 = 2 ^ 32 - 1 := by
    have hskew := h 0 (by omega)
    rw [Nat.mul_zero, Nat.pow_zero, Nat.div_one, Nat.div_one] at hskew
    exact mod_eq_of_sameSkew_succ hskew
  have h1 : n / 2 ^ 32 % 2 ^ 32 = 2 ^ 32 - 1 := by
    have hskew := h 1 (by omega)
    rw [Nat.mul_one, show (n + 1) / 2 ^ 32 = n / 2 ^ 32 + 1 by omega] at hskew
    exact mod_eq_of_sameSkew_succ hskew
  have h2 : n / 2 ^ 64 % 2 ^ 32 = 2 ^ 32 - 1 := by
    have hskew := h 2 (by omega)
    rw [show 32 * 2 = 64 by rfl, show (n + 1) / 2 ^ 64 = n / 2 ^ 64 + 1 by omega] at hskew
    exact mod_eq_of_sameSkew_succ hskew
  omega

end MaskPool
