import MaskPool.Foundations.Masks
import MaskPool.Model.Client

/-!
# What the two address tests of `client.c` accept

Both tests are read off in the words the host loads. `addr6_iterations` counts the low
three words up as one 96-bit number and sticks when they are all ones, so an entry of
length 97 or more enumerates an interval of that number under a fixed first word.
`prefix_contains` drops the low `128 - len` bits of every one of the four words.
-/

namespace MaskPool

@[simp] theorem ipv6AddrEqual_iff {a1 a2 : In6Addr} :
    ipv6AddrEqual a1 a2 = true ↔ a1 = a2 := by
  obtain ⟨_, _, _, _⟩ := a1
  obtain ⟨_, _, _, _⟩ := a2
  simp only [ipv6AddrEqual, beq_iff_eq, BitVec.ofNat_eq_ofNat, BitVec.or_eq_zero_iff,
    BitVec.xor_eq_zero_iff, In6Addr.mk.injEq, and_assoc]

theorem append_inj {high low high' low' : Word} (h : high ++ low = high' ++ low') :
    high = high' ∧ low = low' := by
  have hlow := congrArg (BitVec.setWidth 32) h
  rw [BitVec.setWidth_append, BitVec.setWidth_append, dif_pos (Nat.le_refl 32),
    dif_pos (Nat.le_refl 32), BitVec.setWidth_eq, BitVec.setWidth_eq] at hlow
  subst hlow
  exact ⟨(BitVec.append_left_inj low).mp h, rfl⟩

theorem loadLong_inj {host : Host} {low high low' high' : Word} :
    loadLong host low high = loadLong host low' high' ↔ low = low' ∧ high = high' := by
  constructor
  · intro h
    unfold loadLong at h
    cases horder : host.order with
    | little =>
      rw [horder] at h
      exact (append_inj h).symm
    | big =>
      rw [horder] at h
      exact append_inj h
  · rintro ⟨rfl, rfl⟩
    rfl

theorem ipv6AddrEqual64_eq (host : Host) (a1 a2 : In6Addr) :
    ipv6AddrEqual64 host a1 a2 = ipv6AddrEqual a1 a2 := by
  rw [Bool.eq_iff_iff, ipv6AddrEqual_iff, ipv6AddrEqual64, beq_iff_eq, BitVec.ofNat_eq_ofNat,
    BitVec.or_eq_zero_iff, BitVec.xor_eq_zero_iff, BitVec.xor_eq_zero_iff, loadLong_inj,
    loadLong_inj]
  obtain ⟨_, _, _, _⟩ := a1
  obtain ⟨_, _, _, _⟩ := a2
  simp only [In6Addr.mk.injEq, and_assoc]

@[simp] theorem prefix6Equals_iff {expected actual : Ipv6Prefix} :
    prefix6Equals expected actual = true ↔ expected = actual := by
  obtain ⟨a1, l1⟩ := expected
  obtain ⟨a2, l2⟩ := actual
  by_cases ha : a1 = a2 <;> by_cases hl : l1 = l2 <;> simp [prefix6Equals, ha, hl]

@[simp] theorem maxIpv6_eq (host : Host) : maxIpv6 host = 0xffffffff := cpuToBe32_ones host

def LengthsWithin (lo hi : ℕ) (client : Client) : Prop :=
  ∀ listed ∈ client, lo ≤ listed.len.toNat ∧ listed.len.toNat ≤ hi

instance (lo hi : ℕ) (client : Client) : Decidable (LengthsWithin lo hi client) :=
  inferInstanceAs (Decidable (∀ _ ∈ _, _))

/-- The last three words as one number, each word as the host loads it. -/
def In6Addr.low (a : In6Addr) : ℕ :=
  a.word1.toNat * 2 ^ 64 + a.word2.toNat * 2 ^ 32 + a.word3.toNat

theorem In6Addr.low_le (a : In6Addr) : a.low ≤ 2 ^ 96 - 1 := by
  have h1 := a.word1.isLt
  have h2 := a.word2.isLt
  have h3 := a.word3.isLt
  rw [In6Addr.low]
  omega

theorem In6Addr.eq_iff {a b : In6Addr} : a = b ↔ a.word0 = b.word0 ∧ a.low = b.low := by
  constructor
  · rintro rfl
    exact ⟨rfl, rfl⟩
  · intro h
    obtain ⟨h0, hlow⟩ := h
    obtain ⟨a0, a1, a2, a3⟩ := a
    obtain ⟨b0, b1, b2, b3⟩ := b
    have ha2 := a2.isLt
    have ha3 := a3.isLt
    have hb2 := b2.isLt
    have hb3 := b3.isLt
    simp only [In6Addr.low] at hlow h0
    have h1 : a1 = b1 := BitVec.eq_of_toNat_eq (by omega)
    have h2 : a2 = b2 := BitVec.eq_of_toNat_eq (by omega)
    have h3 : a3 = b3 := BitVec.eq_of_toNat_eq (by omega)
    rw [h0, h1, h2, h3]

@[simp] theorem addr6Iterations_word0 (host : Host) (a : In6Addr) :
    (addr6Iterations host a).word0 = a.word0 := by
  unfold addr6Iterations
  split_ifs <;> rfl

theorem toNat_add_one {w : Word} (h : ¬w = 0xffffffff) :
    (w + 1).toNat = w.toNat + 1 ∧ w.toNat < 2 ^ 32 - 1 := by
  have hlt := w.isLt
  have hne : w.toNat ≠ 2 ^ 32 - 1 := fun heq => h (BitVec.eq_of_toNat_eq heq)
  have hone : (1 : Word).toNat = 1 := rfl
  rw [BitVec.toNat_add, hone]
  omega

/-- One increment, with all its carries; the all-ones value is a fixed point. -/
theorem addr6Iterations_low (host : Host) (a : In6Addr) :
    (addr6Iterations host a).low = min (a.low + 1) (2 ^ 96 - 1) := by
  have hones : (0xffffffff : Word).toNat = 2 ^ 32 - 1 := rfl
  have hzero : (0 : Word).toNat = 0 := rfl
  have h1 := a.word1.isLt
  have h2 := a.word2.isLt
  have h3 := a.word3.isLt
  unfold addr6Iterations
  simp only [maxIpv6_eq, cpuToBe32_zero]
  by_cases hw3 : a.word3 = 0xffffffff
  · by_cases hw2 : a.word2 = 0xffffffff
    · by_cases hw1 : a.word1 = 0xffffffff
      · simp only [hw1, hw2, hw3, not_true_eq_false, if_false, In6Addr.low, hones]
        omega
      · have hnext := toNat_add_one hw1
        simp only [hw1, hw2, hw3, not_true_eq_false, not_false_eq_true, if_false, if_true,
          In6Addr.low, hones, hzero]
        omega
    · have hnext := toNat_add_one hw2
      simp only [hw2, hw3, not_true_eq_false, not_false_eq_true, if_false, if_true,
        In6Addr.low, hones, hzero]
      omega
  · have hnext := toNat_add_one hw3
    simp only [hw3, not_false_eq_true, if_true, In6Addr.low]
    omega

theorem iterate_addr6Iterations_word0 (host : Host) (a : In6Addr) (j : ℕ) :
    ((addr6Iterations host)^[j] a).word0 = a.word0 := by
  induction j with
  | zero => rfl
  | succ j ih => rw [Function.iterate_succ_apply', addr6Iterations_word0, ih]

theorem addrExistFrom_iff {host : Host} {addr : In6Addr} {rounds : ℕ} {dummy : In6Addr} :
    addrExistFrom host addr rounds dummy = true ↔
      ∃ j < rounds, (addr6Iterations host)^[j] dummy = addr := by
  induction rounds generalizing dummy with
  | zero => simp [addrExistFrom]
  | succ rounds ih =>
    have hwords : (addr.word0 = dummy.word0 ∧ addr.word1 = dummy.word1 ∧
        addr.word2 = dummy.word2 ∧ addr.word3 = dummy.word3) ↔ dummy = addr := by
      obtain ⟨_, _, _, _⟩ := addr
      obtain ⟨_, _, _, _⟩ := dummy
      simp only [In6Addr.mk.injEq, eq_comm]
    simp only [addrExistFrom, hwords]
    rw [Nat.exists_lt_succ_left]
    by_cases h : dummy = addr
    · simp [h]
    · simp [h, ih]

/-- The addresses `client_addr_exist` walks through for one entry. -/
def Enumerates (host : Host) (listed : Ipv6Prefix) (addr : In6Addr) : Prop :=
  addrExistFrom host addr (getAddr6Count host listed).toNat listed.address = true

instance (host : Host) (listed : Ipv6Prefix) (addr : In6Addr) :
    Decidable (Enumerates host listed addr) := inferInstanceAs (Decidable (_ = true))

theorem enumerates_iff {host : Host} {listed : Ipv6Prefix} {addr : In6Addr} :
    Enumerates host listed addr ↔
      addr.word0 = listed.address.word0 ∧ listed.address.low ≤ addr.low ∧
        addr.low < listed.address.low + (getAddr6Count host listed).toNat := by
  rw [Enumerates, addrExistFrom_iff]
  simp only [In6Addr.eq_iff, iterate_addr6Iterations_word0]
  rw [← exists_iterate_saturating (addr6Iterations_low host) listed.address.low_le addr.low_le]
  constructor
  · intro h
    obtain ⟨j, hj, h0, hlow⟩ := h
    exact ⟨h0.symm, j, hj, hlow⟩
  · intro h
    obtain ⟨h0, j, hj, hlow⟩ := h
    exact ⟨j, hj, h0.symm, hlow⟩

theorem clientAddrExist_iff {host : Host} {client : Client} {addr : In6Addr} :
    clientAddrExist host client addr = true ↔
      ∃ listed ∈ client, Enumerates host listed addr := by
  simp only [clientAddrExist, List.any_eq_true, Enumerates]

/-- Below 32 host bits the shift of `get_addr6_count` is the true power of two. -/
theorem getAddr6Count_toNat {host : Host} {listed : Ipv6Prefix}
    (hlong : 97 ≤ listed.len.toNat) (hlen : listed.len.toNat ≤ 128) :
    (getAddr6Count host listed).toNat = 2 ^ (128 - listed.len.toNat) := by
  have hcount : (128 - (listed.len.toNat : ℤ)).toNat = 128 - listed.len.toNat := by omega
  have hone : (1 : Word).toNat = 1 := rfl
  rw [getAddr6Count, Host.shl32, if_pos (by omega), hcount, BitVec.toNat_shiftLeft, hone,
    Nat.one_shiftLeft]
  exact Nat.mod_eq_of_lt (Nat.pow_lt_pow_right (by omega) (by omega))

theorem prefixMask_eq {host : Host} {listed : Ipv6Prefix}
    (hlong : 97 ≤ listed.len.toNat) (hlen : listed.len.toNat ≤ 128) :
    prefixMask host listed = BitVec.allOnes 32 <<< (128 - listed.len.toNat) := by
  have hcount : (128 - (listed.len.toNat : ℤ)).toNat = 128 - listed.len.toNat := by omega
  rw [prefixMask, Host.shl64, if_pos (by omega), hcount, maxIpv6_eq]
  ext i hi
  have hones : (0xffffffff : Word) = BitVec.allOnes 32 := rfl
  rw [hones]
  simp

theorem prefixContains_iff {host : Host} {listed : Ipv6Prefix} {addr : In6Addr}
    (hlong : 97 ≤ listed.len.toNat) (hlen : listed.len.toNat ≤ 128) :
    prefixContains host listed addr = true ↔
      listed.address.word0.toNat / 2 ^ (128 - listed.len.toNat) =
          addr.word0.toNat / 2 ^ (128 - listed.len.toNat) ∧
        listed.address.word1.toNat / 2 ^ (128 - listed.len.toNat) =
          addr.word1.toNat / 2 ^ (128 - listed.len.toNat) ∧
        listed.address.word2.toNat / 2 ^ (128 - listed.len.toNat) =
          addr.word2.toNat / 2 ^ (128 - listed.len.toNat) ∧
        listed.address.word3.toNat / 2 ^ (128 - listed.len.toNat) =
          addr.word3.toNat / 2 ^ (128 - listed.len.toNat) := by
  simp only [prefixContains, prefixMask_eq hlong hlen, Bool.and_eq_true, beq_iff_eq,
    and_highMask_inj, and_assoc]

theorem toNat_full {listed : Ipv6Prefix} (hlen : listed.len = 128) :
    listed.len.toNat = 128 := by
  rw [hlen]
  rfl

theorem enumerates_full {host : Host} {listed : Ipv6Prefix} {addr : In6Addr}
    (hlen : listed.len = 128) : Enumerates host listed addr ↔ listed.address = addr := by
  have hnat := toNat_full hlen
  rw [enumerates_iff, getAddr6Count_toNat (by omega) (by omega), hnat, In6Addr.eq_iff]
  constructor
  · intro h
    obtain ⟨h0, hlow, hhigh⟩ := h
    exact ⟨h0.symm, by omega⟩
  · intro h
    obtain ⟨h0, hlow⟩ := h
    exact ⟨h0.symm, by omega, by omega⟩

theorem prefixContains_full {host : Host} {listed : Ipv6Prefix} {addr : In6Addr}
    (hlen : listed.len = 128) :
    prefixContains host listed addr = true ↔ listed.address = addr := by
  have hnat := toNat_full hlen
  rw [prefixContains_iff (by omega) (by omega), hnat]
  simp only [Nat.sub_self, Nat.pow_zero, Nat.div_one, BitVec.toNat_inj]
  obtain ⟨_, _, _, _⟩ := addr
  obtain ⟨⟨_, _, _, _⟩, _⟩ := listed
  simp only [In6Addr.mk.injEq]

end MaskPool
