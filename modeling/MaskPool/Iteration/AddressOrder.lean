import MaskPool.Clients.ByteSkew
import MaskPool.Clients.Spans
import MaskPool.Iteration.ClientRotation

/-!
# The order in which `addr6_iterations` walks

Each call adds one to the last three words as loaded, until they are all ones; the
branch that would carry into the first word repeats the test of the second. So the walk
stalls there, and up to there it follows the numbers of the addresses on a big-endian
host only: on a little-endian one the first call already adds to another byte.
-/

namespace MaskPool

variable {host : Host} {base : In6Addr} {k n : ℕ}

/-- The `k`-th address of the walk is the base address plus `k`. -/
def CountsTo (host : Host) (base : In6Addr) (k : ℕ) : Prop :=
  ((addr6Iterations host)^[k] base).value host = (base.value host + k) % 2 ^ 128

/-- Short of the stall: a big-endian host, or words whose bytes move so that swapping them
does not show. From there on: the number due happens to be that of the stalled address. -/
def OrderKept (host : Host) (base : In6Addr) (k : ℕ) : Prop :=
  if base.low + k < 2 ^ 96 then host.order = .big ∨ SameSkews base.low (base.low + k)
  else (base.wireLow host + k) % 2 ^ 128 = 2 ^ 96 - 1

instance (host : Host) (base : In6Addr) (k : ℕ) : Decidable (CountsTo host base k) :=
  inferInstanceAs (Decidable (_ = _))

instance (host : Host) (base : In6Addr) (k : ℕ) : Decidable (OrderKept host base k) :=
  inferInstanceAs (Decidable (ite _ _ _))

theorem iterate_low (host : Host) (base : In6Addr) (k : ℕ) :
    ((addr6Iterations host)^[k] base).low = min (base.low + k) (2 ^ 96 - 1) :=
  iterate_saturating (addr6Iterations_low host) base base.low_le k

theorem iterate_value (host : Host) (base : In6Addr) (k : ℕ) :
    ((addr6Iterations host)^[k] base).value host =
      (be32ToCpu host base.word0).toNat * 2 ^ 96 +
        ((addr6Iterations host)^[k] base).wireLow host := by
  rw [In6Addr.value_wireLow, iterate_addr6Iterations_word0]

theorem In6Addr.wireLow_of_low {a : In6Addr} (h : a.low = 2 ^ 96 - 1) :
    a.wireLow host = 2 ^ 96 - 1 := by
  obtain ⟨a0, a1, a2, a3⟩ := a
  have h1 := a1.isLt
  have h2 := a2.isLt
  have h3 := a3.isLt
  have hones : (0xffffffff : Word).toNat = 2 ^ 32 - 1 := rfl
  simp only [In6Addr.low] at h
  have hw1 : a1 = 0xffffffff := BitVec.eq_of_toNat_eq (by omega)
  have hw2 : a2 = 0xffffffff := BitVec.eq_of_toNat_eq (by omega)
  have hw3 : a3 = 0xffffffff := BitVec.eq_of_toNat_eq (by omega)
  rw [In6Addr.wireLow, hw1, hw2, hw3, be32ToCpu_ones, hones]
  rfl

theorem countsTo_iff_wireLow (hk : base.low + k < 2 ^ 96) :
    CountsTo host base k ↔
      ((addr6Iterations host)^[k] base).wireLow host = base.wireLow host + k := by
  have hfirst := (be32ToCpu host base.word0).isLt
  have hbase := base.wireLow_lt host
  have hnext := ((addr6Iterations host)^[k] base).wireLow_lt host
  rw [CountsTo, iterate_value, In6Addr.value_wireLow]
  omega

theorem countsTo_of_short (hk : base.low + k < 2 ^ 96) :
    CountsTo host base k ↔ host.order = .big ∨ SameSkews base.low (base.low + k) := by
  have hlow : ((addr6Iterations host)^[k] base).low = base.low + k := by
    rw [iterate_low]
    omega
  rw [countsTo_iff_wireLow hk]
  cases horder : host.order with
  | big =>
    rw [In6Addr.wireLow_big horder, In6Addr.wireLow_big horder, hlow]
    exact iff_of_true rfl (Or.inl rfl)
  | little =>
    rw [← hlow, ← wireLow_sub_iff horder, hlow]
    simp only [reduceCtorEq, false_or]
    omega

theorem countsTo_of_stalled (hk : ¬base.low + k < 2 ^ 96) :
    CountsTo host base k ↔ (base.wireLow host + k) % 2 ^ 128 = 2 ^ 96 - 1 := by
  have hlow : ((addr6Iterations host)^[k] base).low = 2 ^ 96 - 1 := by
    rw [iterate_low]
    omega
  have hfirst := (be32ToCpu host base.word0).isLt
  rw [CountsTo, iterate_value, In6Addr.wireLow_of_low hlow, In6Addr.value_wireLow]
  omega

theorem countsTo_iff (host : Host) (base : In6Addr) (k : ℕ) :
    CountsTo host base k ↔ OrderKept host base k := by
  unfold OrderKept
  split_ifs with hk
  · exact countsTo_of_short hk
  · exact countsTo_of_stalled hk

theorem countsTo_zero (host : Host) (base : In6Addr) : CountsTo host base 0 := by
  have hlt : base.value host < 2 ^ 128 := base.value_lt
  rw [CountsTo, Function.iterate_zero_apply, Nat.add_zero, Nat.mod_eq_of_lt hlt]

/-- The call that meets the stall does not count. -/
theorem not_countsTo_stall (hk : base.low + k = 2 ^ 96) (hbig : host.order = .big) :
    ¬CountsTo host base k := by
  rw [countsTo_of_stalled (by omega), In6Addr.wireLow_big hbig, hk]
  decide

theorem not_countsTo_one (hlittle : host.order = .little) : ¬CountsTo host base 1 := by
  by_cases hk : base.low + 1 < 2 ^ 96
  · rw [countsTo_of_short hk, hlittle]
    simpa using not_sameSkews_succ hk
  · have hstalled : base.low = 2 ^ 96 - 1 := Nat.le_antisymm base.low_le (by omega)
    rw [countsTo_of_stalled hk, In6Addr.wireLow_of_low hstalled]
    decide

theorem countsTo_all_iff (host : Host) (base : In6Addr) (n : ℕ) :
    (∀ k < n, CountsTo host base k) ↔
      n ≤ 1 ∨ host.order = .big ∧ base.low + n ≤ 2 ^ 96 := by
  have hle := base.low_le
  constructor
  · intro h
    rcases Nat.lt_or_ge 1 n with hmore | hfew
    · right
      have hbig : host.order = .big := by
        cases horder : host.order with
        | big => rfl
        | little => exact absurd (h 1 hmore) (not_countsTo_one horder)
      refine ⟨hbig, ?_⟩
      by_contra hlong
      have hstall : base.low + (2 ^ 96 - base.low) = 2 ^ 96 := by omega
      exact not_countsTo_stall hstall hbig (h _ (by omega))
    · exact Or.inl hfew
  · intro h k hk
    rcases h with hfew | ⟨hbig, hshort⟩
    · obtain rfl : k = 0 := by omega
      exact countsTo_zero host base
    · exact (countsTo_of_short (by omega)).mpr (Or.inl hbig)

theorem loopAddresses_single (host : Host) (listed : Ipv6Prefix) :
    loopAddresses host [listed] =
      List.iterate (addr6Iterations host) listed.address (getAddr6Count host listed).toNat := by
  rw [loopAddresses, List.flatMap_cons, List.flatMap_nil, List.append_nil]

/-- `client_addr_exist` looks for the address among those `client_for_each` hands out. -/
theorem clientAddrExist_iff_mem {client : Client} {addr : In6Addr} :
    clientAddrExist host client addr = true ↔ addr ∈ loopAddresses host client := by
  rw [clientAddrExist_iff]
  simp only [Enumerates, addrExistFrom_iff, loopAddresses, List.mem_flatMap,
    List.mem_iterate, eq_comm (a := addr)]

theorem addr6Iterations_stuck {a : In6Addr} (h : a.low = 2 ^ 96 - 1) :
    addr6Iterations host a = a := by
  rw [In6Addr.eq_iff, addr6Iterations_word0, addr6Iterations_low, h]
  exact ⟨rfl, by decide⟩

variable {listed : Ipv6Prefix}

theorem loopAddresses_nodup_iff (hlong : 97 ≤ listed.len.toNat)
    (hlen : listed.len.toNat ≤ 128) :
    (loopAddresses host [listed]).Nodup ↔
      listed.address.low + 2 ^ (128 - listed.len.toNat) ≤ 2 ^ 96 := by
  rw [loopAddresses_single, getAddr6Count_toNat hlong hlen,
    nodup_iterate_saturating_iff (addr6Iterations_low host) (fun _ => addr6Iterations_stuck)
      listed.address.low_le, Nat.sub_add_cancel (by decide)]

theorem word3_add_le (hlittle : host.order = .little) (hlong : 98 ≤ listed.len.toNat)
    (hlen : listed.len.toNat < 128) (hclear : listed.HostBitsClear host) :
    listed.address.word3.toNat + 2 ^ (128 - listed.len.toNat) ≤ 2 ^ 32 := by
  have hlt := listed.address.word3.isLt
  have heven := word3_even hlittle (by omega) hlen hclear
  rcases Nat.lt_or_ge 24 (128 - listed.len.toNat) with hmany | hfew
  · have hpow : 2 ^ (128 - listed.len.toNat) ≤ 2 ^ 30 :=
      Nat.pow_le_pow_right (by omega) (by omega)
    -- three bytes on the wire are host bits, only the lowest loaded one is not
    have hbytes : 2 ^ 24 ∣ (byteSwap listed.address.word3).toNat :=
      (Nat.pow_dvd_pow 2 (by omega)).trans (dvd_byteSwap_word3 hlittle (by omega) hclear)
    obtain ⟨b0, b1, b2, b3, h0, h1, h2, h3, h⟩ := exists_bytes listed.address.word3
    rw [byteSwap_toNat h0 h1 h2 h3 h] at hbytes
    omega
  · have hpow : 2 ^ (128 - listed.len.toNat) ≤ 2 ^ 24 :=
      Nat.pow_le_pow_right (by omega) hfew
    omega

/-- With clear host bits no address of a prefix is taken twice, whatever the byte order. -/
theorem loopAddresses_nodup_of_clear (hlong : 98 ≤ listed.len.toNat)
    (hlen : listed.len.toNat ≤ 128) (hclear : listed.HostBitsClear host) :
    (loopAddresses host [listed]).Nodup := by
  rw [loopAddresses_nodup_iff (by omega) hlen]
  cases horder : host.order with
  | big => exact low_add_le horder (by omega) hlen hclear
  | little =>
    have hlow := listed.address.low_le
    rcases Nat.lt_or_ge listed.len.toNat 128 with hless | hfull
    · have hroom := word3_add_le horder hlong hless hclear
      have h1 := listed.address.word1.isLt
      have h2 := listed.address.word2.isLt
      rw [In6Addr.low]
      omega
    · rw [Nat.sub_eq_zero_of_le hfull, Nat.pow_zero]
      omega

/-- With clear host bits a big-endian host walks the whole prefix in numeric order. -/
theorem countsTo_of_clear (hbig : host.order = .big) (hlong : 97 ≤ listed.len.toNat)
    (hlen : listed.len.toNat ≤ 128) (hclear : listed.HostBitsClear host) :
    ∀ k < 2 ^ (128 - listed.len.toNat), CountsTo host listed.address k :=
  (countsTo_all_iff host listed.address _).mpr
    (Or.inr ⟨hbig, low_add_le hbig hlong hlen hclear⟩)

/-- From any base address: where one address of the walk is the right one, how many from
the base on are, and for which prefixes the addresses taken are different ones. -/
theorem addr6Iterations_walks_iff (host : Host) (base : In6Addr) :
    (∀ k, CountsTo host base k ↔ OrderKept host base k) ∧
    (∀ n, (∀ k < n, CountsTo host base k) ↔
      n ≤ 1 ∨ host.order = .big ∧ base.low + n ≤ 2 ^ 96) ∧
    ∀ len : BitVec 8, 98 ≤ len.toNat → len.toNat ≤ 128 →
      (loopAddresses host [⟨base, len⟩]).length = 2 ^ (128 - len.toNat) ∧
        ((loopAddresses host [⟨base, len⟩]).Nodup ↔
          base.low + 2 ^ (128 - len.toNat) ≤ 2 ^ 96) := by
  refine ⟨countsTo_iff host base, countsTo_all_iff host base, ?_⟩
  intro len hlong hlen
  have hword : 97 ≤ len.toNat := by omega
  constructor
  · rw [loopAddresses_single, List.length_iterate, getAddr6Count_toNat hword hlen]
  · exact loopAddresses_nodup_iff hword hlen

theorem addr6Iterations_walks_iff_sixtyFour :
    CountsTo Host.powerpc ⟨0, 0, 0, 1⟩ 63 ∧
      (∀ k < 64, CountsTo Host.powerpc ⟨0, 0, 0, 1⟩ k) ∧
      (loopAddresses Host.powerpc [⟨⟨0, 0, 0, 1⟩, 122⟩]).length = 64 ∧
      (loopAddresses Host.powerpc [⟨⟨0, 0, 0, 1⟩, 122⟩]).Nodup := by
  obtain ⟨hone, hfirst, hprefix⟩ := addr6Iterations_walks_iff Host.powerpc ⟨0, 0, 0, 1⟩
  obtain ⟨hlength, hnodup⟩ := hprefix 122 (by decide) (by decide)
  exact ⟨(hone 63).mpr (by decide), (hfirst 64).mpr (by decide), hlength,
    hnodup.mpr (by decide)⟩

/-- On a little-endian host the address after :: is ::100:0; on a big-endian one the walk
stalls at ::ffff:ffff:ffff:ffff:ffff:ffff, and the two addresses of a /127 there are one. -/
theorem firstStep_misses :
    ¬CountsTo Host.x86 ⟨0, 0, 0, 0⟩ 1 ∧
      (addr6Iterations Host.x86 ⟨0, 0, 0, 0⟩).value Host.x86 = 2 ^ 24 ∧
      ¬CountsTo Host.powerpc ⟨0, 0xffffffff, 0xffffffff, 0xffffffff⟩ 1 ∧
      addr6Iterations Host.powerpc ⟨0, 0xffffffff, 0xffffffff, 0xffffffff⟩ =
        ⟨0, 0xffffffff, 0xffffffff, 0xffffffff⟩ ∧
      loopAddresses Host.powerpc [⟨⟨0, 0xffffffff, 0xffffffff, 0xffffffff⟩, 127⟩] =
        [⟨0, 0xffffffff, 0xffffffff, 0xffffffff⟩, ⟨0, 0xffffffff, 0xffffffff, 0xffffffff⟩] ∧
      ¬(loopAddresses Host.powerpc
        [⟨⟨0, 0xffffffff, 0xffffffff, 0xffffffff⟩, 127⟩]).Nodup := by
  refine ⟨?_, ?_, ?_, ?_, ?_, ?_⟩
  all_goals decide

end MaskPool
