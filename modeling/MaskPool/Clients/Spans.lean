import MaskPool.Clients.Capacity
import MaskPool.Clients.Coverage
import MaskPool.Clients.NetworkOrder

/-!
# Which addresses `client_addr_exist` counts through

Counting up from the base address spans an interval of the loaded words, coverage is an
interval of the number in network order. They are the same for full lengths, and on a
big-endian host from length 97 on. On a little-endian host the count runs through the
first byte of a word first; below length 97 the count is no longer the true one. For
every such prefix some address is decided wrongly.
-/

namespace MaskPool

/-- The addresses counted through for one entry, in the loaded words. -/
def Spans (host : Host) (listed : Ipv6Prefix) (addr : In6Addr) : Prop :=
  addr.word0 = listed.address.word0 ∧ listed.address.low ≤ addr.low ∧
    addr.low < listed.address.low + machineCount host listed

instance (host : Host) (listed : Ipv6Prefix) (addr : In6Addr) :
    Decidable (Spans host listed addr) := inferInstanceAs (Decidable (_ ∧ _))

variable {host : Host} {client : Client} {listed : Ipv6Prefix} {addr : In6Addr}

theorem enumerates_iff_spans : Enumerates host listed addr ↔ Spans host listed addr := by
  rw [enumerates_iff, getAddr6Count_machine]
  rfl

theorem machineCount_long (hlong : 97 ≤ listed.len.toNat) (hlen : listed.len.toNat ≤ 128) :
    machineCount host listed = 2 ^ (128 - listed.len.toNat) := by
  rw [machineCount, if_pos ⟨hlong, hlen⟩]

/-- With clear host bits, coverage is an interval of numbers. -/
theorem covers_iff_interval (hclear : listed.HostBitsClear host) :
    Covers host listed addr ↔ listed.address.value host ≤ addr.value host ∧
      addr.value host < listed.address.value host + 2 ^ (128 - listed.len.toNat) := by
  have hpos := Nat.two_pow_pos (128 - listed.len.toNat)
  obtain ⟨q, hq⟩ := Nat.dvd_of_mod_eq_zero hclear
  rw [Covers, hq, Nat.mul_div_cancel_left _ hpos, Nat.div_eq_iff hpos, Nat.mul_comm]
  omega

theorem value_big (hbig : host.order = .big) (a : In6Addr) :
    a.value host = a.word0.toNat * 2 ^ 96 + a.low := by
  simp only [In6Addr.value, In6Addr.low, be32ToCpu, hbig]
  omega

theorem low_add_le (hbig : host.order = .big) (hlong : 97 ≤ listed.len.toNat)
    (hlen : listed.len.toNat ≤ 128) (hclear : listed.HostBitsClear host) :
    listed.address.low + 2 ^ (128 - listed.len.toNat) ≤ 2 ^ 96 := by
  have hsplit : 2 ^ 96 = 2 ^ (128 - listed.len.toNat) * 2 ^ (listed.len.toNat - 32) := by
    rw [← Nat.pow_add]
    congr 1
    omega
  have hdvd : 2 ^ (128 - listed.len.toNat) ∣ listed.address.low := by
    have hvalue := Nat.dvd_of_mod_eq_zero hclear
    rw [value_big hbig] at hvalue
    have hword : 2 ^ (128 - listed.len.toNat) ∣ listed.address.word0.toNat * 2 ^ 96 :=
      (Dvd.intro _ hsplit.symm).mul_left _
    exact (Nat.dvd_add_right hword).mp hvalue
  obtain ⟨q, hq⟩ := hdvd
  have hlow : listed.address.low < 2 ^ 96 :=
    Nat.lt_of_le_of_lt listed.address.low_le (by omega)
  rw [hq, hsplit] at hlow
  have hlt : q < 2 ^ (listed.len.toNat - 32) := Nat.lt_of_mul_lt_mul_left hlow
  calc
    _ = 2 ^ (128 - listed.len.toNat) * (q + 1) := by rw [hq, Nat.mul_succ]
    _ ≤ 2 ^ (128 - listed.len.toNat) * 2 ^ (listed.len.toNat - 32) :=
      Nat.mul_le_mul_left _ hlt
    _ = 2 ^ 96 := hsplit.symm

theorem spans_iff_covers_big (hbig : host.order = .big) (hlong : 97 ≤ listed.len.toNat)
    (hlen : listed.len.toNat ≤ 128) (hclear : listed.HostBitsClear host) :
    Spans host listed addr ↔ Covers host listed addr := by
  have hlow := addr.low_le
  have hroom := low_add_le hbig hlong hlen hclear
  rw [covers_iff_interval hclear, Spans, machineCount_long hlong hlen, value_big hbig,
    value_big hbig, ← BitVec.toNat_inj]
  omega

theorem spans_iff_covers_full (hlen : listed.len.toNat = 128) :
    Spans host listed addr ↔ Covers host listed addr := by
  rw [Covers, hlen, Nat.sub_self, Nat.pow_zero, Nat.div_one, Nat.div_one, In6Addr.value_inj,
    Spans, machineCount_long (by omega) (by omega), hlen, Nat.sub_self, Nat.pow_zero,
    In6Addr.eq_iff]
  apply and_congr_right
  intro _
  omega

/-- Below length 97 the last word is all host bits, more than a 32-bit count can span. -/
theorem exists_covered_unspanned (hshort : listed.len.toNat < 97)
    (hclear : listed.HostBitsClear host) :
    ∃ addr, Covers host listed addr ∧ ¬Spans host listed addr := by
  have hbits : 2 ^ 32 ∣ 2 ^ (128 - listed.len.toNat) := Nat.pow_dvd_pow 2 (by omega)
  have hlast : (be32ToCpu host listed.address.word3).toNat % 2 ^ 32 = 0 := by
    rw [← listed.address.value_mod (by omega)]
    exact Nat.mod_eq_zero_of_dvd (hbits.trans (Nat.dvd_of_mod_eq_zero hclear))
  have hzero : be32ToCpu host listed.address.word3 = be32ToCpu host 0 := by
    rw [be32ToCpu_zero]
    apply BitVec.eq_of_toNat_eq
    rw [Nat.mod_eq_of_lt (BitVec.isLt _)] at hlast
    exact hlast
  have hword : listed.address.word3 = 0 := be32ToCpu_inj.mp hzero
  have hones : (0xffffffff : Word).toNat = 2 ^ 32 - 1 := rfl
  have hnone : (0 : Word).toNat = 0 := rfl
  refine ⟨{ listed.address with word3 := 0xffffffff }, ?_, ?_⟩
  · have hle := Nat.le_of_dvd (Nat.two_pow_pos _) hbits
    rw [covers_iff_interval hclear, In6Addr.value_eq, In6Addr.value_eq, hword,
      be32ToCpu_ones, be32ToCpu_zero, hones, hnone]
    change _ ≤ 2 ^ 32 * listed.address.upper host + _ ∧
      2 ^ 32 * listed.address.upper host + _ < _
    omega
  · intro h
    obtain ⟨-, -, hhigh⟩ := h
    have hcount := (host.wildShift32 1 (128 - (listed.len.toNat : ℤ))).isLt
    rw [machineCount, if_neg (by omega)] at hhigh
    simp only [In6Addr.low, hword, hones, hnone] at hhigh
    omega

/-- A carry out of the host bits of the first byte, or a change of a byte without any. -/
theorem first_byte_changes {n e : ℕ} (he : e ≤ 7) :
    (n + 2 ^ e) % 256 / 2 ^ e ≠ n % 256 / 2 ^ e := by
  interval_cases e <;> omega

theorem dvd_byteSwap_word3 (hlittle : host.order = .little) (hlong : 96 ≤ listed.len.toNat)
    (hclear : listed.HostBitsClear host) :
    2 ^ (128 - listed.len.toNat) ∣ (byteSwap listed.address.word3).toNat := by
  rw [← be32ToCpu_little hlittle, Nat.dvd_iff_mod_eq_zero,
    ← listed.address.value_mod (by omega)]
  exact hclear

/-- The lowest bit of the last byte on the wire is a host bit, so the loaded word can
grow. -/
theorem word3_even (hlittle : host.order = .little) (hlong : 97 ≤ listed.len.toNat)
    (hlen : listed.len.toNat < 128) (hclear : listed.HostBitsClear host) :
    listed.address.word3.toNat / 2 ^ 24 % 2 = 0 := by
  have htwo : 2 ∣ 2 ^ (128 - listed.len.toNat) := dvd_pow_self 2 (by omega)
  have heven := htwo.trans (dvd_byteSwap_word3 hlittle (by omega) hclear)
  rw [← byteSwap_mod]
  omega

/-- From length 97 to 127 a little-endian count soon changes network bits in front of the
host bits. -/
theorem exists_spanned_uncovered (hlittle : host.order = .little)
    (hlong : 97 ≤ listed.len.toNat) (hlen : listed.len.toNat < 128)
    (hclear : listed.HostBitsClear host) :
    ∃ addr, Spans host listed addr ∧ ¬Covers host listed addr := by
  have hroom := word3_even hlittle hlong hlen hclear
  obtain ⟨k, hk⟩ : ∃ k, 128 - listed.len.toNat = k := ⟨_, rfl⟩
  obtain ⟨e, he⟩ : ∃ e, k - 24 = e := ⟨_, rfl⟩
  have hstep : 2 ^ e ≤ 128 := by
    calc
      2 ^ e ≤ 2 ^ 7 := Nat.pow_le_pow_right (by omega) (by omega)
      _ = 128 := rfl
  have hpos := Nat.two_pow_pos e
  have hword := listed.address.word3.isLt
  have hnext : (listed.address.word3 + BitVec.ofNat 32 (2 ^ e)).toNat =
      listed.address.word3.toNat + 2 ^ e := by
    rw [BitVec.toNat_add, BitVec.toNat_ofNat]
    omega
  refine ⟨{ listed.address with
    word3 := listed.address.word3 + BitVec.ofNat 32 (2 ^ e) }, ?_, ?_⟩
  · have hless : 2 ^ e < 2 ^ k := Nat.pow_lt_pow_right (by omega) (by omega)
    rw [Spans, machineCount_long hlong hlen.le, hk]
    simp only [In6Addr.low, hnext, true_and]
    omega
  · intro h
    rw [Covers, hk, In6Addr.value_div _ (by omega), In6Addr.value_div _ (by omega),
      be32ToCpu_little hlittle, be32ToCpu_little hlittle] at h
    have hlast := Nat.add_left_cancel h
    have hfirst (w : Word) :
        (byteSwap w).toNat / 2 ^ k / 2 ^ (24 + e - k) = w.toNat % 256 / 2 ^ e := by
      rw [Nat.div_div_eq_div_mul, ← Nat.pow_add, show k + (24 + e - k) = 24 + e by omega,
        Nat.pow_add, ← Nat.div_div_eq_div_mul, byteSwap_div]
    have hbyte := congrArg (· / 2 ^ (24 + e - k)) hlast
    simp only [hfirst, hnext] at hbyte
    exact first_byte_changes (by omega) hbyte

/-- `client_addr_exist` is true exactly when some listed prefix covers the address. -/
def DecidesCoverage (host : Host) (client : Client) (addr : In6Addr) : Prop :=
  clientAddrExist host client addr = true ↔ ∃ listed ∈ client, Covers host listed addr

/-- A prefix that covers the address without spanning it is made up for by one that spans
it, and the other way round. -/
def SpansMatch (host : Host) (client : Client) (addr : In6Addr) : Prop :=
  (∀ listed ∈ client, Covers host listed addr → ∃ other ∈ client, Spans host other addr) ∧
    ∀ listed ∈ client, Spans host listed addr → ∃ other ∈ client, Covers host other addr

def ExactSpan (host : Host) (listed : Ipv6Prefix) : Prop :=
  listed.len.toNat = 128 ∨ 97 ≤ listed.len.toNat ∧ host.order = .big

theorem decidesCoverage_iff :
    DecidesCoverage host client addr ↔ SpansMatch host client addr := by
  unfold DecidesCoverage SpansMatch
  simp only [clientAddrExist_iff, enumerates_iff_spans]
  constructor
  · intro h
    exact ⟨fun listed hmem hcovers => h.mpr ⟨listed, hmem, hcovers⟩,
      fun listed hmem hspans => h.mp ⟨listed, hmem, hspans⟩⟩
  · intro h
    obtain ⟨hmade, hconverse⟩ := h
    constructor
    · intro hsome
      obtain ⟨listed, hmem, hspans⟩ := hsome
      exact hconverse listed hmem hspans
    · intro hsome
      obtain ⟨listed, hmem, hcovers⟩ := hsome
      exact hmade listed hmem hcovers

theorem spans_iff_covers (hexact : ExactSpan host listed) (hlen : listed.len.toNat ≤ 128)
    (hclear : listed.HostBitsClear host) :
    Spans host listed addr ↔ Covers host listed addr := by
  rcases hexact with hfull | ⟨hlong, hbig⟩
  · exact spans_iff_covers_full hfull
  · exact spans_iff_covers_big hbig hlong hlen hclear

theorem decidesCoverage_single :
    DecidesCoverage host [listed] addr ↔
      (Spans host listed addr ↔ Covers host listed addr) := by
  rw [DecidesCoverage, clientAddrExist_iff]
  simp only [List.mem_singleton, exists_eq_left, enumerates_iff_spans]

theorem exactSpan_iff (hlen : listed.len.toNat ≤ 128) (hclear : listed.HostBitsClear host) :
    (∀ addr, DecidesCoverage host [listed] addr) ↔ ExactSpan host listed := by
  constructor
  · intro h
    by_contra hexact
    obtain ⟨hfull, hbig⟩ := not_or.mp hexact
    by_cases hlong : 97 ≤ listed.len.toNat
    · have hlittle : host.order = .little := by
        cases horder : host.order with
        | little => rfl
        | big => exact absurd ⟨hlong, horder⟩ hbig
      obtain ⟨addr, hspans, huncovered⟩ :=
        exists_spanned_uncovered hlittle hlong (by omega) hclear
      exact huncovered ((decidesCoverage_single.mp (h addr)).mp hspans)
    · obtain ⟨addr, hcovers, hunspanned⟩ :=
        exists_covered_unspanned (Nat.lt_of_not_le hlong) hclear
      exact hunspanned ((decidesCoverage_single.mp (h addr)).mpr hcovers)
  · intro hexact addr
    exact decidesCoverage_single.mpr (spans_iff_covers hexact hlen hclear)

/-- Coverage is decided at an address exactly when covering and spanning prefixes match
there; it is decided at every address when all prefixes span what they cover, and a
database of one prefix needs that. -/
theorem clientAddrExist_decides_iff (hlen : LengthsWithin 0 128 client)
    (hclear : ∀ listed ∈ client, listed.HostBitsClear host) :
    (∀ addr, DecidesCoverage host client addr ↔ SpansMatch host client addr) ∧
      ((∀ listed ∈ client, ExactSpan host listed) →
        ∀ addr, DecidesCoverage host client addr) ∧
      ∀ listed ∈ client,
        ((∀ addr, DecidesCoverage host [listed] addr) ↔ ExactSpan host listed) := by
  refine ⟨fun _ => decidesCoverage_iff, ?_, ?_⟩
  · intro hexact addr
    have hiff (listed : Ipv6Prefix) (hmem : listed ∈ client) :
        Spans host listed addr ↔ Covers host listed addr :=
      spans_iff_covers (hexact listed hmem) (hlen listed hmem).2 (hclear listed hmem)
    rw [decidesCoverage_iff]
    constructor
    · intro listed hmem hcovers
      exact ⟨listed, hmem, (hiff listed hmem).mpr hcovers⟩
    · intro listed hmem hspans
      exact ⟨listed, hmem, (hiff listed hmem).mp hspans⟩
  · intro listed hmem
    exact exactSpan_iff (hlen listed hmem).2 (hclear listed hmem)

theorem clientAddrExist_decides_iff_twoPrefixes :
    (∀ addr, DecidesCoverage Host.powerpc [⟨⟨1, 0, 0, 0⟩, 122⟩, ⟨⟨2, 0, 0, 7⟩, 128⟩] addr) ∧
      ∀ addr, DecidesCoverage Host.powerpc [⟨⟨1, 0, 0, 0⟩, 122⟩] addr := by
  obtain ⟨-, hall, hsingle⟩ := clientAddrExist_decides_iff
    (by decide : LengthsWithin 0 128 [⟨⟨1, 0, 0, 0⟩, 122⟩, ⟨⟨2, 0, 0, 7⟩, 128⟩])
    (by decide : ∀ listed ∈ [(⟨⟨1, 0, 0, 0⟩, 122⟩ : Ipv6Prefix), ⟨⟨2, 0, 0, 7⟩, 128⟩],
      listed.HostBitsClear Host.powerpc)
  have hblock : ExactSpan Host.powerpc ⟨⟨1, 0, 0, 0⟩, 122⟩ := Or.inr ⟨by decide, rfl⟩
  refine ⟨hall ?_, (hsingle _ List.mem_cons_self).mpr hblock⟩
  intro listed hmem
  rcases List.mem_pair.mp hmem with rfl | rfl
  · exact hblock
  · exact Or.inl rfl

/-- On a little-endian host ::1 is unknown under ::/127; on a big-endian host whose shifts
leave nothing not even :: is known under ::/64. -/
theorem coveredAddress_unknown :
    (⟨⟨0, 0, 0, 0⟩, 127⟩ : Ipv6Prefix).HostBitsClear Host.x86 ∧
      clientAddrExist Host.x86 [⟨⟨0, 0, 0, 0⟩, 127⟩] ⟨0, 0, 0, 0x01000000⟩ = false ∧
      ¬DecidesCoverage Host.x86 [⟨⟨0, 0, 0, 0⟩, 127⟩] ⟨0, 0, 0, 0x01000000⟩ ∧
      (⟨⟨0, 0, 0, 0⟩, 64⟩ : Ipv6Prefix).HostBitsClear Host.powerpc ∧
      clientAddrExist Host.powerpc [⟨⟨0, 0, 0, 0⟩, 64⟩] ⟨0, 0, 0, 0⟩ = false ∧
      ¬DecidesCoverage Host.powerpc [⟨⟨0, 0, 0, 0⟩, 64⟩] ⟨0, 0, 0, 0⟩ := by
  refine ⟨by decide, by decide, ?_, by decide, by decide, ?_⟩
  all_goals
    intro h
    exact absurd (h.mpr ⟨_, List.mem_singleton_self _, by decide⟩) (by decide)

end MaskPool
