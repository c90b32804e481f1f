import MaskPool.Clients.Agreement
import MaskPool.Clients.NetworkOrder

/-!
# Which prefix covers an address

Coverage is agreement in the first `len` bits of the 128-bit address in network order.
`prefix_contains` shifts a 32-bit word of ones and applies it to each loaded word: from
length 97 on it drops the low bits of every word, between 65 and 96 it drops all bits, and
below that the shift leaves its 64-bit operand.
-/

namespace MaskPool

/-- The leading `len` bits of the prefix are those of the address. -/
def Covers (host : Host) (listed : Ipv6Prefix) (addr : In6Addr) : Prop :=
  addr.value host / 2 ^ (128 - listed.len.toNat) =
    listed.address.value host / 2 ^ (128 - listed.len.toNat)

/-- What `prefix_contains` compares, for every length up to 128. -/
def WordsAgree (host : Host) (listed : Ipv6Prefix) (addr : In6Addr) : Prop :=
  if 97 ≤ listed.len.toNat then AgreesHigh listed addr
  else if 65 ≤ listed.len.toNat then True
  else
    let mask : Word :=
      (host.wildShift64 0xffffffff (128 - (listed.len.toNat : ℤ))).truncate 32
    listed.address.word0 &&& mask = addr.word0 &&& mask ∧
      listed.address.word1 &&& mask = addr.word1 &&& mask ∧
      listed.address.word2 &&& mask = addr.word2 &&& mask ∧
      listed.address.word3 &&& mask = addr.word3 &&& mask

instance (host : Host) (listed : Ipv6Prefix) (addr : In6Addr) :
    Decidable (Covers host listed addr) := inferInstanceAs (Decidable (_ = _))

instance (host : Host) (listed : Ipv6Prefix) (addr : In6Addr) :
    Decidable (WordsAgree host listed addr) := by
  unfold WordsAgree
  infer_instance

theorem prefixMask_empty {host : Host} {listed : Ipv6Prefix}
    (hlong : 65 ≤ listed.len.toNat) (hlen : listed.len.toNat ≤ 96) :
    prefixMask host listed = 0 := by
  have hcount : (128 - (listed.len.toNat : ℤ)).toNat = 128 - listed.len.toNat := by omega
  rw [prefixMask, Host.shl64, if_pos (by omega), hcount]
  ext i hi
  have hlow : i < 128 - listed.len.toNat := by omega
  simp [hlow]

theorem prefixContains_iff_wordsAgree {host : Host} {listed : Ipv6Prefix} {addr : In6Addr}
    (hlen : listed.len.toNat ≤ 128) :
    prefixContains host listed addr = true ↔ WordsAgree host listed addr := by
  unfold WordsAgree
  split_ifs with hlong hmiddle
  · exact prefixContains_iff hlong hlen
  · simp [prefixContains, prefixMask_empty hmiddle (by omega)]
  · have hmask : prefixMask host listed =
        (host.wildShift64 0xffffffff (128 - (listed.len.toNat : ℤ))).truncate 32 := by
      rw [prefixMask, Host.shl64, if_neg (by omega), maxIpv6_eq]
      rfl
    simp only [prefixContains, hmask, Bool.and_eq_true, beq_iff_eq, and_assoc]

def coveringPosition (host : Host) (client : Client) (addr : In6Addr) : Option ℕ :=
  client.findIdx? fun listed => decide (Covers host listed addr)

/-- The first entry that covers the address or looks as if it did does both. -/
def FirstMatchCovers (host : Host) (client : Client) (addr : In6Addr) : Prop :=
  ∀ listed, client.find? (fun listed =>
    decide (WordsAgree host listed addr) || decide (Covers host listed addr)) = some listed →
      WordsAgree host listed addr ∧ Covers host listed addr

variable {host : Host} {client : Client} {pool4 : Pool4} {addr : In6Addr}

theorem coveringPosition_eq_none :
    coveringPosition host client addr = none ↔ ∀ listed ∈ client, ¬Covers host listed addr := by
  simp [coveringPosition, List.findIdx?_eq_none_iff]

theorem position_eq_covering_iff (hlen : LengthsWithin 0 128 client) :
    position host client addr = coveringPosition host client addr ↔
      FirstMatchCovers host client addr := by
  have htest (listed : Ipv6Prefix) (hmem : listed ∈ client) :
      prefixContains host listed addr = decide (WordsAgree host listed addr) := by
    rw [Bool.eq_iff_iff, decide_eq_true_eq]
    exact prefixContains_iff_wordsAgree (hlen listed hmem).2
  have hwords : position host client addr =
      client.findIdx? fun listed => decide (WordsAgree host listed addr) := by
    unfold position
    exact FirstMatch.findIdx?_congr htest
  rw [hwords, coveringPosition, FirstMatch.findIdx?_eq_iff]
  simp only [decide_eq_true_eq]
  rfl

/-- The lookup resolves the address by its prefix bits: the domain it goes on to is that
of the first covering prefix, and no covering prefix is what `-ESRCH` means. -/
structure ResolvesByPrefix (host : Host) (client : Client) (pool4 : Pool4)
    (addr : In6Addr) : Prop where
  unlisted : ∀ result m, (clientGetMaskDomain host client pool4 addr result m).1 = -ESRCH ↔
    ∀ listed ∈ client, ¬Covers host listed addr
  located : ∀ result m, (clientGetMaskDomain host client pool4 addr result m).1 = 0 →
    ∃ p, coveringPosition host client addr = some p ∧ position host client addr = some p ∧
      clientGetMaskDomain host client pool4 addr result m =
        pool4Taddr4FindPos pool4 (BitVec.ofNat 32 p) result m

theorem resolvesByPrefix_iff_positions (hcap : WithinCapacity host client pool4) :
    ResolvesByPrefix host client pool4 addr ↔
      position host client addr = coveringPosition host client addr := by
  constructor
  · intro h
    cases hp : position host client addr with
    | none =>
      have hnone := (h.unlisted ⟨⟨0, 0⟩, 0, 0⟩ 1).mp
        (by rw [clientGetMaskDomain_unlisted hcap hp])
      exact (coveringPosition_eq_none.mpr hnone).symm
    | some p =>
      have hzero : (clientGetMaskDomain host client pool4 addr ⟨⟨0, 0⟩, 0, 0⟩ 1).1 = 0 :=
        clientGetMaskDomain_succeeds.mpr ⟨hcap, by rw [hp, Option.isSome_some], by decide⟩
      obtain ⟨q, hcovering, hposition, -⟩ := h.located _ 1 hzero
      rw [hcovering, ← hposition, hp]
  · intro hequal
    constructor
    · intro result m
      rw [← coveringPosition_eq_none, ← hequal, ← not_iff_not, ← ne_eq,
        lookup_ne_esrch_iff hcap, Option.isSome_iff_ne_none]
    · intro result m hzero
      obtain ⟨-, hlisted, -⟩ := clientGetMaskDomain_succeeds.mp hzero
      obtain ⟨p, hp⟩ := Option.isSome_iff_exists.mp hlisted
      refine ⟨p, by rw [← hequal, hp], hp, ?_⟩
      rw [clientGetMaskDomain_eq hcap, hp]

variable {listed : Ipv6Prefix}

/-- The mask of lengths below 65, whatever the host makes of it. -/
def wildMask (host : Host) (listed : Ipv6Prefix) : Word :=
  (host.wildShift64 0xffffffff (128 - (listed.len.toNat : ℤ))).truncate 32

/-- Word-wise agreement is coverage: a full length, or an empty one that the host leaves
without a mask. -/
def ExactMask (host : Host) (listed : Ipv6Prefix) : Prop :=
  listed.len.toNat = 128 ∨ listed.len.toNat = 0 ∧ wildMask host listed = 0

theorem firstMatchCovers_single :
    FirstMatchCovers host [listed] addr ↔
      (WordsAgree host listed addr ↔ Covers host listed addr) := by
  by_cases hwords : WordsAgree host listed addr <;>
    by_cases hcovers : Covers host listed addr <;>
      simp [FirstMatchCovers, hwords, hcovers]

theorem wordsAgree_wild (hshort : listed.len.toNat < 65) :
    WordsAgree host listed addr ↔
      listed.address.word0 &&& wildMask host listed = addr.word0 &&& wildMask host listed ∧
      listed.address.word1 &&& wildMask host listed = addr.word1 &&& wildMask host listed ∧
      listed.address.word2 &&& wildMask host listed = addr.word2 &&& wildMask host listed ∧
      listed.address.word3 &&& wildMask host listed = addr.word3 &&& wildMask host listed := by
  rw [WordsAgree, if_neg (by omega), if_neg (by omega)]
  rfl

theorem not_covers_of_word0_ne {w : Word} (hlen : 32 ≤ listed.len.toNat)
    (h : w ≠ listed.address.word0) :
    ¬Covers host listed { listed.address with word0 := w } := by
  intro hcovers
  have hfirst := congrArg (· / 2 ^ (listed.len.toNat - 32)) hcovers
  simp only [Nat.div_div_eq_div_mul, ← Nat.pow_add] at hfirst
  rcases Nat.lt_or_ge 128 listed.len.toNat with hlong | hlong
  · rw [Covers, Nat.sub_eq_zero_of_le hlong.le, Nat.pow_zero, Nat.div_one, Nat.div_one,
      In6Addr.value_inj] at hcovers
    exact h (congrArg In6Addr.word0 hcovers)
  · rw [show 128 - listed.len.toNat + (listed.len.toNat - 32) = 96 by omega,
      In6Addr.value_div_first, In6Addr.value_div_first] at hfirst
    exact h (be32ToCpu_inj.mp (BitVec.eq_of_toNat_eq hfirst))

theorem not_covers_not (hlen : 1 ≤ listed.len.toNat) :
    ¬Covers host listed { listed.address with word0 := ~~~listed.address.word0 } := by
  have hword := (be32ToCpu host listed.address.word0).isLt
  intro hcovers
  have htop := congrArg (· / 2 ^ (listed.len.toNat - 1)) hcovers
  simp only [Nat.div_div_eq_div_mul, ← Nat.pow_add] at htop
  rcases Nat.lt_or_ge 128 listed.len.toNat with hlong | hlong
  · apply not_covers_of_word0_ne (by omega) _ hcovers
    intro heq
    have hnat := congrArg BitVec.toNat heq
    rw [BitVec.toNat_not] at hnat
    omega
  · rw [show 128 - listed.len.toNat + (listed.len.toNat - 1) = 96 + 31 by omega, Nat.pow_add,
      ← Nat.div_div_eq_div_mul, ← Nat.div_div_eq_div_mul, In6Addr.value_div_first,
      In6Addr.value_div_first, be32ToCpu_not, BitVec.toNat_not] at htop
    omega

theorem toNat_xor_one_div {w : Word} {k : ℕ} (hk : 1 ≤ k) :
    (w ^^^ 1).toNat / 2 ^ k = w.toNat / 2 ^ k := by
  have hone : (1 : Word).toNat = 1 := rfl
  have hsplit : 2 ^ k = 2 * 2 ^ (k - 1) := by
    rw [← Nat.pow_succ', Nat.succ_eq_add_one, Nat.sub_add_cancel hk]
  rw [hsplit, ← Nat.div_div_eq_div_mul, ← Nat.div_div_eq_div_mul, BitVec.toNat_xor, hone,
    Nat.xor_div_two]
  simp

theorem covers_flipped (hshort : listed.len.toNat < 65) (mask : Word) :
    Covers host listed
      { listed.address with word3 := listed.address.word3 ^^^ mask } := by
  rw [Covers, In6Addr.value_div_upper _ (by omega), In6Addr.value_div_upper _ (by omega)]
  rfl

theorem mask_eq_zero_of_xor {w mask : Word} (h : w &&& mask = (w ^^^ mask) &&& mask) :
    mask = 0 := by
  apply BitVec.eq_of_getElem_eq
  intro i hi
  have hbit := congrArg (fun v => v[i]) h
  have hzero : (0 : Word)[i] = false := BitVec.getElem_zero hi
  simp only [BitVec.getElem_and, BitVec.getElem_xor] at hbit
  rw [hzero]
  cases hmask : mask[i] with
  | false => rfl
  | true => cases hw : w[i] <;> simp [hmask, hw] at hbit

theorem wordsAgree_of_zero (hshort : listed.len.toNat < 65) (hzero : wildMask host listed = 0) :
    WordsAgree host listed addr := by
  rw [wordsAgree_wild hshort, hzero]
  simp

/-- From length 97 to 127 the mask drops low bits of the first word. -/
theorem exists_uncovered_long (hlong : 97 ≤ listed.len.toNat) (hlen : listed.len.toNat < 128) :
    ∃ addr, WordsAgree host listed addr ∧ ¬Covers host listed addr := by
  refine ⟨{ listed.address with word0 := listed.address.word0 ^^^ 1 }, ?_, ?_⟩
  · rw [WordsAgree, if_pos hlong]
    exact ⟨(toNat_xor_one_div (by omega)).symm, rfl, rfl, rfl⟩
  · apply not_covers_of_word0_ne (by omega)
    intro heq
    have hzero := (BitVec.xor_right_inj (listed.address.word0)).mp
      (heq.trans (BitVec.xor_zero).symm)
    exact absurd hzero (by decide)

/-- From length 65 to 96 the mask drops everything. -/
theorem exists_uncovered_middle (hmiddle : 65 ≤ listed.len.toNat)
    (hlen : listed.len.toNat < 97) :
    ∃ addr, WordsAgree host listed addr ∧ ¬Covers host listed addr := by
  refine ⟨{ listed.address with word0 := ~~~listed.address.word0 }, ?_,
    not_covers_not (by omega)⟩
  rw [WordsAgree, if_neg (by omega), if_pos hmiddle]
  trivial

/-- Below length 65 an empty mask accepts an address outside the prefix. -/
theorem exists_uncovered_short (hsome : 1 ≤ listed.len.toNat) (hlen : listed.len.toNat < 65)
    (hzero : wildMask host listed = 0) :
    ∃ addr, WordsAgree host listed addr ∧ ¬Covers host listed addr :=
  ⟨_, wordsAgree_of_zero hlen hzero, not_covers_not hsome⟩

/-- Below length 65 a mask with a bit in it rejects an address inside the prefix. -/
theorem exists_covered_rejected (hlen : listed.len.toNat < 65)
    (hmask : wildMask host listed ≠ 0) :
    ∃ addr, Covers host listed addr ∧ ¬WordsAgree host listed addr := by
  refine ⟨_, covers_flipped hlen (wildMask host listed), ?_⟩
  rw [wordsAgree_wild hlen]
  intro h
  exact hmask (mask_eq_zero_of_xor h.2.2.2)

theorem wordsAgree_iff_covers (hexact : ExactMask host listed) (hlen : listed.len.toNat ≤ 128) :
    WordsAgree host listed addr ↔ Covers host listed addr := by
  rcases hexact with hfull | ⟨hnone, hzero⟩
  · have hcontains : prefixContains host listed addr = true ↔
        WordsAgree host listed addr := prefixContains_iff_wordsAgree hlen
    have hvalue : listed.len = 128 := BitVec.eq_of_toNat_eq hfull
    rw [← hcontains, prefixContains_full hvalue, Covers, hfull, Nat.sub_self, Nat.pow_zero,
      Nat.div_one, Nat.div_one, In6Addr.value_inj, eq_comm]
  · refine iff_of_true (wordsAgree_of_zero (by omega) hzero) ?_
    have hbound (a : In6Addr) : a.value host < 2 ^ 128 := a.value_lt
    rw [Covers, hnone, Nat.div_eq_of_lt (hbound addr), Nat.div_eq_of_lt (hbound _)]

/-- A database of one prefix resolves every address by the prefix bits only if the length
is 128, or 0 on a host whose shift leaves no mask. -/
theorem exactMask_iff (hlen : listed.len.toNat ≤ 128) :
    (∀ addr, FirstMatchCovers host [listed] addr) ↔ ExactMask host listed := by
  simp only [firstMatchCovers_single]
  constructor
  · intro h
    have hall : ¬∃ addr, WordsAgree host listed addr ∧ ¬Covers host listed addr := by
      intro hsome
      obtain ⟨addr, hagrees, huncovered⟩ := hsome
      exact huncovered ((h addr).mp hagrees)
    by_contra hexact
    obtain ⟨hfull, hempty⟩ := not_or.mp hexact
    by_cases hlong : 97 ≤ listed.len.toNat
    · exact hall (exists_uncovered_long hlong (by omega))
    by_cases hmiddle : 65 ≤ listed.len.toNat
    · exact hall (exists_uncovered_middle hmiddle (by omega))
    by_cases hzero : wildMask host listed = 0
    · have hsome : 1 ≤ listed.len.toNat :=
        Nat.one_le_iff_ne_zero.mpr fun hnone => hempty ⟨hnone, hzero⟩
      exact hall (exists_uncovered_short hsome (by omega) hzero)
    · obtain ⟨addr, hcovers, hrejected⟩ := exists_covered_rejected (by omega) hzero
      exact hrejected ((h addr).mpr hcovers)
  · intro hexact addr
    exact wordsAgree_iff_covers hexact hlen

/-- While the database fits the pool, the lookup resolves an address by its prefix bits
exactly when the first entry that covers it, or agrees with it word by word, does both;
for one prefix alone that is so at every address only under `ExactMask`. -/
theorem resolvesByPrefix_iff (hlen : LengthsWithin 0 128 client) :
    (∀ pool4 addr, WithinCapacity host client pool4 →
      (ResolvesByPrefix host client pool4 addr ↔ FirstMatchCovers host client addr)) ∧
    ∀ listed ∈ client,
      ((∀ addr, FirstMatchCovers host [listed] addr) ↔ ExactMask host listed) := by
  constructor
  · intro pool4 addr hcap
    rw [resolvesByPrefix_iff_positions hcap, position_eq_covering_iff hlen]
  · intro listed hmem
    exact exactMask_iff (hlen listed hmem).2

theorem resolvesByPrefix_iff_twoPrefixes :
    ResolvesByPrefix Host.powerpc [⟨⟨1, 0, 0, 0⟩, 122⟩, ⟨⟨2, 0, 0, 7⟩, 128⟩]
        [⟨1, 6, 9, ⟨0, 128⟩⟩] ⟨1, 0, 0, 9⟩ ∧
      ∀ addr, FirstMatchCovers Host.powerpc [⟨⟨2, 0, 0, 7⟩, 128⟩] addr := by
  constructor
  · apply ((resolvesByPrefix_iff (by decide)).1 _ _ (by decide)).mpr
    intro listed hfirst
    have hblock : [(⟨⟨1, 0, 0, 0⟩, 122⟩ : Ipv6Prefix), ⟨⟨2, 0, 0, 7⟩, 128⟩].find? (fun listed =>
        decide (WordsAgree Host.powerpc listed ⟨1, 0, 0, 9⟩) ||
          decide (Covers Host.powerpc listed ⟨1, 0, 0, 9⟩)) =
        some ⟨⟨1, 0, 0, 0⟩, 122⟩ := by decide
    cases hblock.symm.trans hfirst
    decide
  · have hlen : LengthsWithin 0 128 [⟨⟨1, 0, 0, 0⟩, 122⟩, ⟨⟨2, 0, 0, 7⟩, 128⟩] := by decide
    exact ((resolvesByPrefix_iff hlen).2 _ (by decide)).mpr (Or.inl rfl)

/-- On either host ::/126 takes in an address that differs from it in its first word; on
a little-endian host the address ::1 is not found under ::/120, which covers it. -/
theorem otherWords_resolved :
    LengthsWithin 0 128 [⟨⟨0, 0, 0, 0⟩, 126⟩] ∧
      WithinCapacity Host.x86 [⟨⟨0, 0, 0, 0⟩, 126⟩] [⟨1, 6, 9, ⟨0, 3⟩⟩] ∧
      clientGetMaskDomain Host.x86 [⟨⟨0, 0, 0, 0⟩, 126⟩] [⟨1, 6, 9, ⟨0, 3⟩⟩] ⟨1, 0, 0, 0⟩
        ⟨⟨7, 7⟩, 7, 7⟩ 1 = (0, ⟨⟨9, 0⟩, 1, 1⟩) ∧
      ¬ResolvesByPrefix Host.x86 [⟨⟨0, 0, 0, 0⟩, 126⟩] [⟨1, 6, 9, ⟨0, 3⟩⟩] ⟨1, 0, 0, 0⟩ ∧
      ¬ResolvesByPrefix Host.powerpc [⟨⟨0, 0, 0, 0⟩, 126⟩] [⟨1, 6, 9, ⟨0, 3⟩⟩]
        ⟨1, 0, 0, 0⟩ ∧
      ¬ResolvesByPrefix Host.x86 [⟨⟨0, 0, 0, 0⟩, 120⟩] [⟨1, 6, 9, ⟨0, 255⟩⟩]
        ⟨0, 0, 0, 0x01000000⟩ := by
  refine ⟨by decide, by decide, by decide, ?_, ?_, ?_⟩
  all_goals
    intro h
    exact absurd (h.unlisted ⟨⟨7, 7⟩, 7, 7⟩ 1) (by decide)

end MaskPool
