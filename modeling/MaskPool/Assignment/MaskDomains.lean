import MaskPool.Pool.NthMask

/-!
# Mask domains: producer against consumer

`pool4_taddr4_find_pos` writes a domain for a position, `pool4_get_nth_taddr` reads it
back. Whatever the second returns lies in the block of the position, so domains of
different positions share no mask; and it returns the mask asked for exactly when the
block does not begin at the last port of an entry.
-/

namespace MaskPool

open Blocks

/-- The domain `pool4_taddr4_find_pos` leaves in `*result` for list position `p`. -/
def maskDomain (pool4 : Pool4) (p : ℕ) (result : ClientMaskDomain) (m : Word) :
    ClientMaskDomain :=
  (pool4Taddr4FindPos pool4 (BitVec.ofNat 32 p) result m).2

section

variable {pool4 : Pool4} {m : Word} {p : ℕ}

theorem maskDomain_eq (hsmall : (poolMasks pool4).length < 2 ^ 31) (hm : m ≠ 0)
    {x : Ipv4TransportAddr} (hx : (poolMasks pool4)[p * m.toNat]? = some x)
    (result : ClientMaskDomain) : maskDomain pool4 p result m = domainAt m x := by
  rw [maskDomain, pool4Taddr4FindPos_of_lt hm hsmall hx]

theorem getNth_maskDomain (hdistinct : (poolMasks pool4).Nodup)
    (hsmall : (poolMasks pool4).length < 2 ^ 31) (hm : m ≠ 0) {x : Ipv4TransportAddr}
    (hx : (poolMasks pool4)[p * m.toNat]? = some x) (domain : ClientMaskDomain) (n : Word)
    (result : Ipv4TransportAddr) :
    pool4GetNthTaddr pool4 (maskDomain pool4 p domain m) n result =
      some ((if EndsEntry pool4 x then none
        else (poolMasks pool4)[p * m.toNat + n.toNat % m.toNat]?).elim
          (-ESRCH, result) ((0, ·))) := by
  rw [maskDomain_eq hsmall hm hx, pool4GetNthTaddr_eq hm hdistinct hx]

theorem getNth_mem_block (hdistinct : (poolMasks pool4).Nodup)
    (hsmall : (poolMasks pool4).length < 2 ^ 31) (hm : m ≠ 0)
    (hp : p * m.toNat < (poolMasks pool4).length) {domain : ClientMaskDomain} {n : Word}
    {result y : Ipv4TransportAddr}
    (hy : pool4GetNthTaddr pool4 (maskDomain pool4 p domain m) n result = some (0, y)) :
    y ∈ block m.toNat p (poolMasks pool4) := by
  have hx := List.getElem?_eq_getElem hp
  rw [getNth_maskDomain hdistinct hsmall hm hx] at hy
  split_ifs at hy with hends
  · simp [ESRCH] at hy
  · cases hget : (poolMasks pool4)[p * m.toNat + n.toNat % m.toNat]? with
    | none => simp [hget, ESRCH] at hy
    | some z =>
      have hzy : z = y := by simpa [hget] using hy
      have hoffset : n.toNat % m.toNat < m.toNat :=
        Nat.mod_lt _ (BlockScan.toNat_pos hm)
      exact mem_block.mpr ⟨_, hoffset, hzy ▸ hget⟩

/-- Masks read through the domains of two positions differ, each in its own block. -/
theorem maskDomains_isolated (hdistinct : (poolMasks pool4).Nodup)
    (hsmall : (poolMasks pool4).length < 2 ^ 31) (hm : 1 ≤ m.toNat) {q : ℕ} (hpq : p ≠ q)
    (hp : p * m.toNat < (poolMasks pool4).length)
    (hq : q * m.toNat < (poolMasks pool4).length) (initp initq : ClientMaskDomain)
    (n1 n2 : Word) (result1 result2 x y : Ipv4TransportAddr)
    (hx : pool4GetNthTaddr pool4 (maskDomain pool4 p initp m) n1 result1 = some (0, x))
    (hy : pool4GetNthTaddr pool4 (maskDomain pool4 q initq m) n2 result2 = some (0, y)) :
    x ≠ y ∧ x ∈ block m.toNat p (poolMasks pool4) ∧
      y ∈ block m.toNat q (poolMasks pool4) := by
  have hm' := ne_zero_of_one_le hm
  have hxp := getNth_mem_block hdistinct hsmall hm' hp hx
  have hyq := getNth_mem_block hdistinct hsmall hm' hq hy
  refine ⟨?_, hxp, hyq⟩
  intro hxy
  subst hxy
  exact block_disjoint hdistinct hpq hxp hyq

theorem maskDomains_isolated_twoEntries :
    (⟨1, 4⟩ : Ipv4TransportAddr) ≠ ⟨2, 10⟩ ∧
      (⟨1, 4⟩ : Ipv4TransportAddr) ∈
        block 3 0 (poolMasks [⟨1, 1, 1, ⟨4, 6⟩⟩, ⟨2, 2, 2, ⟨9, 12⟩⟩]) ∧
      (⟨2, 10⟩ : Ipv4TransportAddr) ∈
        block 3 1 (poolMasks [⟨1, 1, 1, ⟨4, 6⟩⟩, ⟨2, 2, 2, ⟨9, 12⟩⟩]) :=
  maskDomains_isolated (m := 3) (p := 0) (q := 1) (by decide) (by decide) (by decide)
    (by decide) (by decide) (by decide) ⟨⟨0, 0⟩, 0, 0⟩ ⟨⟨0, 0⟩, 0, 0⟩ 3 7 ⟨0, 0⟩ ⟨0, 0⟩ _ _ (by decide) (by decide)

/-- What the consumer owes for offset `n`: the pool element at `p * m + n % m`, or
`-ESRCH` when the pool ends before it. -/
def EnumeratesBlock (pool4 : Pool4) (p : ℕ) (m : Word) (domain : ClientMaskDomain)
    (n : Word) (result : Ipv4TransportAddr) : Prop :=
  pool4GetNthTaddr pool4 (maskDomain pool4 p domain m) n result =
    if ((p * m.toNat + n.toNat % m.toNat : ℕ) : ℤ) < (pool4Count pool4).toInt then
      (poolMasks pool4)[p * m.toNat + n.toNat % m.toNat]?.map ((0, ·))
    else some (-ESRCH, result)

/-- The consumer meets this exactly when the block does not begin at the last port of
an entry, or the asked offset lies behind the pool's end anyway. -/
theorem enumeratesBlock_iff (hordered : OrderedRanges pool4)
    (hdistinct : (poolMasks pool4).Nodup) (hsmall : (poolMasks pool4).length < 2 ^ 31)
    (hm : 1 ≤ m.toNat) (hp : ((p * m.toNat : ℕ) : ℤ) < (pool4Count pool4).toInt)
    (domain : ClientMaskDomain) (n : Word) (result : Ipv4TransportAddr) :
    EnumeratesBlock pool4 p m domain n result ↔
      (∀ x, (poolMasks pool4)[p * m.toNat]? = some x → ¬EndsEntry pool4 x) ∨
        (poolMasks pool4).length ≤ p * m.toNat + n.toNat % m.toNat := by
  rw [pool4Count_toInt hordered hsmall, Int.ofNat_lt] at hp
  have hx := List.getElem?_eq_getElem hp
  rw [EnumeratesBlock, getNth_maskDomain hdistinct hsmall (ne_zero_of_one_le hm) hx,
    pool4Count_toInt hordered hsmall, hx]
  simp only [Int.ofNat_lt, Option.some.injEq, forall_eq']
  by_cases hlt : p * m.toNat + n.toNat % m.toNat < (poolMasks pool4).length
  · rw [if_pos hlt, List.getElem?_eq_getElem hlt]
    by_cases hends : EndsEntry pool4 (poolMasks pool4)[p * m.toNat]
    · simp [hends, ESRCH, hlt]
    · simp [hends]
  · have hnone := List.getElem?_eq_none (Nat.le_of_not_lt hlt)
    rw [if_neg hlt, hnone]
    simp [Nat.le_of_not_lt hlt]

theorem enumeratesBlock_iff_twoEntries :
    EnumeratesBlock [⟨1, 1, 1, ⟨4, 6⟩⟩, ⟨2, 2, 2, ⟨9, 12⟩⟩] 1 3 ⟨⟨0, 0⟩, 0, 0⟩ 7 ⟨0, 0⟩ := by
  apply (enumeratesBlock_iff (by decide) (by decide) (by decide) (by decide) (by decide)
    _ _ _).mpr
  refine Or.inl ?_
  intro x hx
  have hport : (poolMasks [⟨1, 1, 1, ⟨4, 6⟩⟩, ⟨2, 2, 2, ⟨9, 12⟩⟩])[1 * (3 : Word).toNat]? =
      some ⟨2, 9⟩ := by decide
  cases hport.symm.trans hx
  decide

/-- A pool of one port: the only block begins at the last port of its entry. -/
theorem singlePort_not_enumerated :
    OrderedRanges [⟨6, 6, 6, ⟨100, 100⟩⟩] ∧
      (poolMasks [⟨6, 6, 6, ⟨100, 100⟩⟩]).Nodup ∧
      (poolMasks [⟨6, 6, 6, ⟨100, 100⟩⟩]).length < 2 ^ 31 ∧
      ((0 * (1 : Word).toNat : ℕ) : ℤ) < (pool4Count [⟨6, 6, 6, ⟨100, 100⟩⟩]).toInt ∧
      ¬EnumeratesBlock [⟨6, 6, 6, ⟨100, 100⟩⟩] 0 1 ⟨⟨0, 0⟩, 0, 0⟩ 0 ⟨0, 0⟩ := by
  unfold EnumeratesBlock
  decide

end

end MaskPool
