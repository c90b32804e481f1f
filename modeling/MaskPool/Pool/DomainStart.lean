import MaskPool.Foundations.BlockScan
import MaskPool.Pool.Enumeration

/-!
# Where `pool4_taddr4_find_pos` puts a domain

The nested loops are one `BlockScan` over `poolMasks`. In a pool of at most `2 ^ 32`
ports the domain of position `p` starts at pool index `p * m`; when that index does
not exist, the call still returns 0 and leaves `*result` alone.
-/

namespace MaskPool

open BlockScan

def domainAt (m : Word) (first : Ipv4TransportAddr) : ClientMaskDomain :=
  { first := first, step := 1, count := m }

def FindPosState.toScan (s : FindPosState) : BlockScan 32 ClientMaskDomain :=
  { counter := s.counter, opened := s.portsPos, out := s.result }

theorem findPosPort_toScan (p m : Word) (entry : Pool4Entry) (s : FindPosState) (i : ℕ) :
    (findPosPort p m entry s i).toScan =
      step m p (domainAt m) s.toScan { l3 := entry.addr, l4 := BitVec.ofNat 16 i } := by
  unfold findPosPort step
  by_cases h : s.counter % m = 0
  · rw [if_pos h, if_pos (show s.toScan.counter % m = 0 from h)]
    rfl
  · rw [if_neg h, if_neg (show ¬s.toScan.counter % m = 0 from h)]
    rfl

theorem foldl_findPosPort_toScan (p m : Word) (pool4 : Pool4) (s : FindPosState) :
    (pool4.foldl (fun s entry => (entryPorts entry).foldl (findPosPort p m entry) s)
      s).toScan = (poolMasks pool4).foldl (step m p (domainAt m)) s.toScan := by
  induction pool4 generalizing s with
  | nil => rfl
  | cons entry rest ih =>
    rw [List.foldl_cons, ih, poolMasks_cons, List.foldl_append, entryMasks, List.foldl_map,
      List.foldl_hom FindPosState.toScan fun s i => (findPosPort_toScan p m entry s i).symm]

theorem findPosLoops_toScan (pool4 : Pool4) (p : Word) (result : ClientMaskDomain) (m : Word) :
    (findPosLoops pool4 p result m).toScan =
      (poolMasks pool4).foldl (step m p (domainAt m))
        { counter := 0, opened := 0, out := result } :=
  foldl_findPosPort_toScan p m pool4 { portsPos := 0, counter := 0, result := result }

/-- The mask `pool4_taddr4_find_pos` writes for position `p`, if it writes any. -/
def domainStart (pool4 : Pool4) (p m : Word) : Option Ipv4TransportAddr :=
  (lastOpening m p (poolMasks pool4).length).bind fun k => (poolMasks pool4)[k]?

theorem pool4Taddr4FindPos_eq (pool4 : Pool4) (p : Word) (result : ClientMaskDomain)
    {m : Word} (hm : m ≠ 0) :
    pool4Taddr4FindPos pool4 p result m =
      (0, (domainStart pool4 p m).elim result (domainAt m)) := by
  have hscan := findPosLoops_toScan pool4 p result m
  rw [foldl_step] at hscan
  rw [pool4Taddr4FindPos, if_neg hm]
  exact congrArg (fun s => ((0 : ℤ), s.out)) hscan

theorem domainStart_eq {pool4 : Pool4} {p : ℕ} {m : Word} (hm : m ≠ 0)
    (hsmall : (poolMasks pool4).length ≤ 2 ^ 32) (hp : p < 2 ^ 32) :
    domainStart pool4 (BitVec.ofNat 32 p) m = (poolMasks pool4)[p * m.toNat]? := by
  rw [domainStart, lastOpening_eq hm hsmall hp]
  split_ifs with hlt
  · rfl
  · rw [List.getElem?_eq_none (by omega)]
    rfl

theorem domainStart_isSome {pool4 : Pool4} {p : ℕ} {m : Word} (hm : m ≠ 0)
    (hp : p < 2 ^ 32) (hstart : p * m.toNat < 2 ^ 32)
    (hlt : p * m.toNat < (poolMasks pool4).length) :
    ∃ x, domainStart pool4 (BitVec.ofNat 32 p) m = some x := by
  obtain ⟨k, hk⟩ := lastOpening_isSome hm hp hstart hlt
  have hlen := lastOpening_lt m _ hk
  exact ⟨(poolMasks pool4)[k], by rw [domainStart, hk, Option.bind_some,
    List.getElem?_eq_getElem hlen]⟩

theorem ne_zero_of_one_le {m : Word} (hm : 1 ≤ m.toNat) : m ≠ 0 := by
  intro hzero
  rw [hzero] at hm
  cases hm

theorem position_lt {p n : ℕ} {m : Word} (hm : m ≠ 0) (h : p * m.toNat < n) : p < n :=
  (Nat.le_mul_of_pos_right p (toNat_pos hm)).trans_lt h

theorem pool4Taddr4FindPos_of_lt {pool4 : Pool4} {p : ℕ} {m : Word} (hm : m ≠ 0)
    (hsmall : (poolMasks pool4).length < 2 ^ 31) {x : Ipv4TransportAddr}
    (hx : (poolMasks pool4)[p * m.toNat]? = some x) (result : ClientMaskDomain) :
    pool4Taddr4FindPos pool4 (BitVec.ofNat 32 p) result m = (0, domainAt m x) := by
  have hlt : p * m.toNat < (poolMasks pool4).length := (List.getElem?_eq_some_iff.mp hx).1
  have hp := position_lt hm hlt
  rw [pool4Taddr4FindPos_eq _ _ _ hm, domainStart_eq hm (by omega) (by omega), hx]
  rfl

/-- The pool index whose mask the call for position `p` stores last. -/
def selectedIndex (pool4 : Pool4) (p m : Word) : Option ℕ :=
  lastOpening m p (poolMasks pool4).length

theorem selectedIndex_eq {pool4 : Pool4} {p : ℕ} {m : Word} (hm : m ≠ 0)
    (hsmall : (poolMasks pool4).length < 2 ^ 31)
    (hlt : p * m.toNat < (poolMasks pool4).length) :
    selectedIndex pool4 (BitVec.ofNat 32 p) m = some (p * m.toNat) := by
  have hp := position_lt hm hlt
  rw [selectedIndex, lastOpening_eq hm (by omega) (by omega), if_pos hlt]

/-- The call for a position whose block starts inside the pool writes the mask at index
`p * m`, and the positions up to the last block select the multiples of `m` below the
number of ports, each once and in order. -/
theorem pool4Taddr4FindPos_starts {pool4 : Pool4} {m : Word}
    (hsmall : (poolMasks pool4).length < 2 ^ 31) (hm : 1 ≤ m.toNat) :
    (∀ p : ℕ, p * m.toNat < (poolMasks pool4).length →
      selectedIndex pool4 (BitVec.ofNat 32 p) m = some (p * m.toNat) ∧
        ∃ x, (poolMasks pool4)[p * m.toNat]? = some x ∧ ∀ result,
          pool4Taddr4FindPos pool4 (BitVec.ofNat 32 p) result m =
            (0, { first := x, step := 1, count := m })) ∧
    (List.range (((poolMasks pool4).length + m.toNat - 1) / m.toNat)).map
        (fun p => selectedIndex pool4 (BitVec.ofNat 32 p) m) =
      ((List.range (poolMasks pool4).length).filter fun k => m.toNat ∣ k).map some := by
  have hm' := ne_zero_of_one_le hm
  constructor
  · intro p hlt
    have hx := List.getElem?_eq_getElem hlt
    exact ⟨selectedIndex_eq hm' hsmall hlt, _, hx, pool4Taddr4FindPos_of_lt hm' hsmall hx⟩
  · rw [Blocks.filter_dvd_range hm, List.map_map]
    apply List.map_congr_left
    intro p hp
    have hblock : (p + 1) * m.toNat ≤ (poolMasks pool4).length + m.toNat - 1 :=
      (Nat.le_div_iff_mul_le hm).mp (List.mem_range.mp hp)
    rw [Nat.add_mul] at hblock
    exact selectedIndex_eq hm' hsmall (by omega)

theorem pool4Taddr4FindPos_starts_threePorts :
    (∀ p : ℕ, p * (2 : Word).toNat < (poolMasks [⟨1, 6, 9, ⟨5, 7⟩⟩]).length →
      selectedIndex [⟨1, 6, 9, ⟨5, 7⟩⟩] (BitVec.ofNat 32 p) 2 =
          some (p * (2 : Word).toNat) ∧
        ∃ x, (poolMasks [⟨1, 6, 9, ⟨5, 7⟩⟩])[p * (2 : Word).toNat]? = some x ∧ ∀ result,
          pool4Taddr4FindPos [⟨1, 6, 9, ⟨5, 7⟩⟩] (BitVec.ofNat 32 p) result 2 =
            (0, { first := x, step := 1, count := 2 })) ∧
    (List.range (((poolMasks [⟨1, 6, 9, ⟨5, 7⟩⟩]).length + (2 : Word).toNat - 1) /
          (2 : Word).toNat)).map
        (fun p => selectedIndex [⟨1, 6, 9, ⟨5, 7⟩⟩] (BitVec.ofNat 32 p) 2) =
      ((List.range (poolMasks [⟨1, 6, 9, ⟨5, 7⟩⟩]).length).filter
        fun k => (2 : Word).toNat ∣ k).map some :=
  pool4Taddr4FindPos_starts (by decide) (by decide)

end MaskPool
