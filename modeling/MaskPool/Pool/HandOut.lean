import MaskPool.Iteration.MaskRotation
import MaskPool.Pool.NthMask

/-!
# Handing out the pool block by block

`pool4_taddr4_find_pos` finds the block of a position and `pool4_get_nth_taddr` its masks.
Over all positions and all indices they hand out the pool, each mask once and in the order
of `pool4_foreach_taddr4`, but for the blocks that start at the last port of an entry:
those are handed out empty.
-/

namespace MaskPool

open Blocks BlockScan Traversal

variable {pool4 : Pool4} {m : Word}

def nthOfBlock (pool4 : Pool4) (m : Word) (stack : ClientMaskDomain)
    (result : Ipv4TransportAddr) (p n : ℕ) : Option Ipv4TransportAddr :=
  let (_, domain) := pool4Taddr4FindPos pool4 (BitVec.ofNat 32 p) stack m
  match pool4GetNthTaddr pool4 domain (BitVec.ofNat 32 n) result with
  | some (0, taddr) => some taddr
  | _ => none

/-- What all positions are handed out, block after block. -/
def handOut (pool4 : Pool4) (m : Word) (stack : ClientMaskDomain)
    (result : Ipv4TransportAddr) : List Ipv4TransportAddr :=
  (List.range (((poolMasks pool4).length + m.toNat - 1) / m.toNat)).flatMap fun p =>
    (List.range m.toNat).filterMap (nthOfBlock pool4 m stack result p)

theorem filterMap_range_getElem? {α : Type*} (xs : List α) (m : ℕ) :
    (List.range m).filterMap (fun n => xs[n]?) = xs.take m := by
  induction m with
  | zero => simp
  | succ m ih =>
    rw [List.range_succ, List.filterMap_append, ih, List.take_add_one]
    cases h : xs[m]? <;> simp [h]

theorem nthOfBlock_eq (hdistinct : (poolMasks pool4).Nodup)
    (hsmall : (poolMasks pool4).length < 2 ^ 31) (hm : m ≠ 0) (stack : ClientMaskDomain)
    (result : Ipv4TransportAddr) {p : ℕ} {x : Ipv4TransportAddr}
    (hx : (poolMasks pool4)[p * m.toNat]? = some x) {n : ℕ} (hn : n < m.toNat) :
    nthOfBlock pool4 m stack result p n =
      if EndsEntry pool4 x then none else ((poolMasks pool4).drop (p * m.toNat))[n]? := by
  have hword : (BitVec.ofNat 32 n).toNat = n := toNat_ofNat_index (hn.trans m.isLt)
  rw [nthOfBlock, pool4Taddr4FindPos_of_lt hm hsmall hx]
  dsimp only
  rw [pool4GetNthTaddr_eq hm hdistinct hx, hword, Nat.mod_eq_of_lt hn, List.getElem?_drop]
  split_ifs
  · rfl
  · cases (poolMasks pool4)[p * m.toNat + n]? <;> rfl

theorem handedBlock_eq (hdistinct : (poolMasks pool4).Nodup)
    (hsmall : (poolMasks pool4).length < 2 ^ 31) (hm : m ≠ 0) (stack : ClientMaskDomain)
    (result : Ipv4TransportAddr) {p : ℕ} {x : Ipv4TransportAddr}
    (hx : (poolMasks pool4)[p * m.toNat]? = some x) :
    (List.range m.toNat).filterMap (nthOfBlock pool4 m stack result p) =
      if ¬EndsEntry pool4 x then block m.toNat p (poolMasks pool4) else [] := by
  have hcongr : (List.range m.toNat).filterMap (nthOfBlock pool4 m stack result p) =
      (List.range m.toNat).filterMap fun n =>
        if EndsEntry pool4 x then none else ((poolMasks pool4).drop (p * m.toNat))[n]? := by
    apply List.filterMap_congr
    intro n hn
    exact nthOfBlock_eq hdistinct hsmall hm stack result hx (List.mem_range.mp hn)
  rw [hcongr, block]
  split_ifs with hends
  · simp
  · exact filterMap_range_getElem? _ _

theorem lt_blocks_iff {n m p : ℕ} (hm : 0 < m) : p < (n + m - 1) / m ↔ p * m < n := by
  rw [Nat.lt_iff_add_one_le, Nat.le_div_iff_mul_le hm, Nat.add_one_mul]
  omega

theorem handOut_eq_iff (hdistinct : (poolMasks pool4).Nodup)
    (hsmall : (poolMasks pool4).length < 2 ^ 31) (hm : m ≠ 0) (stack : ClientMaskDomain)
    (result : Ipv4TransportAddr) :
    handOut pool4 m stack result = poolMasks pool4 ↔
      ∀ p x, (poolMasks pool4)[p * m.toNat]? = some x → ¬EndsEntry pool4 x := by
  classical
  let opens (p : ℕ) : Prop :=
    ∀ x, (poolMasks pool4)[p * m.toNat]? = some x → ¬EndsEntry pool4 x
  let q := ((poolMasks pool4).length + m.toNat - 1) / m.toNat
  have hpos : 0 < m.toNat := toNat_pos hm
  have hstart {p : ℕ} (hp : p < q) : ∃ x, (poolMasks pool4)[p * m.toNat]? = some x :=
    ⟨_, List.getElem?_eq_getElem ((lt_blocks_iff hpos).mp hp)⟩
  have hhanded : handOut pool4 m stack result = (List.range q).flatMap fun p =>
      if opens p then block m.toNat p (poolMasks pool4) else [] := by
    apply List.flatMap_congr
    intro p hp
    obtain ⟨x, hx⟩ := hstart (List.mem_range.mp hp)
    have hopens : opens p ↔ ¬EndsEntry pool4 x := by simp [opens, hx]
    simp only [handedBlock_eq hdistinct hsmall hm stack result hx, hopens]
  have hnonempty (p : ℕ) (hp : p < q) : block m.toNat p (poolMasks pool4) ≠ [] := by
    obtain ⟨x, hx⟩ := hstart hp
    exact List.ne_nil_of_mem (getElem?_mem_block hpos hx)
  have hall : (poolMasks pool4).take (q * m.toNat) = poolMasks pool4 := by
    apply List.take_of_length_le
    have hlast := (lt_blocks_iff (n := (poolMasks pool4).length) (p := q) hpos).not.mp
      (Nat.lt_irrefl q)
    omega
  have hiff : ((List.range q).flatMap fun p =>
      if opens p then block m.toNat p (poolMasks pool4) else []) = _ ↔ ∀ p < q, opens p :=
    flatMap_kept_iff hnonempty
  rw [hall, ← hhanded] at hiff
  rw [hiff]
  constructor
  · intro h p x hx
    exact h p ((lt_blocks_iff hpos).mpr (List.getElem?_eq_some_iff.mp hx).1) x hx
  · intro h p _
    exact h p

/-- The masks handed out block by block are the masks `pool4_foreach_taddr4` visits, in its
order, exactly when no block starts at the last port of an entry. -/
theorem blocks_enumerate_iff (hdistinct : (poolMasks pool4).Nodup)
    (hsmall : (poolMasks pool4).length < 2 ^ 31) (hm : m ≠ 0) (stack : ClientMaskDomain)
    (result : Ipv4TransportAddr) :
    (pool4ForeachTaddr4 pool4 (recording fun _ s => (0, s)) ((), []) 0).map (fun answer =>
        answer.2.2.map fun mask => { l3 := mask.addr, l4 := mask.port }) =
        some (handOut pool4 m stack result) ↔
      ∀ p x, (poolMasks pool4)[p * m.toNat]? = some x → ¬EndsEntry pool4 x := by
  have hunstopped : untilStop (fun _ s => ((0 : ℤ), s)) (poolTuples pool4) () = (0, ()) := by
    induction poolTuples pool4 with
    | nil => rfl
    | cons mask masks ih => exact ih
  have hreduce : reduceOffset 0 (pool4Count pool4) = some 0 := if_neg BitVec.not_lt_zero
  rw [pool4ForeachTaddr4_eq, hreduce, Option.map_some, visitOrder_zero, untilStop_recording,
    visited_eq_self (congrArg Prod.fst hunstopped), Option.map_some, List.nil_append,
    map_poolTuples, Option.some.injEq, eq_comm]
  exact handOut_eq_iff hdistinct hsmall hm stack result

theorem blocks_enumerate_iff_fourPorts :
    (pool4ForeachTaddr4 [⟨1, 6, 9, ⟨4, 7⟩⟩] (recording fun _ s => (0, s)) ((), []) 0).map
        (fun answer => answer.2.2.map fun mask => { l3 := mask.addr, l4 := mask.port }) =
      some (handOut [⟨1, 6, 9, ⟨4, 7⟩⟩] 2 (domainAt 0 ⟨0, 0⟩) ⟨0, 0⟩) ∧
    ¬(pool4ForeachTaddr4 [⟨1, 6, 9, ⟨4, 7⟩⟩] (recording fun _ s => (0, s)) ((), []) 0).map
        (fun answer => answer.2.2.map fun mask => { l3 := mask.addr, l4 := mask.port }) =
      some (handOut [⟨1, 6, 9, ⟨4, 7⟩⟩] 3 (domainAt 0 ⟨0, 0⟩) ⟨0, 0⟩) := by
  constructor
  · apply (blocks_enumerate_iff (by decide) (by decide) (by decide) _ _).mpr
    intro p x hx
    have hp : p < 2 := by
      have hlt : p * 2 < 4 := (List.getElem?_eq_some_iff.mp hx).1
      omega
    interval_cases p
    · obtain rfl : (⟨9, 4⟩ : Ipv4TransportAddr) = x := Option.some.inj hx
      decide
    · obtain rfl : (⟨9, 6⟩ : Ipv4TransportAddr) = x := Option.some.inj hx
      decide
  · intro h
    exact (blocks_enumerate_iff (by decide) (by decide) (by decide) _ _).mp h 1 ⟨9, 7⟩
      (by decide) (by decide)

end MaskPool
