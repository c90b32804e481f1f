import MaskPool.Assignment.Serving
import MaskPool.Foundations.Blocks

/-!
# How far `get_mask` searches a domain

A call owes its source the first mask of the block that the BIB has not, and the spool
mask once all are taken. The scan tries the block's first mask only, so it keeps this
promise when that one is free, or when there is nothing to hand out.
-/

namespace MaskPool

open Blocks BlockScan

variable {host : Host} {kmalloc : Bool} {client : Client} {call : MaskCall} {p : ℕ}

/-- What a call owes to position `p`: first fit in its block, and the spool mask for an
exhausted block alone. -/
def ExhaustsDomain (host : Host) (kmalloc : Bool) (client : Client) (call : MaskCall)
    (p : ℕ) : Prop :=
  (call.serve host kmalloc client).1 = 0 ∧
    (call.serve host kmalloc client).2.2 =
      firstFit bibdbContains4 spoolMask
        (block call.masksPerClient.toNat p (poolMasks call.cpool)) ∧
    ((call.serve host kmalloc client).2.2 = spoolMask →
      ∀ y ∈ block call.masksPerClient.toNat p (poolMasks call.cpool),
        bibdbContains4 y = true)

/-- The block's first mask is free and not 0.0.0.0:0, or no mask of the block is free.
Should the wrapping counters open the block once more at a later index `k`, the mask
there takes the place of the first one and is not part of the block. -/
def FirstMaskDecides (cpool : Pool4) (m : Word) (p : ℕ) : Prop :=
  ∃ k x, lastOpening m (BitVec.ofNat 32 p) (poolMasks cpool).length = some k ∧
    (poolMasks cpool)[k]? = some x ∧
      (k = p * m.toNat ∧ bibdbContains4 x = false ∧ x ≠ spoolMask ∨
        (∀ y ∈ block m.toNat p (poolMasks cpool), bibdbContains4 y = true) ∧
          (bibdbContains4 x = true ∨ x = spoolMask))

theorem offered_of_mem {cpool : Pool4} {x : Ipv4TransportAddr} (hx : x ∈ poolMasks cpool) :
    offered cpool x = if bibdbContains4 x then spoolMask else x := by
  unfold offered
  cases bibdbContains4 x <;> simp [hx]

theorem serve_of_start (hpool : call.cpool ≠ [])
    (hzero : (call.lookup host kmalloc client).1 = 0)
    (hp : position host (registered host kmalloc client call.saddr) call.saddr = some p)
    {x : Ipv4TransportAddr}
    (hx : domainStart call.cpool (BitVec.ofNat 32 p) call.masksPerClient = some x) :
    call.serve host kmalloc client =
      (0, registered host kmalloc client call.saddr, offered call.cpool x) := by
  obtain ⟨hcap, -, hm⟩ := clientGetMaskDomain_succeeds.mp hzero
  have hlookup : call.lookup host kmalloc client = (0, domainAt call.masksPerClient x) := by
    rw [MaskCall.lookup, clientGetMaskDomain_listed hcap hp hm, hx]
    rfl
  rw [serve_eq hpool, hlookup, if_neg (not_not.mpr rfl)]
  rfl

/-- On a duplicate-free pool a later opening of the block leaves the block. -/
theorem find?_block_eq_some_iff {cpool : Pool4} {m : Word} {k : ℕ}
    (hdistinct : (poolMasks cpool).Nodup) (hm : m ≠ 0) (hend : (p + 1) * m.toNat < 2 ^ 31)
    (hp : p < 2 ^ 32) {x : Ipv4TransportAddr}
    (hk : lastOpening m (BitVec.ofNat 32 p) (poolMasks cpool).length = some k)
    (hx : (poolMasks cpool)[k]? = some x) (hfree : bibdbContains4 x = false) :
    (block m.toNat p (poolMasks cpool)).find? (fun y => !bibdbContains4 y) = some x ↔
      k = p * m.toNat := by
  have hpos := toNat_pos hm
  constructor
  · intro hfind
    obtain ⟨j, hj, hxj⟩ := mem_block.mp (List.mem_of_find?_eq_some hfind)
    have hlen := (List.getElem?_eq_some_iff.mp hx).1
    have hkj : k = p * m.toNat + j :=
      (List.getElem?_inj hlen hdistinct).mp (hx.trans hxj.symm)
    have hlow : k < 2 ^ 32 := by
      rw [Nat.succ_mul] at hend
      omega
    exact (opens_block_iff hm hlow hp).mp (lastOpening_opens m _ hk)
  · rintro rfl
    obtain ⟨tail, htail⟩ := block_eq_cons hpos hx
    rw [htail, List.find?_cons, hfree]
    rfl

theorem firstMaskDecides_iff_of_small {cpool : Pool4} {m : Word} (hm : m ≠ 0)
    (hsmall : (poolMasks cpool).length ≤ 2 ^ 32)
    (hstart : p * m.toNat < (poolMasks cpool).length) (hp : p < 2 ^ 32) :
    FirstMaskDecides cpool m p ↔
      ∃ x, (poolMasks cpool)[p * m.toNat]? = some x ∧
        (bibdbContains4 x = false ∧ x ≠ spoolMask ∨
          ∀ y ∈ block m.toNat p (poolMasks cpool), bibdbContains4 y = true) := by
  have hk : lastOpening m (BitVec.ofNat 32 p) (poolMasks cpool).length =
      some (p * m.toNat) := by
    rw [lastOpening_eq hm hsmall hp, if_pos hstart]
  unfold FirstMaskDecides
  rw [hk]
  constructor
  · intro h
    obtain ⟨k, x, hk', hx, hdecides⟩ := h
    obtain rfl := Option.some.inj hk'
    refine ⟨x, hx, ?_⟩
    rcases hdecides with ⟨-, hfirst⟩ | ⟨hnothing, -⟩
    · exact Or.inl hfirst
    · exact Or.inr hnothing
  · intro h
    obtain ⟨x, hx, hfirst | hnothing⟩ := h
    · exact ⟨_, x, rfl, hx, Or.inl ⟨rfl, hfirst⟩⟩
    · have hmem := getElem?_mem_block (toNat_pos hm) hx
      exact ⟨_, x, rfl, hx, Or.inr ⟨hnothing, Or.inl (hnothing x hmem)⟩⟩

/-- A call exhausts its domain exactly when the one mask it tries decides the matter. -/
theorem exhaustsDomain_iff (hpool : call.cpool ≠ []) (hordered : OrderedRanges call.cpool)
    (hdistinct : (poolMasks call.cpool).Nodup)
    (hzero : (call.lookup host kmalloc client).1 = 0)
    (hp : position host (registered host kmalloc client call.saddr) call.saddr = some p)
    (hfits : (((p + 1) * call.masksPerClient.toNat : ℕ) : ℤ) ≤
      (pool4Count call.cpool).toInt) :
    ExhaustsDomain host kmalloc client call p ↔
      FirstMaskDecides call.cpool call.masksPerClient p := by
  obtain ⟨hcap, -, hm⟩ := clientGetMaskDomain_succeeds.mp hzero
  obtain ⟨-, hend, hp32⟩ := start_lt_of_block_le hordered hm hfits
  obtain ⟨k, x, hk, hx, hdomain⟩ := domainStart_of_block_le hordered hm hfits
  rw [ExhaustsDomain, serve_of_start hpool hzero hp hdomain,
    offered_of_mem (List.mem_of_getElem? hx)]
  simp only [true_and]
  rw [tryOne_eq_firstFit_iff]
  constructor
  · rintro (⟨hfree, hspool, hfind⟩ | hnothing)
    · have hstart := (find?_block_eq_some_iff hdistinct hm hend hp32 hk hx hfree).mp hfind
      exact ⟨k, x, hk, hx, Or.inl ⟨hstart, hfree, hspool⟩⟩
    · exact ⟨k, x, hk, hx, Or.inr hnothing⟩
  · intro h
    obtain ⟨k', x', hk', hx', hdecides⟩ := h
    obtain rfl : k' = k := by
      rw [hk] at hk'
      exact (Option.some.inj hk').symm
    obtain rfl : x' = x := by
      rw [hx] at hx'
      exact (Option.some.inj hx').symm
    rcases hdecides with ⟨hstart, hfree, hspool⟩ | hnothing
    · have hfind := (find?_block_eq_some_iff hdistinct hm hend hp32 hk hx hfree).mpr hstart
      exact Or.inl ⟨hfree, hspool, hfind⟩
    · exact Or.inr hnothing

theorem exhaustsDomain_iff_fourPorts :
    ExhaustsDomain Host.x86 true [⟨⟨0, 0, 0, 1⟩, 128⟩]
      (MaskCall.plain ⟨0, 0, 0, 1⟩ [⟨1, 6, 9, ⟨4, 7⟩⟩] 2) 0 :=
  (exhaustsDomain_iff (by decide) (by decide) (by decide) (by decide) (by decide)
    (by decide)).mpr ⟨0, ⟨9, 4⟩, by decide, by decide, Or.inl (by decide)⟩

def oddFirstCall : MaskCall :=
  MaskCall.plain ⟨0, 0, 0, 1⟩ [⟨1, 6, 9, ⟨5, 6⟩⟩] 2

/-- Port 5 is taken, port 6 is free, and the spool mask is handed out. -/
theorem secondMask_untried :
    OrderedRanges oddFirstCall.cpool ∧ (poolMasks oddFirstCall.cpool).Nodup ∧
      (oddFirstCall.lookup Host.x86 true [⟨⟨0, 0, 0, 1⟩, 128⟩]).1 = 0 ∧
      position Host.x86 (registered Host.x86 true [⟨⟨0, 0, 0, 1⟩, 128⟩] oddFirstCall.saddr)
        oddFirstCall.saddr = some 0 ∧
      (((0 + 1) * oddFirstCall.masksPerClient.toNat : ℕ) : ℤ) ≤
        (pool4Count oddFirstCall.cpool).toInt ∧
      block oddFirstCall.masksPerClient.toNat 0 (poolMasks oddFirstCall.cpool) =
        [⟨9, 5⟩, ⟨9, 6⟩] ∧
      oddFirstCall.serve Host.x86 true [⟨⟨0, 0, 0, 1⟩, 128⟩] =
        (0, [⟨⟨0, 0, 0, 1⟩, 128⟩], spoolMask) ∧
      ¬ExhaustsDomain Host.x86 true [⟨⟨0, 0, 0, 1⟩, 128⟩] oddFirstCall 0 := by
  refine ⟨by decide, by decide, by decide, by decide, by decide, by decide, by decide, ?_⟩
  intro h
  exact absurd h.2.1 (by decide)

end MaskPool
