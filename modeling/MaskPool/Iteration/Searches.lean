import MaskPool.Clients.History
import MaskPool.Iteration.AddressOrder
import MaskPool.Iteration.Samples
import MaskPool.Iteration.Turns

/-!
# Searching with the iterators

A callback that stops at what it looks for asks the same as the membership functions, from
whatever index the search starts: the loops of `pool4_contains`, `client_addr_exist` and
`client_exist` see exactly what the iterators hand out.
-/

namespace MaskPool

open Cycles Traversal

variable {α σ : Type} {pool4 : Pool4} {client : Client}

def searching (wanted : α → Bool) (x : α) (arg : σ) : ℤ × σ :=
  (if wanted x then 1 else 0, arg)

theorem untilStop_searching (wanted : α → Bool) (xs : List α) (arg : σ) :
    untilStop (searching wanted) xs arg = (if xs.any wanted then 1 else 0, arg) := by
  have hcode (x : α) (s : σ) : searching wanted x s = (if wanted x then 1 else 0, s) := rfl
  rw [untilStop_upTo hcode, List.foldl_fixed]

theorem mem_poolTuples {mask : Pool4Mask} :
    mask ∈ poolTuples pool4 ↔ ∃ entry ∈ pool4, ∃ i ∈ entryPorts entry,
      mask = { mark := entry.mark, proto := entry.proto, addr := entry.addr,
               port := BitVec.ofNat 16 i } := by
  simp only [poolTuples, entryTuples, List.mem_flatMap, List.mem_map, eq_comm (b := mask)]

theorem any_poolTuples (hordered : OrderedRanges pool4) (proto : BitVec 8) (addr : Word) :
    (poolTuples pool4).any (fun mask => proto == mask.proto && addr == mask.addr) =
      pool4.any fun entry => proto == entry.proto && addr == entry.addr := by
  rw [Bool.eq_iff_iff, List.any_eq_true, List.any_eq_true]
  constructor
  · intro h
    obtain ⟨mask, hmask, hwanted⟩ := h
    obtain ⟨entry, hentry, i, -, rfl⟩ := mem_poolTuples.mp hmask
    exact ⟨entry, hentry, hwanted⟩
  · intro h
    obtain ⟨entry, hentry, hwanted⟩ := h
    have hport : entry.range.min.toNat ∈ entryPorts entry :=
      mem_entryPorts.mpr ⟨Nat.le_refl _, hordered entry hentry⟩
    exact ⟨_, mem_poolTuples.mpr ⟨entry, hentry, _, hport, rfl⟩, hwanted⟩

/-- Looking for something with an iterator, from any index on, answers what the membership
function answers, on pools of ordered ranges and clients an `int` can count. -/
theorem searches_agree (host : Host) (hordered : OrderedRanges pool4)
    (hpool : 0 < (poolTuples pool4).length) (hmasks : (poolTuples pool4).length < 2 ^ 32)
    (hlen : LengthsWithin 97 128 client) (hclient : 0 < addressTotal client)
    (haddresses : addressTotal client < 2 ^ 31) (arg : σ) (offset : Word) :
    (∀ mark proto addr range,
      pool4ForeachTaddr4 pool4
          (searching fun mask => proto == mask.proto && addr == mask.addr) arg offset =
        some (if pool4Contains pool4 mark proto addr range then 1 else 0, arg)) ∧
    (∀ addr, clientForEach host client (searching fun a => addr == a) arg offset =
      some (if clientAddrExist host client addr then 1 else 0, arg)) ∧
    ∀ prefix6, clientForEachsample client (searching (prefix6Equals prefix6)) arg none =
      (if clientExist client prefix6 then 1 else 0, arg) := by
  have hoffset : BitVec.ofNat 32 offset.toNat = offset := by simp
  refine ⟨?_, ?_, ?_⟩
  · intro mark proto addr range
    rw [← hoffset, pool4ForeachTaddr4_rotate hordered hpool hmasks _ _ offset.isLt,
      untilStop_searching, any_rotate, any_poolTuples hordered]
    rfl
  · intro addr
    have hexist : (clientSequence host client).any (fun a => addr == a) =
        clientAddrExist host client addr := by
      rw [Bool.eq_iff_iff, clientAddrExist_iff_mem, loopAddresses_eq host hlen,
        List.any_beq]
      exact List.contains_iff_mem
    rw [← hoffset, clientForEach_rotate host hlen hclient haddresses _ _ offset.isLt,
      untilStop_searching, any_rotate, hexist]
  · intro prefix6
    rw [clientForEachsample, foreachSample_null, untilStop_searching]
    rfl

theorem searches_agree_threeEach :
    pool4ForeachTaddr4 [⟨1, 6, 9, ⟨5, 6⟩⟩, ⟨2, 6, 9, ⟨8, 8⟩⟩]
          (searching fun mask => 6 == mask.proto && 9 == mask.addr) () 2 =
        some (if pool4Contains [⟨1, 6, 9, ⟨5, 6⟩⟩, ⟨2, 6, 9, ⟨8, 8⟩⟩] 7 6 9 ⟨1, 1⟩ then 1 else 0,
          ()) ∧
      clientForEach Host.x86 [⟨⟨1, 0, 0, 0⟩, 127⟩, ⟨⟨2, 0, 0, 7⟩, 128⟩]
          (searching fun a => ⟨2, 0, 0, 8⟩ == a) () 2 =
        some (if clientAddrExist Host.x86 [⟨⟨1, 0, 0, 0⟩, 127⟩, ⟨⟨2, 0, 0, 7⟩, 128⟩]
          ⟨2, 0, 0, 8⟩ then 1 else 0, ()) := by
  have h := searches_agree Host.x86
    (by decide : OrderedRanges [⟨1, 6, 9, ⟨5, 6⟩⟩, ⟨2, 6, 9, ⟨8, 8⟩⟩]) (by decide) (by decide)
    (by decide : LengthsWithin 97 128 [⟨⟨1, 0, 0, 0⟩, 127⟩, ⟨⟨2, 0, 0, 7⟩, 128⟩])
    (by decide) (by decide) () 2
  exact ⟨h.1 7 6 9 ⟨1, 1⟩, h.2.1 ⟨2, 0, 0, 8⟩⟩

end MaskPool
