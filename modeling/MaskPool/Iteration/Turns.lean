import MaskPool.Foundations.Cycles
import MaskPool.Iteration.ClientRotation
import MaskPool.Iteration.MaskRotation

/-!
# Iterating on where the last call stopped

Both iterators by index can be called again at the index behind what was visited. Such
calls go round the database as one endless traversal, wherever the callbacks stop them,
and no mask and no address is left behind.
-/

namespace MaskPool

open Traversal Cycles

variable {pool4 : Pool4} {client : Client} {σ : Type}

theorem pool4ForeachTaddr4_rotate (hordered : OrderedRanges pool4)
    (hpos : 0 < (poolTuples pool4).length) (hsmall : (poolTuples pool4).length < 2 ^ 32)
    (cback : Pool4Mask → σ → ℤ × σ) (arg : σ) {o : ℕ} (ho : o < 2 ^ 32) :
    pool4ForeachTaddr4 pool4 cback arg (BitVec.ofNat 32 o) =
      some (untilStop cback ((poolTuples pool4).rotate o) arg) := by
  have hlen := pool4Count_toNat hordered rfl hsmall
  have hne : pool4Count pool4 ≠ 0 := by
    intro hzero
    rw [hzero] at hlen
    exact absurd hlen.symm (Nat.pos_iff_ne_zero.mp hpos)
  obtain ⟨start, hstart, hle, hmod⟩ := reduceOffset_rotate hne (BitVec.ofNat 32 o)
  rw [hlen] at hle hmod
  rw [toNat_ofNat_index ho] at hmod
  rw [pool4ForeachTaddr4_eq, hstart, Option.map_some, visitOrder_rotate hsmall hle, hmod,
    List.rotate_mod]

theorem clientForEach_rotate (host : Host) (hlen : LengthsWithin 97 128 client)
    (hpos : 0 < addressTotal client) (hsmall : addressTotal client < 2 ^ 31)
    (cb : In6Addr → σ → ℤ × σ) (arg : σ) {o : ℕ} (ho : o < 2 ^ 32) :
    clientForEach host client cb arg (BitVec.ofNat 32 o) =
      some (untilStop cb ((clientSequence host client).rotate o) arg) := by
  have hcount : (clientCount host client).toNat = addressTotal client := by
    rw [clientCount_toNat, machineTotal_eq hlen, Nat.mod_eq_of_lt (by omega)]
  have hwalk := loopAddresses_eq host hlen
  have hsize := length_clientSequence host client
  rw [← hwalk] at hsize ⊢
  rw [clientForEach_eq hcount hsize hpos hsmall, toNat_ofNat_index ho, ← hsize,
    List.rotate_mod]

end MaskPool
