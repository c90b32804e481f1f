import MaskPool.Model.Iteration
import MaskPool.Pool.Enumeration

/-!
# `pool4_foreach_taddr4` is a rotation

The two passes over the pool are one traversal: first the masks whose index is at least
the offset, then those below it. While the `int` index does not wrap, that is the pool
rotated by the offset, and the traversal stops where the callback says so.
-/

namespace MaskPool

open Traversal

def entryTuples (entry : Pool4Entry) : List Pool4Mask :=
  (entryPorts entry).map fun i =>
    { mark := entry.mark, proto := entry.proto, addr := entry.addr, port := BitVec.ofNat 16 i }

/-- The (mark, proto, addr, port) of the pool in pool order. -/
def poolTuples (pool4 : Pool4) : List Pool4Mask := pool4.flatMap entryTuples

@[simp] theorem poolTuples_cons (entry : Pool4Entry) (rest : Pool4) :
    poolTuples (entry :: rest) = entryTuples entry ++ poolTuples rest := rfl

theorem map_poolTuples (pool4 : Pool4) :
    (poolTuples pool4).map (fun mask => { l3 := mask.addr, l4 := mask.port }) =
      poolMasks pool4 := by
  simp only [poolTuples, poolMasks, List.map_flatMap, entryTuples, List.map_map]
  rfl

theorem length_poolTuples (pool4 : Pool4) :
    (poolTuples pool4).length = (poolMasks pool4).length := by
  rw [← map_poolTuples, List.length_map]

variable {σ : Type*} {pool4 : Pool4} {cback : Pool4Mask → σ → ℤ × σ} {arg : σ}

def taddr4Step (visits : Word → Bool) (cback : Pool4Mask → σ → ℤ × σ) (s : Taddr4State σ)
    (mask : Pool4Mask) : Except (ℤ × σ) (Taddr4State σ) :=
  if visits s.indx then do
    let arg ← callBack cback mask s.arg
    return { indx := s.indx + 1, arg := arg }
  else return { s with indx := s.indx + 1 }

theorem foldlM_taddr4Step (visits : Word → Bool) (cback : Pool4Mask → σ → ℤ × σ)
    (masks : List Pool4Mask) (k : ℕ) (arg : σ) :
    masks.foldlM (taddr4Step visits cback) { indx := BitVec.ofNat 32 k, arg := arg } =
      (settle (untilStop cback (selectFrom visits k masks) arg)).map
        fun arg => { indx := BitVec.ofNat 32 (k + masks.length), arg := arg } := by
  induction masks generalizing k arg with
  | nil => rfl
  | cons mask masks ih =>
    have hnext : BitVec.ofNat 32 k + 1 = BitVec.ofNat 32 (k + 1) := (BitVec.ofNat_add k 1).symm
    have hindex : k + 1 + masks.length = k + (mask :: masks).length := by
      rw [List.length_cons]
      omega
    rw [List.foldlM_cons, taddr4Step, selectFrom]
    by_cases hvisit : visits (BitVec.ofNat 32 k)
    · rw [if_pos hvisit, if_pos hvisit, settle_untilStop_cons, hnext, callBack]
      cases settle (cback mask arg) with
      | error returned => rfl
      | ok arg =>
        rw [← hindex]
        exact ih (k + 1) arg
    · rw [if_neg hvisit, if_neg hvisit, hnext, ← hindex]
      exact ih (k + 1) arg

theorem taddr4Pass_eq (visits : Word → Bool) (pool4 : Pool4)
    (cback : Pool4Mask → σ → ℤ × σ) (arg : σ) :
    taddr4Pass visits pool4 cback arg =
      (settle (untilStop cback (selectFrom visits 0 (poolTuples pool4)) arg)).map
        fun arg => { indx := BitVec.ofNat 32 (poolTuples pool4).length, arg := arg } := by
  have hflat : taddr4Pass visits pool4 cback arg =
      (poolTuples pool4).foldlM (taddr4Step visits cback) { indx := 0, arg := arg } := by
    rw [poolTuples, foldlM_flatMap]
    simp only [entryTuples, List.foldlM_map]
    rfl
  have hfold := foldlM_taddr4Step visits cback (poolTuples pool4) 0 arg
  rw [Nat.zero_add] at hfold
  exact hflat.trans hfold

/-- The masks in the order in which a reduced offset has them visited. -/
def visitOrder (offset : Word) (masks : List Pool4Mask) : List Pool4Mask :=
  selectFrom (fun indx => offset ≤ indx) 0 masks ++
    selectFrom (fun indx => indx < offset) 0 masks

theorem visitOrder_zero (masks : List Pool4Mask) : visitOrder 0 masks = masks := by
  have hall : selectFrom (fun indx : Word => 0 ≤ indx) 0 masks = masks := by
    apply selectFrom_all
    intro indx
    exact decide_eq_true (Nat.zero_le _)
  have hnone : selectFrom (fun indx : Word => indx < 0) 0 masks = [] := by
    apply selectFrom_none
    intro indx
    simp
  rw [visitOrder, hall, hnone, List.append_nil]

/-- For every pool, however long, the function is one traversal in `visitOrder`. -/
theorem pool4ForeachTaddr4_eq (pool4 : Pool4) (cback : Pool4Mask → σ → ℤ × σ) (arg : σ)
    (offset : Word) :
    pool4ForeachTaddr4 pool4 cback arg offset =
      (reduceOffset offset (pool4Count pool4)).map fun offset =>
        untilStop cback (visitOrder offset (poolTuples pool4)) arg := by
  unfold pool4ForeachTaddr4
  cases reduceOffset offset (pool4Count pool4) with
  | none => rfl
  | some offset =>
    simp only [taddr4Pass_eq, Option.map_some, visitOrder, untilStop_append]
    cases settle (untilStop cback (selectFrom (fun indx => offset ≤ indx) 0
      (poolTuples pool4)) arg) with
    | error returned => rfl
    | ok arg =>
      simp only [Except.map]
      by_cases hzero : offset = 0
      · have hnone : selectFrom (fun indx => indx < offset) 0 (poolTuples pool4) = [] := by
          apply selectFrom_none
          intro indx
          simp [hzero]
        rw [if_pos hzero, hnone]
        rfl
      · rw [if_neg hzero]
        generalize untilStop cback
          (selectFrom (fun indx => indx < offset) 0 (poolTuples pool4)) arg = answer
        by_cases hstop : answer.1 = 0
        · rw [settle_zero hstop, ← hstop]
        · rw [settle_ne hstop]

theorem pool4Count_toNat {n : ℕ} (hordered : OrderedRanges pool4)
    (hlen : (poolTuples pool4).length = n) (hsmall : n < 2 ^ 32) :
    (pool4Count pool4).toNat = n := by
  rw [length_poolTuples] at hlen
  rw [pool4Count_eq hordered, hlen]
  exact toNat_ofNat_index hsmall

/-- The reduced offset is at most the count and starts the same rotation. An offset equal
to the count is not reduced: then the first pass visits nothing. -/
theorem reduceOffset_rotate {entries : Word} (hpos : entries ≠ 0) (offset : Word) :
    ∃ start, reduceOffset offset entries = some start ∧ start.toNat ≤ entries.toNat ∧
      start.toNat % entries.toNat = offset.toNat % entries.toNat := by
  unfold reduceOffset
  by_cases hgt : offset > entries
  · have hmod : (offset % entries).toNat = offset.toNat % entries.toNat := BitVec.toNat_umod
    have hlt : offset.toNat % entries.toNat < entries.toNat := by
      apply Nat.mod_lt
      rw [Nat.pos_iff_ne_zero]
      intro hzero
      exact hpos (BitVec.eq_of_toNat_eq hzero)
    refine ⟨offset % entries, by rw [if_pos hgt, if_neg hpos], ?_, ?_⟩
    · rw [hmod]
      exact hlt.le
    · rw [hmod, Nat.mod_mod]
  · exact ⟨offset, by rw [if_neg hgt], BitVec.not_lt.mp hgt, rfl⟩

theorem visitOrder_rotate {offset : Word} {masks : List Pool4Mask}
    (hsmall : masks.length < 2 ^ 32) (hoffset : offset.toNat ≤ masks.length) :
    visitOrder offset masks = masks.rotate (offset.toNat % masks.length) := by
  rw [visitOrder, selectFrom_rotate masks hsmall.le hoffset, List.rotate_mod]

/-- The callback meets the masks of the pool rotated left by the offset, each index once,
up to the first mask it stops at, and its answer is the function's. -/
theorem pool4ForeachTaddr4_rotates (hordered : OrderedRanges pool4)
    (hcount : 1 ≤ (pool4Count pool4).toInt) (hsmall : (poolTuples pool4).length < 2 ^ 32)
    (cback : Pool4Mask → σ → ℤ × σ) (arg : σ) (offset : Word) :
    pool4ForeachTaddr4 pool4 cback arg offset =
        some (untilStop cback ((poolTuples pool4).rotate
          (offset.toNat % (pool4Count pool4).toNat)) arg) ∧
      (pool4ForeachTaddr4 pool4 (recording cback) (arg, []) offset).map (·.2.2) =
        some (visited cback ((poolTuples pool4).rotate
          (offset.toNat % (pool4Count pool4).toNat)) arg) := by
  have hlen := pool4Count_toNat hordered rfl hsmall
  have hpos : pool4Count pool4 ≠ 0 := by
    intro hzero
    rw [hzero] at hcount
    exact absurd hcount (by decide)
  obtain ⟨start, hstart, hle, hmod⟩ := reduceOffset_rotate hpos offset
  rw [hlen] at hle hmod
  have horder := visitOrder_rotate hsmall hle
  rw [hmod, ← hlen] at horder
  constructor
  · rw [pool4ForeachTaddr4_eq, hstart, Option.map_some, horder]
  · rw [pool4ForeachTaddr4_eq, hstart, Option.map_some, horder, untilStop_recording]
    rfl

theorem pool4ForeachTaddr4_rotates_threePorts :
    pool4ForeachTaddr4 [⟨1, 6, 9, ⟨5, 6⟩⟩, ⟨2, 6, 9, ⟨8, 8⟩⟩]
          (fun mask sum => (if mask.port = 8 then 7 else 0, sum + mask.port.toNat)) 0 4 =
        some (7, 14) ∧
      (pool4ForeachTaddr4 [⟨1, 6, 9, ⟨5, 6⟩⟩, ⟨2, 6, 9, ⟨8, 8⟩⟩]
          (recording fun mask sum => (if mask.port = 8 then 7 else 0, sum + mask.port.toNat))
          (0, []) 4).map (·.2.2) = some [⟨1, 6, 9, 6⟩, ⟨2, 6, 9, 8⟩] := by
  obtain ⟨hrun, hvisited⟩ :=
    pool4ForeachTaddr4_rotates (by decide : OrderedRanges [⟨1, 6, 9, ⟨5, 6⟩⟩, ⟨2, 6, 9, ⟨8, 8⟩⟩])
      (by decide) (by decide)
      (fun mask sum => (if mask.port = 8 then 7 else 0, sum + mask.port.toNat)) 0 4
  exact ⟨hrun.trans (by decide), hvisited.trans (by decide)⟩

/-- 65536 ports under mark 1, then `2 ^ 32` ports under mark 2. -/
def overlongPool : Pool4 :=
  ⟨1, 6, 9, ⟨0, 65535⟩⟩ :: List.replicate 65536 ⟨2, 6, 9, ⟨0, 65535⟩⟩

theorem pool4Count_overlongPool : pool4Count overlongPool = 65536 := by
  have hreplicate := pool4Count_replicate 65536 ⟨2, 6, 9, ⟨0, 65535⟩⟩ []
  rw [List.append_nil] at hreplicate
  rw [overlongPool, pool4Count_cons, hreplicate]
  decide

theorem entryTuples_full (mark : Word) :
    ∃ masks, entryTuples ⟨mark, 6, 9, ⟨0, 65535⟩⟩ = ⟨mark, 6, 9, 0⟩ :: masks ∧
      masks.length = 65535 := by
  refine ⟨(List.range' 1 65535).map fun i => ⟨mark, 6, 9, BitVec.ofNat 16 i⟩, rfl, ?_⟩
  rw [List.length_map, List.length_range']

/-- The count of a pool with more than `2 ^ 32` masks wraps to 65536. A rotation
by 65536 modulo that count leaves the masks in place, but the first pass starts behind the
first entry. -/
theorem overlongPool_misrotated :
    OrderedRanges overlongPool ∧ (pool4Count overlongPool).toInt = 65536 ∧
      pool4ForeachTaddr4 overlongPool (fun mask _ => (1, mask.mark)) 0 65536 = some (1, 2) ∧
      untilStop (fun mask _ => (1, mask.mark)) ((poolTuples overlongPool).rotate
        ((65536 : Word).toNat % (pool4Count overlongPool).toNat)) 0 = (1, 1) := by
  have hcount := pool4Count_overlongPool
  obtain ⟨masks1, hentry1, hlen1⟩ := entryTuples_full 1
  obtain ⟨masks2, hentry2, -⟩ := entryTuples_full 2
  have hfirst : poolTuples overlongPool =
      (⟨1, 6, 9, 0⟩ :: masks1) ++ (⟨2, 6, 9, 0⟩ :: masks2 ++
        poolTuples (List.replicate 65535 ⟨2, 6, 9, ⟨0, 65535⟩⟩)) := by
    rw [overlongPool, List.replicate_succ, poolTuples_cons, poolTuples_cons, hentry1, hentry2]
  have hlen : (⟨1, 6, 9, 0⟩ :: masks1 : List Pool4Mask).length = 65536 := by
    rw [List.length_cons, hlen1]
  refine ⟨?_, by rw [hcount]; decide, ?_, ?_⟩
  · intro entry hentry
    rcases List.mem_cons.mp hentry with rfl | hentry
    · decide
    · rw [List.eq_of_mem_replicate hentry]
      decide
  · have hreduce : reduceOffset 65536 65536 = some 65536 := by decide
    have hskip : selectFrom (fun indx => (65536 : Word) ≤ indx) 0
        (⟨1, 6, 9, 0⟩ :: masks1 : List Pool4Mask) = [] := by
      rw [selectFrom_ge _ (by omega)]
      exact List.drop_eq_nil_of_le hlen.le
    rw [pool4ForeachTaddr4_eq, hcount, hreduce, Option.map_some, visitOrder, hfirst,
      selectFrom_append, hskip, hlen, List.nil_append, List.cons_append, selectFrom,
      if_pos (by decide)]
    rfl
  · have hzero : (65536 : Word).toNat % (65536 : Word).toNat = 0 := by decide
    rw [hcount, hzero, List.rotate_zero, hfirst]
    rfl

end MaskPool
