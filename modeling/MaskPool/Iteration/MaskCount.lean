import MaskPool.Iteration.MaskRotation
import MaskPool.Pool.DomainStart
import MaskPool.Pool.Membership

/-!
# What `pool4_count` counts

The closed formula adds `max - min + 1` for every entry, the loops visit nothing of an
entry whose bounds are out of order. The two agree while no bound is out of order by more
than one: a range with `min = max + 1` counts for no port either way.
-/

namespace MaskPool

open Traversal BlockScan

def entryWidth (entry : Pool4Entry) : ℤ :=
  (entry.range.max.toNat : ℤ) - entry.range.min.toNat + 1

def widthSum (pool4 : Pool4) : ℤ := (pool4.map entryWidth).sum

/-- The bounds are in order, or next to each other the wrong way round. -/
def Balanced (entry : Pool4Entry) : Prop :=
  entry.range.min.toNat ≤ entry.range.max.toNat + 1

instance : DecidablePred Balanced := fun _ => inferInstanceAs (Decidable (_ ≤ _))

@[simp] theorem widthSum_nil : widthSum [] = 0 := rfl

@[simp] theorem widthSum_cons (entry : Pool4Entry) (rest : Pool4) :
    widthSum (entry :: rest) = entryWidth entry + widthSum rest := by
  simp [widthSum]

theorem entryPortCount_ofInt (entry : Pool4Entry) :
    entryPortCount entry = BitVec.ofInt 32 (entryWidth entry) := by
  have hmax := entry.range.max.isLt
  have hmin := entry.range.min.isLt
  have hone : (1 : Word).toNat = 1 := rfl
  apply BitVec.eq_of_toNat_eq
  rw [entryPortCount, entryWidth, BitVec.toNat_ofInt]
  simp only [BitVec.truncate_eq_setWidth, BitVec.toNat_add, BitVec.toNat_sub,
    BitVec.toNat_setWidth, hone]
  omega

theorem pool4Count_ofInt (pool4 : Pool4) :
    pool4Count pool4 = BitVec.ofInt 32 (widthSum pool4) := by
  induction pool4 with
  | nil => rfl
  | cons entry rest ih =>
    rw [pool4Count_cons, ih, entryPortCount_ofInt, widthSum_cons, BitVec.ofInt_add]

theorem entryWidth_bounds (entry : Pool4Entry) :
    -65536 ≤ entryWidth entry ∧ entryWidth entry ≤ 65536 := by
  have hmax := entry.range.max.isLt
  have hmin := entry.range.min.isLt
  unfold entryWidth
  omega

theorem widthSum_bounds (pool4 : Pool4) :
    -65536 * (pool4.length : ℤ) ≤ widthSum pool4 ∧
      widthSum pool4 ≤ 65536 * (pool4.length : ℤ) := by
  induction pool4 with
  | nil => simp
  | cons entry rest ih =>
    have hentry := entryWidth_bounds entry
    rw [widthSum_cons, List.length_cons]
    push_cast
    omega

theorem pool4Count_toInt_eq {pool4 : Pool4} (hlen : pool4.length < 2 ^ 15) :
    (pool4Count pool4).toInt = widthSum pool4 := by
  have hbounds := widthSum_bounds pool4
  rw [pool4Count_ofInt]
  exact BitVec.toInt_ofInt_eq_self (by decide) (by omega) (by omega)

theorem widthSum_le (pool4 : Pool4) : widthSum pool4 ≤ (poolMasks pool4).length := by
  induction pool4 with
  | nil => simp
  | cons entry rest ih =>
    rw [widthSum_cons, poolMasks_cons, List.length_append, length_entryMasks, entryWidth]
    push_cast
    omega

theorem widthSum_eq_iff (pool4 : Pool4) :
    widthSum pool4 = (poolMasks pool4).length ↔ ∀ entry ∈ pool4, Balanced entry := by
  induction pool4 with
  | nil => simp
  | cons entry rest ih =>
    have hle := widthSum_le rest
    rw [List.forall_mem_cons, ← ih, widthSum_cons, poolMasks_cons, List.length_append,
      length_entryMasks, entryWidth, Balanced]
    push_cast
    omega

theorem length_poolMasks_le (pool4 : Pool4) :
    (poolMasks pool4).length ≤ 65536 * pool4.length := by
  induction pool4 with
  | nil => simp
  | cons entry rest ih =>
    have hmax := entry.range.max.isLt
    rw [poolMasks_cons, List.length_append, length_entryMasks, List.length_cons]
    omega

/-- The content of `counter` when `pool4_taddr4_find_pos` returns 0. -/
def findPosCounter (pool4 : Pool4) (p m : Word) (result : ClientMaskDomain) : Word :=
  (findPosLoops pool4 p result m).counter

theorem findPosCounter_eq (pool4 : Pool4) (p m : Word) (result : ClientMaskDomain) :
    findPosCounter pool4 p m result = BitVec.ofNat 32 (poolMasks pool4).length := by
  have hscan := findPosLoops_toScan pool4 p result m
  rw [foldl_step] at hscan
  exact congrArg BlockScan.counter hscan

theorem findPosCounter_toInt {pool4 : Pool4} (hlen : pool4.length < 2 ^ 15) (p m : Word)
    (result : ClientMaskDomain) :
    (findPosCounter pool4 p m result).toInt = (poolMasks pool4).length := by
  have hmasks := length_poolMasks_le pool4
  rw [findPosCounter_eq, toInt_ofNat_of_lt (by omega)]

theorem exists_mem_poolTuples_of_count_pos {pool4 : Pool4} (hlen : pool4.length < 2 ^ 15)
    (hpos : 0 < (pool4Count pool4).toInt) : ∃ mask, mask ∈ poolTuples pool4 := by
  have hle := widthSum_le pool4
  rw [pool4Count_toInt_eq hlen] at hpos
  apply List.exists_mem_of_length_pos
  rw [length_poolTuples]
  omega

theorem pool4ForeachTaddr4_tally (pool4 : Pool4) :
    pool4ForeachTaddr4 pool4 (fun _ calls => (0, calls + 1)) 0 0 =
      some (0, (poolMasks pool4).length) := by
  have hreduce : reduceOffset 0 (pool4Count pool4) = some 0 := by
    unfold reduceOffset
    exact if_neg (by simp)
  rw [pool4ForeachTaddr4_eq, hreduce, Option.map_some, visitOrder_zero, untilStop_tally,
    length_poolTuples, Nat.zero_add]

/-- The count is the number of calls `pool4_foreach_taddr4` makes of a callback that never
stops, and the number of ports `pool4_taddr4_find_pos` counts; a pool that is not empty and
whose count is positive has a mask to offer. -/
structure CountsMasks (pool4 : Pool4) : Prop where
  calls : ∃ calls : ℕ, pool4ForeachTaddr4 pool4 (fun _ calls => (0, calls + 1)) 0 0 =
    some (0, calls) ∧ (pool4Count pool4).toInt = calls
  ports : ∀ p m result, m ≠ 0 →
    (findPosCounter pool4 p m result).toInt = (pool4Count pool4).toInt
  offers : pool4IsEmpty pool4 = false → 0 < (pool4Count pool4).toInt →
    ∃ mask, mask ∈ poolTuples pool4

theorem countsMasks_iff {pool4 : Pool4} (hlen : pool4.length < 2 ^ 15) :
    CountsMasks pool4 ↔ ∀ entry ∈ pool4, Balanced entry := by
  have hcount := pool4Count_toInt_eq hlen
  rw [← widthSum_eq_iff]
  constructor
  · intro h
    obtain ⟨calls, hcalls, hequal⟩ := h.calls
    rw [pool4ForeachTaddr4_tally, Option.some.injEq, Prod.mk.injEq] at hcalls
    rw [← hcount, hequal, hcalls.2]
  · intro h
    refine ⟨⟨_, pool4ForeachTaddr4_tally pool4, hcount.trans h⟩, ?_, ?_⟩
    · intro p m result _
      rw [findPosCounter_toInt hlen, hcount, h]
    · intro _ hpos
      exact exists_mem_poolTuples_of_count_pos hlen hpos

/-- In the pool a sequence of operations leads to, the count is right exactly when no live
tuple has its bounds out of order by more than one; and it is right all along a sequence
that never adds such a tuple. The two loops agree in every pool, and a pool whose count is
positive always has a mask to offer. -/
theorem pool4Count_history (ops : List Pool4Op) :
    ((poolAfter ops).length < 2 ^ 15 →
      (CountsMasks (poolAfter ops) ↔ ∀ x, LiveTuple ops x → Balanced x) ∧
      (∀ p m result, m ≠ 0 → ∃ calls : ℕ,
        pool4ForeachTaddr4 (poolAfter ops) (fun _ calls => (0, calls + 1)) 0 0 =
            some (0, calls) ∧
          (findPosCounter (poolAfter ops) p m result).toInt = calls) ∧
      (pool4IsEmpty (poolAfter ops) = false → 0 < (pool4Count (poolAfter ops)).toInt →
        ∃ mask, mask ∈ poolTuples (poolAfter ops))) ∧
    ((∀ x, Pool4Op.add x ∈ ops → Balanced x) → ∀ before after, ops = before ++ after →
      (poolAfter before).length < 2 ^ 15 → CountsMasks (poolAfter before)) := by
  constructor
  · intro hlen
    refine ⟨?_, ?_, ?_⟩
    · rw [countsMasks_iff hlen]
      simp only [mem_poolAfter_iff]
    · intro p m result _
      exact ⟨_, pool4ForeachTaddr4_tally _, findPosCounter_toInt hlen p m result⟩
    · intro _ hpos
      exact exists_mem_poolTuples_of_count_pos hlen hpos
  · rintro hadds before after rfl hlen
    rw [countsMasks_iff hlen]
    intro x hx
    rw [mem_poolAfter_iff] at hx
    obtain ⟨earlier, op, later, hsplit, rfl, -⟩ := hx
    apply hadds
    rw [hsplit]
    simp

/-- A range 5..3 counts for minus one port, and no loop enters it. -/
theorem reversedRange_miscounted :
    (poolAfter [.add ⟨1, 6, 9, ⟨5, 3⟩⟩]).length < 2 ^ 15 ∧
      (pool4Count (poolAfter [.add ⟨1, 6, 9, ⟨5, 3⟩⟩])).toInt = -1 ∧
      pool4ForeachTaddr4 (poolAfter [.add ⟨1, 6, 9, ⟨5, 3⟩⟩])
        (fun _ calls => (0, calls + 1)) 0 0 = some (0, 0) ∧
      ¬CountsMasks (poolAfter [.add ⟨1, 6, 9, ⟨5, 3⟩⟩]) := by
  refine ⟨by decide, by decide, rfl, ?_⟩
  intro h
  exact absurd (h.ports 0 1 ⟨⟨0, 0⟩, 0, 0⟩ (by decide)) (by decide)

end MaskPool
