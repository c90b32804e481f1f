import MaskPool.Foundations.Blocks
import MaskPool.Pool.DomainStart

/-!
# What `pool4_get_nth_taddr` enumerates

From the entry a domain starts in, the function walks ports with the domain's
stride, restarting at `range.min` in every later entry. `walkMasks` is that walk as
a list, and the function indexes it. For a domain written by
`pool4_taddr4_find_pos` the walk is the tail of the pool from the block's start on,
with one exception: the test for the starting entry is strict at `range.max`, so a
domain that starts at the last port of an entry is found nowhere.
-/

namespace MaskPool

open Blocks

def strided (a max s : ℕ) : List ℕ := List.range' a ((max + s - a) / s) s

theorem strided_of_lt {a max s : ℕ} (h : max < a) : strided a max s = [] := by
  rcases Nat.eq_zero_or_pos s with rfl | hs
  · simp [strided]
  · rw [strided, Nat.div_eq_of_lt (by omega), List.range'_zero]

theorem strided_of_le {a max s : ℕ} (hs : 0 < s) (h : a ≤ max) :
    strided a max s = a :: strided (a + s) max s := by
  have hlen : (max + s - a) / s = (max + s - (a + s)) / s + 1 := by
    rw [show max + s - a = max + s - (a + s) + s by omega, Nat.add_div_right _ hs]
  rw [strided, hlen, List.range'_succ]
  rfl

theorem sle_port {a : ℕ} {max : BitVec 16} (ha : a < 2 ^ 31) :
    (BitVec.ofNat 32 a).sle (max.zeroExtend 32) = decide (a ≤ max.toNat) := by
  have hmax := max.isLt
  have hword : max.zeroExtend 32 = BitVec.ofNat 32 max.toNat := by
    rw [BitVec.zeroExtend, ← BitVec.ofNat_toNat]
  rw [BitVec.sle_eq_decide, hword, toInt_ofNat_of_lt ha, toInt_ofNat_of_lt (by omega)]
  simp

/-- With a stride that cannot carry the `int` loop variable past its range, the loop
finds the `n`-th strided port, or uses up as many units of `n` as there are ports. -/
theorem nthPort_eq {max : BitVec 16} {step : Word} (hstep : 1 ≤ step.toNat)
    (hwide : step.toNat ≤ 2 ^ 31 - 65536) (n a : ℕ) (ha : a < 2 ^ 31) :
    nthPort max step n (BitVec.ofNat 32 a) =
      match (strided a max.toNat step.toNat)[n]? with
      | some i => .found (BitVec.ofNat 32 i)
      | none => .missing (n - (strided a max.toNat step.toNat).length) := by
  have hmax := max.isLt
  induction n generalizing a with
  | zero =>
    rw [nthPort, sle_port ha]
    by_cases h : a ≤ max.toNat
    · simp [h, strided_of_le hstep h]
    · simp [h, strided_of_lt (Nat.lt_of_not_le h)]
  | succ n ih =>
    rw [nthPort, sle_port ha]
    by_cases h : a ≤ max.toNat
    · have hnext : BitVec.ofNat 32 a + step = BitVec.ofNat 32 (a + step.toNat) := by
        rw [BitVec.ofNat_add, BitVec.ofNat_toNat, BitVec.setWidth_eq]
      rw [strided_of_le hstep h, List.getElem?_cons_succ, List.length_cons,
        Nat.add_sub_add_right, if_pos (by simpa using h), hnext, ih _ (by omega)]
    · simp [h, strided_of_lt (Nat.lt_of_not_le h)]

def stridedMasks (step : Word) (entry : Pool4Entry) (start : BitVec 16) :
    List Ipv4TransportAddr :=
  (strided start.toNat entry.range.max.toNat step.toNat).map fun i =>
    { l3 := entry.addr, l4 := BitVec.ofNat 16 i }

/-- The masks the function walks, in order; `flag` tells that the start is behind. -/
def walkMasks (domain : ClientMaskDomain) : Pool4 → Bool → List Ipv4TransportAddr
  | [], _ => []
  | entry :: rest, flag =>
    if flag then
      stridedMasks domain.step entry entry.range.min ++ walkMasks domain rest true
    else if startsIn domain entry then
      stridedMasks domain.step entry domain.first.l4 ++ walkMasks domain rest true
    else walkMasks domain rest false

/-- One entry's loop followed by the rest of the walk indexes the concatenation, whatever
is made of the port that is found. -/
theorem nthPort_index {β : Type*} (f : Word → β) {max : BitVec 16} {step : Word}
    (hstep : 1 ≤ step.toNat) (hwide : step.toNat ≤ 2 ^ 31 - 65536) (start : BitVec 16)
    (tail : List β) (n : ℕ) :
    (match nthPort max step n (start.zeroExtend 32) with
      | .found i => some (f i)
      | .missing n => tail[n]?) =
      ((strided start.toNat max.toNat step.toNat).map (fun i => f (BitVec.ofNat 32 i)) ++
        tail)[n]? := by
  have hstart := start.isLt
  have hword : start.zeroExtend 32 = BitVec.ofNat 32 start.toNat := by
    rw [BitVec.zeroExtend, ← BitVec.ofNat_toNat]
  rw [hword, nthPort_eq hstep hwide n _ (by omega)]
  cases hget : (strided start.toNat max.toNat step.toNat)[n]? with
  | some i =>
    have hlt := (List.getElem?_eq_some_iff.mp hget).1
    rw [List.getElem?_append_left (by simpa using hlt), List.getElem?_map, hget]
    rfl
  | none =>
    have hle := List.getElem?_eq_none_iff.mp hget
    rw [List.getElem?_append_right (by simpa using hle), List.length_map]

theorem nthPort_append {domain : ClientMaskDomain} (hstep : 1 ≤ domain.step.toNat)
    (hwide : domain.step.toNat ≤ 2 ^ 31 - 65536) (entry : Pool4Entry)
    (start : BitVec 16) (tail : List Ipv4TransportAddr) (n : ℕ) :
    (match nthPort entry.range.max domain.step n (start.zeroExtend 32) with
      | .found i => some ({ l3 := entry.addr, l4 := i.truncate 16 } : Ipv4TransportAddr)
      | .missing n => tail[n]?) =
      (stridedMasks domain.step entry start ++ tail)[n]? := by
  have hmasks : stridedMasks domain.step entry start =
      (strided start.toNat entry.range.max.toNat domain.step.toNat).map fun i =>
        { l3 := entry.addr, l4 := (BitVec.ofNat 32 i).truncate 16 } := by
    simp [stridedMasks, BitVec.setWidth_ofNat_of_le]
  rw [hmasks]
  exact nthPort_index (fun i => ⟨entry.addr, i.truncate 16⟩) hstep hwide start tail n

theorem nthTaddr_eq {domain : ClientMaskDomain} (hstep : 1 ≤ domain.step.toNat)
    (hwide : domain.step.toNat ≤ 2 ^ 31 - 65536) (pool4 : Pool4) (flag : Bool) (n : ℕ) :
    nthTaddr domain pool4 flag n = (walkMasks domain pool4 flag)[n]? := by
  induction pool4 generalizing flag n with
  | nil => simp [nthTaddr, walkMasks]
  | cons entry rest ih =>
    cases flag with
    | true =>
      simp only [nthTaddr, walkMasks, Bool.or_true, if_true, Bool.not_true,
        Bool.false_eq_true, if_false, ih]
      exact nthPort_append hstep hwide entry _ _ n
    | false =>
      by_cases hstart : startsIn domain entry
      · simp only [nthTaddr, walkMasks, hstart, Bool.true_or, if_true, Bool.not_false,
          Bool.false_eq_true, if_false, ih]
        exact nthPort_append hstep hwide entry _ _ n
      · simp only [nthTaddr, walkMasks, hstart, Bool.or_false, Bool.false_eq_true,
          if_false, ih]

theorem stridedMasks_one {entry : Pool4Entry} {start : BitVec 16}
    (h : entry.range.min ≤ start) :
    stridedMasks 1 entry start =
      (entryMasks entry).drop (start.toNat - entry.range.min.toNat) := by
  have hle : entry.range.min.toNat ≤ start.toNat := h
  have hone : (1 : Word).toNat = 1 := rfl
  rw [stridedMasks, entryMasks, ← List.map_drop, entryPorts, strided, hone, Nat.div_one,
    List.drop_range', Nat.mul_one, Nat.add_sub_cancel' hle]
  congr 2
  omega

theorem walkMasks_flagged (m : Word) (first : Ipv4TransportAddr) (pool4 : Pool4) :
    walkMasks (domainAt m first) pool4 true = poolMasks pool4 := by
  induction pool4 with
  | nil => rfl
  | cons entry rest ih =>
    have hhead : stridedMasks 1 entry entry.range.min = entryMasks entry := by
      rw [stridedMasks_one (BitVec.le_refl _), Nat.sub_self, List.drop_zero]
    rw [walkMasks, if_pos rfl, ih, poolMasks_cons, ← hhead]
    rfl

/-- The mask is the last port of an entry that has it. -/
def EndsEntry (pool4 : Pool4) (x : Ipv4TransportAddr) : Prop :=
  ∃ entry ∈ pool4, x ∈ entryMasks entry ∧ x.l4 = entry.range.max

instance (pool4 : Pool4) (x : Ipv4TransportAddr) : Decidable (EndsEntry pool4 x) :=
  inferInstanceAs (Decidable (∃ entry ∈ pool4, _ ∧ _))

theorem endsEntry_cons {entry : Pool4Entry} {rest : Pool4} {x : Ipv4TransportAddr} :
    EndsEntry (entry :: rest) x ↔
      x ∈ entryMasks entry ∧ x.l4 = entry.range.max ∨ EndsEntry rest x := by
  simp only [EndsEntry, List.exists_mem_cons_iff]

theorem EndsEntry.mem {pool4 : Pool4} {x : Ipv4TransportAddr} (h : EndsEntry pool4 x) :
    x ∈ poolMasks pool4 := by
  obtain ⟨entry, hentry, hin, -⟩ := h
  exact List.mem_flatMap.mpr ⟨entry, hentry, hin⟩

theorem startsIn_iff {m : Word} {first : Ipv4TransportAddr} {entry : Pool4Entry} :
    startsIn (domainAt m first) entry ↔
      first ∈ entryMasks entry ∧ first.l4 ≠ entry.range.max := by
  rw [startsIn, Bool.and_eq_true, Bool.and_eq_true, beq_iff_eq, decide_eq_true_iff,
    decide_eq_true_iff, mem_entryMasks]
  constructor
  · intro h
    obtain ⟨⟨haddr, hmin⟩, hmax⟩ := h
    exact ⟨⟨haddr, hmin, BitVec.le_of_lt hmax⟩, BitVec.ne_of_lt hmax⟩
  · intro h
    obtain ⟨⟨haddr, hmin, hmax⟩, hne⟩ := h
    exact ⟨⟨haddr, hmin⟩, BitVec.lt_of_le_ne hmax hne⟩

theorem walkMasks_absent {m : Word} {first : Ipv4TransportAddr} {pool4 : Pool4}
    (h : first ∉ poolMasks pool4) : walkMasks (domainAt m first) pool4 false = [] := by
  induction pool4 with
  | nil => rfl
  | cons entry rest ih =>
    rw [poolMasks_cons, List.mem_append, not_or] at h
    have hstart : ¬startsIn (domainAt m first) entry := fun hs => h.1 (startsIn_iff.mp hs).1
    simp only [walkMasks, Bool.false_eq_true, if_false, hstart, ih h.2]

/-- On a pool without repeated masks the walk is the tail of the pool from the start
on, unless the start closes its entry. -/
theorem walkMasks_eq {m : Word} {first : Ipv4TransportAddr} {pool4 : Pool4} {k : ℕ}
    (hdistinct : (poolMasks pool4).Nodup) (hfirst : (poolMasks pool4)[k]? = some first) :
    walkMasks (domainAt m first) pool4 false =
      if EndsEntry pool4 first then [] else (poolMasks pool4).drop k := by
  induction pool4 generalizing k with
  | nil => simp at hfirst
  | cons entry rest ih =>
    rw [poolMasks_cons] at hdistinct hfirst ⊢
    obtain ⟨-, hrest, hdisjoint⟩ := List.nodup_append'.mp hdistinct
    by_cases hk : k < (entryMasks entry).length
    · rw [List.getElem?_append_left hk] at hfirst
      have hmem := List.mem_of_getElem? hfirst
      have habsent : first ∉ poolMasks rest := fun h => hdisjoint hmem h
      by_cases hlast : first.l4 = entry.range.max
      · have hends : EndsEntry (entry :: rest) first :=
          endsEntry_cons.mpr (Or.inl ⟨hmem, hlast⟩)
        have hstart : ¬startsIn (domainAt m first) entry :=
          fun hs => (startsIn_iff.mp hs).2 hlast
        simp only [walkMasks, Bool.false_eq_true, if_false, hstart, if_pos hends,
          walkMasks_absent habsent]
      · have hends : ¬EndsEntry (entry :: rest) first := by
          intro h
          rcases endsEntry_cons.mp h with ⟨-, hmax⟩ | hrest
          · exact hlast hmax
          · exact habsent hrest.mem
        have hstart : startsIn (domainAt m first) entry := startsIn_iff.mpr ⟨hmem, hlast⟩
        obtain ⟨-, hport⟩ := getElem?_entryMasks hfirst
        simp only [walkMasks, Bool.false_eq_true, if_false, hstart, if_true, if_neg hends,
          walkMasks_flagged]
        rw [List.drop_append_of_le_length hk.le]
        congr 1
        calc
          _ = (entryMasks entry).drop (first.l4.toNat - entry.range.min.toNat) :=
            stridedMasks_one (mem_entryMasks.mp hmem).2.1
          _ = _ := by rw [hport, Nat.add_sub_cancel_left]
    · rw [List.getElem?_append_right (Nat.le_of_not_lt hk)] at hfirst
      have hin : first ∈ poolMasks rest := List.mem_of_getElem? hfirst
      have hout : first ∉ entryMasks entry := fun h => hdisjoint h hin
      have hstart : ¬startsIn (domainAt m first) entry := fun hs => hout (startsIn_iff.mp hs).1
      have hends : EndsEntry (entry :: rest) first ↔ EndsEntry rest first := by
        rw [endsEntry_cons]
        exact or_iff_right fun h => hout h.1
      simp only [walkMasks, Bool.false_eq_true, if_false, hstart, ih hrest hfirst, hends,
        List.drop_append, List.drop_eq_nil_of_le (Nat.le_of_not_lt hk), List.nil_append]

/-- The whole function on a domain of stride one that starts at pool index `k`. -/
theorem pool4GetNthTaddr_eq {m : Word} (hm : m ≠ 0) {first : Ipv4TransportAddr}
    {pool4 : Pool4} {k : ℕ} (hdistinct : (poolMasks pool4).Nodup)
    (hfirst : (poolMasks pool4)[k]? = some first) (n : Word)
    (result : Ipv4TransportAddr) :
    pool4GetNthTaddr pool4 (domainAt m first) n result =
      some ((if EndsEntry pool4 first then none
        else (poolMasks pool4)[k + n.toNat % m.toNat]?).elim (-ESRCH, result) ((0, ·))) := by
  have hone : (1 : Word).toNat = 1 := rfl
  have hindex : nthTaddr (domainAt m first) pool4 false (n % m).toNat =
      if EndsEntry pool4 first then none
        else (poolMasks pool4)[k + n.toNat % m.toNat]? := by
    rw [nthTaddr_eq (by rw [domainAt, hone]) (by rw [domainAt, hone]; omega),
      walkMasks_eq hdistinct hfirst, BitVec.toNat_umod]
    split_ifs
    · rfl
    · rw [List.getElem?_drop]
  have hcount : (domainAt m first).count = m := rfl
  rw [pool4GetNthTaddr, hcount, if_neg hm, hindex]
  cases (if EndsEntry pool4 first then none
    else (poolMasks pool4)[k + n.toNat % m.toNat]?) <;> rfl

end MaskPool
