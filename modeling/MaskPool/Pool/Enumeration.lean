import MaskPool.Model.Pool4

/-!
# The masks of a pool in pool order

`poolMasks` lists the `(addr, port)` pairs every loop of `pool4.c` walks: entries in
list order, ports ascending inside each entry. An entry whose `min` exceeds its `max`
contributes nothing. The closed formula of `pool4_count` agrees with the length of
this list up to the 32 bits it is computed in, provided the ranges are in order.
-/

namespace MaskPool

def entryMasks (entry : Pool4Entry) : List Ipv4TransportAddr :=
  (entryPorts entry).map fun i => { l3 := entry.addr, l4 := BitVec.ofNat 16 i }

def poolMasks (pool4 : Pool4) : List Ipv4TransportAddr := pool4.flatMap entryMasks

@[simp] theorem poolMasks_nil : poolMasks [] = [] := rfl

@[simp] theorem poolMasks_cons (entry : Pool4Entry) (rest : Pool4) :
    poolMasks (entry :: rest) = entryMasks entry ++ poolMasks rest := rfl

/-- Every range has its bounds in order. -/
def OrderedRanges (pool4 : Pool4) : Prop :=
  ∀ entry ∈ pool4, entry.range.min ≤ entry.range.max

instance (pool4 : Pool4) : Decidable (OrderedRanges pool4) :=
  inferInstanceAs (Decidable (∀ _ ∈ _, _))

theorem OrderedRanges.tail {entry : Pool4Entry} {rest : Pool4}
    (h : OrderedRanges (entry :: rest)) : OrderedRanges rest :=
  fun e he => h e (List.mem_cons_of_mem _ he)

theorem mem_entryPorts {entry : Pool4Entry} {i : ℕ} :
    i ∈ entryPorts entry ↔ entry.range.min.toNat ≤ i ∧ i ≤ entry.range.max.toNat := by
  rw [entryPorts, List.mem_range'_1]
  omega

theorem length_entryMasks (entry : Pool4Entry) :
    (entryMasks entry).length = entry.range.max.toNat + 1 - entry.range.min.toNat := by
  rw [entryMasks, List.length_map, entryPorts, List.length_range']

theorem toNat_ofNat_port {entry : Pool4Entry} {i : ℕ} (hi : i ∈ entryPorts entry) :
    (BitVec.ofNat 16 i).toNat = i := by
  have hmax := entry.range.max.isLt
  rw [mem_entryPorts] at hi
  rw [BitVec.toNat_ofNat]
  exact Nat.mod_eq_of_lt (by omega)

theorem mem_entryMasks {entry : Pool4Entry} {x : Ipv4TransportAddr} :
    x ∈ entryMasks entry ↔
      x.l3 = entry.addr ∧ entry.range.min ≤ x.l4 ∧ x.l4 ≤ entry.range.max := by
  rw [entryMasks, List.mem_map]
  constructor
  · intro h
    obtain ⟨i, hi, rfl⟩ := h
    have hport := toNat_ofNat_port hi
    rw [mem_entryPorts] at hi
    simp only [BitVec.le_def, hport]
    exact ⟨trivial, hi⟩
  · intro h
    obtain ⟨haddr, hmin, hmax⟩ := h
    refine ⟨x.l4.toNat, mem_entryPorts.mpr ⟨hmin, hmax⟩, ?_⟩
    rw [← haddr, BitVec.ofNat_toNat, BitVec.setWidth_eq]

theorem getElem?_entryMasks {entry : Pool4Entry} {k : ℕ} {x : Ipv4TransportAddr}
    (hx : (entryMasks entry)[k]? = some x) :
    x.l3 = entry.addr ∧ x.l4.toNat = entry.range.min.toNat + k := by
  simp only [entryMasks, List.getElem?_map, Option.map_eq_some_iff] at hx
  obtain ⟨i, hi, rfl⟩ := hx
  have hport := toNat_ofNat_port (List.mem_of_getElem? hi)
  obtain ⟨hk, rfl⟩ := List.getElem?_eq_some_iff.mp hi
  refine ⟨rfl, ?_⟩
  simp only [hport]
  simp [entryPorts]

theorem entryPortCount_eq {entry : Pool4Entry}
    (h : entry.range.min ≤ entry.range.max) :
    entryPortCount entry = BitVec.ofNat 32 (entryMasks entry).length := by
  have hmax := entry.range.max.isLt
  have hle : entry.range.min.toNat ≤ entry.range.max.toNat := h
  have hone : (1 : Word).toNat = 1 := rfl
  rw [length_entryMasks, entryPortCount]
  apply BitVec.eq_of_toNat_eq
  simp only [BitVec.truncate_eq_setWidth, BitVec.toNat_add, BitVec.toNat_sub,
    BitVec.toNat_setWidth, BitVec.toNat_ofNat, hone]
  omega

theorem foldl_portCount (pool4 : Pool4) (acc : Word) :
    pool4.foldl (fun entries entry => entries + entryPortCount entry) acc =
      acc + pool4Count pool4 := by
  induction pool4 generalizing acc with
  | nil => simp [pool4Count]
  | cons entry rest ih =>
    rw [pool4Count, List.foldl_cons, List.foldl_cons, ih, ih]
    simp [BitVec.add_assoc]

theorem pool4Count_cons (entry : Pool4Entry) (rest : Pool4) :
    pool4Count (entry :: rest) = entryPortCount entry + pool4Count rest := by
  rw [pool4Count, List.foldl_cons, foldl_portCount]
  simp

theorem pool4Count_replicate (n : ℕ) (entry : Pool4Entry) (rest : Pool4) :
    pool4Count (List.replicate n entry ++ rest) =
      BitVec.ofNat 32 n * entryPortCount entry + pool4Count rest := by
  induction n with
  | zero => simp
  | succ n ih =>
    rw [List.replicate_succ, List.cons_append, pool4Count_cons, ih, BitVec.ofNat_add]
    rw [BitVec.add_mul, BitVec.one_mul, ← BitVec.add_assoc,
      BitVec.add_comm (entryPortCount entry)]

theorem poolMasks_replicate {entry : Pool4Entry} (h : entryMasks entry = []) (n : ℕ)
    (rest : Pool4) : poolMasks (List.replicate n entry ++ rest) = poolMasks rest := by
  induction n with
  | zero => simp
  | succ n ih =>
    rw [List.replicate_succ, List.cons_append, poolMasks_cons, ih, h, List.nil_append]

theorem pool4Count_eq {pool4 : Pool4} (h : OrderedRanges pool4) :
    pool4Count pool4 = BitVec.ofNat 32 (poolMasks pool4).length := by
  induction pool4 with
  | nil => rfl
  | cons entry rest ih =>
    rw [pool4Count_cons, ih h.tail, entryPortCount_eq (h entry List.mem_cons_self),
      poolMasks_cons, List.length_append, BitVec.ofNat_add]

/-- Read as the `int` it is returned as, the count never exceeds the true number. -/
theorem pool4Count_toInt_le {pool4 : Pool4} (h : OrderedRanges pool4) :
    (pool4Count pool4).toInt ≤ (poolMasks pool4).length := by
  rw [pool4Count_eq h, BitVec.toInt_eq_toNat_cond, BitVec.toNat_ofNat]
  split_ifs <;> omega

theorem pool4Count_toInt {pool4 : Pool4} (h : OrderedRanges pool4)
    (hsmall : (poolMasks pool4).length < 2 ^ 31) :
    (pool4Count pool4).toInt = (poolMasks pool4).length := by
  rw [pool4Count_eq h, toInt_ofNat_of_lt hsmall]

end MaskPool
