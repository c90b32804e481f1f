import Mathlib.Tactic

/-!
# Cutting a list into blocks of equal size

Block `p` of width `m` holds the elements at indices `p * m, …, p * m + m - 1`; the
last block may be short. On a duplicate-free list, different blocks share nothing.
-/

namespace MaskPool.Blocks

variable {α : Type*} {m p q : ℕ} {xs : List α}

def block (m p : ℕ) (xs : List α) : List α := (xs.drop (p * m)).take m

theorem mem_block {x : α} : x ∈ block m p xs ↔ ∃ j < m, xs[p * m + j]? = some x := by
  simp only [block, List.mem_iff_getElem?, List.getElem?_take, List.getElem?_drop]
  constructor
  · intro h
    obtain ⟨j, hj⟩ := h
    split_ifs at hj with hjm
    exact ⟨j, hjm, hj⟩
  · intro h
    obtain ⟨j, hjm, hj⟩ := h
    exact ⟨j, by rw [if_pos hjm, hj]⟩

theorem mem_of_mem_block {x : α} (hx : x ∈ block m p xs) : x ∈ xs :=
  List.mem_of_mem_drop (List.mem_of_mem_take hx)

theorem getElem?_mem_block {x : α} (hm : 0 < m) (hx : xs[p * m]? = some x) :
    x ∈ block m p xs :=
  mem_block.mpr ⟨0, hm, by simpa using hx⟩

theorem block_eq_cons {x : α} (hm : 0 < m) (hx : xs[p * m]? = some x) :
    ∃ tail, block m p xs = x :: tail := by
  obtain ⟨hlt, hget⟩ := List.getElem?_eq_some_iff.mp hx
  obtain ⟨k, rfl⟩ : ∃ k, m = k + 1 := ⟨m - 1, by omega⟩
  refine ⟨(xs.drop (p * (k + 1) + 1)).take k, ?_⟩
  rw [block, List.drop_eq_getElem_cons hlt, hget, List.take_succ_cons]

theorem mul_add_lt_of_lt (hpq : p < q) {i : ℕ} (hi : i < m) : p * m + i < q * m := by
  have h : (p + 1) * m ≤ q * m := Nat.mul_le_mul_right m hpq
  rw [Nat.add_mul] at h
  omega

theorem index_ne_of_ne (hpq : p ≠ q) {i j : ℕ} (hi : i < m) (hj : j < m) :
    p * m + i ≠ q * m + j := by
  rcases Nat.lt_or_gt_of_ne hpq with h | h
  · have := mul_add_lt_of_lt h hi
    omega
  · have := mul_add_lt_of_lt h hj
    omega

theorem block_disjoint (hxs : xs.Nodup) (hpq : p ≠ q) :
    List.Disjoint (block m p xs) (block m q xs) := by
  intro x hp hq
  obtain ⟨i, hi, hpi⟩ := mem_block.mp hp
  obtain ⟨j, hj, hqj⟩ := mem_block.mp hq
  have hlt : p * m + i < xs.length := (List.getElem?_eq_some_iff.mp hpi).1
  exact index_ne_of_ne hpq hi hj ((List.getElem?_inj hlt hxs).mp (hpi.trans hqj.symm))

theorem mem_block_extended {ys : List α} (h : xs <+: ys) {x : α} (hx : x ∈ block m p xs) :
    x ∈ block m p ys := by
  obtain ⟨j, hj, hget⟩ := mem_block.mp hx
  obtain ⟨added, rfl⟩ := h
  have hlt := (List.getElem?_eq_some_iff.mp hget).1
  exact mem_block.mpr ⟨j, hj, by rw [List.getElem?_append_left hlt, hget]⟩

/-- One more element opens a new block exactly at a multiple of the width. -/
theorem blocks_succ (hm : 0 < m) (n : ℕ) :
    (n + 1 + m - 1) / m = (n + m - 1) / m + if m ∣ n then 1 else 0 := by
  have hdvd : m ∣ n + m - 1 + 1 ↔ m ∣ n := by
    rw [show n + m - 1 + 1 = n + m by omega]
    exact Nat.dvd_add_left dvd_rfl
  rw [show n + 1 + m - 1 = n + m - 1 + 1 by omega, Nat.succ_div]
  simp only [hdvd]

theorem blocks_mul (hm : 0 < m) (q : ℕ) : (m * q + m - 1) / m = q := by
  rw [Nat.add_sub_assoc hm, Nat.mul_add_div hm, Nat.div_eq_of_lt (Nat.sub_lt hm Nat.one_pos),
    Nat.add_zero]

theorem filter_dvd_range (hm : 0 < m) (n : ℕ) :
    (List.range n).filter (fun k => m ∣ k) =
      (List.range ((n + m - 1) / m)).map fun p => p * m := by
  induction n with
  | zero => simp [Nat.div_eq_of_lt (Nat.sub_lt hm Nat.one_pos)]
  | succ n ih =>
    rw [List.range_succ, List.filter_append, ih, blocks_succ hm]
    by_cases h : m ∣ n
    · obtain ⟨q, rfl⟩ := h
      rw [if_pos (Nat.dvd_mul_right m q), blocks_mul hm, List.range_succ, List.map_append]
      simp [Nat.mul_comm]
    · simp [h]

theorem flatMap_block (q : ℕ) (xs : List α) :
    ((List.range q).flatMap fun p => block m p xs) = xs.take (q * m) := by
  induction q with
  | zero => simp
  | succ q ih =>
    rw [List.range_succ, List.flatMap_append, ih, List.flatMap_singleton, Nat.succ_mul,
      List.take_add, block]

/-- Leaving out a block that has elements is noticed. -/
theorem flatMap_kept_iff {keep : ℕ → Prop} [DecidablePred keep] {q : ℕ}
    (hne : ∀ p < q, block m p xs ≠ []) :
    ((List.range q).flatMap fun p => if keep p then block m p xs else []) = xs.take (q * m) ↔
      ∀ p < q, keep p := by
  rw [← flatMap_block]
  induction q with
  | zero => simp
  | succ q ih =>
    have hless : ((List.range q).flatMap fun p =>
        if keep p then block m p xs else []).length ≤
        ((List.range q).flatMap fun p => block m p xs).length := by
      rw [List.length_flatMap, List.length_flatMap]
      apply List.sum_le_sum
      intro p _
      split_ifs
      · exact Nat.le_refl _
      · exact Nat.zero_le _
    rw [Nat.forall_lt_succ_right, ← ih fun p hp => hne p (hp.trans (Nat.lt_succ_self q))]
    simp only [List.range_succ, List.flatMap_append, List.flatMap_singleton]
    constructor
    · intro h
      have hlast := List.length_pos_iff.mpr (hne q (Nat.lt_succ_self q))
      have hlength := congrArg List.length h
      split_ifs at h hlength with hq
      · exact ⟨List.append_cancel_right h, hq⟩
      · simp only [List.length_append, List.length_nil] at hlength
        omega
    · rintro ⟨h, hq⟩
      rw [h, if_pos hq]

/-- Grants of elements to positions, each out of the position's own block. -/
def Allotted (m : ℕ) (xs : List α) (grants : List (ℕ × α)) : Prop :=
  ∀ g ∈ grants, g.2 ∈ block m g.1 xs

theorem Allotted.exclusive {grants : List (ℕ × α)} (hxs : xs.Nodup)
    (h : Allotted m xs grants) :
    ∀ g ∈ grants, ∀ g' ∈ grants, g.1 ≠ g'.1 → g.2 ≠ g'.2 := by
  intro g hg g' hg' hne heq
  have hmem := h g' hg'
  rw [← heq] at hmem
  exact block_disjoint hxs hne (h g hg) hmem

def firstFit (inUse : α → Bool) (fallback : α) (xs : List α) : α :=
  (xs.find? fun x => !inUse x).getD fallback

/-- Trying one element only is first fit, with a fallback that always means exhaustion,
exactly when that element fits first or nothing fits and it cannot be told apart. -/
theorem tryOne_eq_firstFit_iff {inUse : α → Bool} {fallback x : α} :
    ((if inUse x then fallback else x) = firstFit inUse fallback xs ∧
        ((if inUse x then fallback else x) = fallback → ∀ y ∈ xs, inUse y = true)) ↔
      (inUse x = false ∧ x ≠ fallback ∧ xs.find? (fun y => !inUse y) = some x) ∨
        ((∀ y ∈ xs, inUse y = true) ∧ (inUse x = true ∨ x = fallback)) := by
  unfold firstFit
  cases hfind : xs.find? fun y => !inUse y with
  | none =>
    have hall : ∀ y ∈ xs, inUse y = true := by simpa using hfind
    simp only [Option.getD_none, reduceCtorEq, and_false, false_or, iff_true_intro hall,
      implies_true, and_true, true_and]
    cases hx : inUse x <;> simp
  | some y =>
    have hfree : inUse y = false := by simpa using List.find?_some hfind
    have hsome : ¬∀ z ∈ xs, inUse z = true := by
      intro hall
      have hbusy := hall y (List.mem_of_find?_eq_some hfind)
      rw [hfree] at hbusy
      cases hbusy
    cases hx : inUse x with
    | false =>
      simp only [Bool.false_eq_true, if_false, Option.getD_some, hsome, imp_false, false_and,
        or_false, true_and, Option.some.injEq]
      rw [and_comm, eq_comm (a := x) (b := y)]
    | true =>
      simp [hsome]

end MaskPool.Blocks
