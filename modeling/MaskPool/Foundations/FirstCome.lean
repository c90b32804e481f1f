import Mathlib.Tactic

/-!
# Queues served by position

Whoever is in a queue is served by position. A newcomer joins at the tail, which moves
nobody; whoever leaves moves everybody behind forward by one.
-/

namespace MaskPool.FirstCome

variable {α : Type*} [DecidableEq α] {a b : α} {q : List α}

def join (a : α) (q : List α) : List α := if a ∈ q then q else q ++ [a]

theorem join_of_mem (h : a ∈ q) : join a q = q := if_pos h

theorem join_of_notMem (h : a ∉ q) : join a q = q ++ [a] := if_neg h

theorem length_join_le (a : α) (q : List α) : (join a q).length ≤ q.length + 1 := by
  by_cases h : a ∈ q
  · rw [join_of_mem h]
    exact Nat.le_succ _
  · simp [join_of_notMem h]

theorem prefix_join (a : α) (q : List α) : q <+: join a q := by
  unfold join
  split_ifs
  · exact List.prefix_rfl
  · exact List.prefix_append _ _

/-- Who was already waiting keeps the place. -/
theorem idxOf_of_prefix {q' : List α} (h : q <+: q') (hb : b ∈ q) :
    q'.idxOf b = q.idxOf b := by
  obtain ⟨newcomers, rfl⟩ := h
  exact List.idxOf_append_of_mem hb

theorem findIdx?_eq_idxOf (h : a ∈ q) : q.findIdx? (fun x => decide (x = a)) = some (q.idxOf a) := by
  induction q with
  | nil => cases h
  | cons x q ih =>
    rw [List.findIdx?_cons]
    by_cases hx : x = a
    · simp [hx]
    · have hmem : a ∈ q := (List.mem_cons.mp h).resolve_left (Ne.symm hx)
      simp [hx, ih hmem, List.idxOf_cons_ne _ hx]

/-- Leaving moves exactly those behind, by one. -/
theorem idxOf_erase (hne : a ≠ b) (hb : b ∈ q) :
    (q.erase a).idxOf b = if q.idxOf a < q.idxOf b then q.idxOf b - 1 else q.idxOf b := by
  induction q with
  | nil => cases hb
  | cons x q ih =>
    by_cases hxa : x = a
    · subst hxa
      simp [List.idxOf_cons_ne _ hne]
    · rw [List.erase_cons_tail (by simpa using hxa)]
      by_cases hxb : x = b
      · simp [hxb]
      · have hmem : b ∈ q := (List.mem_cons.mp hb).resolve_left (Ne.symm hxb)
        rw [List.idxOf_cons_ne _ hxb, List.idxOf_cons_ne _ hxb, List.idxOf_cons_ne _ hxa, ih hmem]
        split_ifs <;> omega

end MaskPool.FirstCome
