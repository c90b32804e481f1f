import MaskPool.Foundations.Traversal

/-!
# Traversals in pages

A traversal that takes an offset resumes behind the first occurrence of that element.
Calling it again and again, each time with the last element seen, cuts the list into
pages: on a list without repetitions the pages follow each other without gap or overlap,
and they make up the list as soon as one of them runs to the end.
-/

namespace MaskPool.Paging

open Traversal

variable {α σ τ : Type*}

section Driver

variable (call : Option α → (α → σ × List α → ℤ × (σ × List α)) → σ × List α →
  ℤ × (σ × List α))

/-- One call for each callback, every call resuming at the last element seen so far; for
each call the elements it visited and its code. -/
def pages : List (α → σ → ℤ × σ) → Option α → σ → List (List α × ℤ)
  | [], _, _ => []
  | cb :: cbs, offset, s =>
    let (code, s, seen) := call offset (recording cb) (s, [])
    (seen, code) :: pages cbs (seen.getLast?.or offset) s

end Driver

/-- The list itself, cut where the callbacks stop. -/
def cut : List (α → σ → ℤ × σ) → List α → σ → List (List α × ℤ)
  | [], _, _ => []
  | cb :: cbs, rest, s =>
    (visited cb rest s, (untilStop cb rest s).1) ::
      cut cbs (rest.drop (visited cb rest s).length) (untilStop cb rest s).2

theorem flatten_cut_prefix (cbs : List (α → σ → ℤ × σ)) (rest : List α) (s : σ) :
    ((cut cbs rest s).map Prod.fst).flatten <+: rest := by
  induction cbs generalizing rest s with
  | nil => exact List.nil_prefix
  | cons cb cbs ih =>
    have hsplit : visited cb rest s ++ rest.drop (visited cb rest s).length = rest :=
      List.prefix_iff_eq_append.mp visited_prefix
    rw [cut, List.map_cons, List.flatten_cons]
    conv_rhs => rw [← hsplit]
    exact (List.prefix_append_right_inj _).mpr (ih _ _)

theorem flatten_cut_eq (cbs : List (α → σ → ℤ × σ)) (rest : List α) (s : σ)
    (h : ∃ page ∈ cut cbs rest s, page.2 = 0) :
    ((cut cbs rest s).map Prod.fst).flatten = rest := by
  induction cbs generalizing rest s with
  | nil =>
    obtain ⟨page, hmem, -⟩ := h
    cases hmem
  | cons cb cbs ih =>
    rw [cut, List.map_cons, List.flatten_cons]
    by_cases hend : (untilStop cb rest s).1 = 0
    · have hall := visited_eq_self hend
      have hnone := flatten_cut_prefix cbs (rest.drop rest.length) (untilStop cb rest s).2
      rw [List.drop_length, List.prefix_nil] at hnone
      rw [hall, List.drop_length, hnone, List.append_nil]
    · obtain ⟨page, hmem, hpage⟩ := h
      rcases List.mem_cons.mp hmem with rfl | hmem
      · exact absurd hpage hend
      · rw [ih _ _ ⟨page, hmem, hpage⟩]
        exact (List.prefix_iff_eq_append.mp visited_prefix)

theorem exists_end_of_length_lt (cbs : List (α → σ → ℤ × σ)) (rest : List α) (s : σ)
    (h : rest.length < cbs.length) : ∃ page ∈ cut cbs rest s, page.2 = 0 := by
  induction cbs generalizing rest s with
  | nil => exact absurd h (Nat.not_lt_zero _)
  | cons cb cbs ih =>
    rw [cut]
    by_cases hend : (untilStop cb rest s).1 = 0
    · exact ⟨_, List.mem_cons_self, hend⟩
    · have hseen := List.length_pos_iff.mpr (visited_ne_nil hend)
      have hle : (visited cb rest s).length ≤ rest.length := visited_prefix.length_le
      have hless : (rest.drop (visited cb rest s).length).length < cbs.length := by
        rw [List.length_drop]
        rw [List.length_cons] at h
        omega
      obtain ⟨page, hmem, hpage⟩ := ih _ (untilStop cb rest s).2 hless
      exact ⟨page, List.mem_cons_of_mem _ hmem, hpage⟩

variable [DecidableEq α] {xs : List α}

/-- What lies behind the offset, if the offset is listed. -/
def behind (xs : List α) : Option α → Option (List α)
  | none => some xs
  | some x => if x ∈ xs then some (xs.drop (xs.idxOf x + 1)) else none

/-- The call traverses what lies behind its offset. -/
def Resumes (xs : List α) (call : Option α → (α → τ → ℤ × τ) → τ → ℤ × τ) : Prop :=
  ∀ offset rest cb s, behind xs offset = some rest → call offset cb s = untilStop cb rest s

theorem behind_eq_none {offset : Option α} :
    behind xs offset = none ↔ ∃ x, offset = some x ∧ x ∉ xs := by
  cases offset with
  | none => simp [behind]
  | some x => simp [behind]

theorem behind_append {done rest : List α} {x : α} (h : x ∉ done) :
    behind (done ++ x :: rest) (some x) = some rest := by
  have hindex : (done ++ x :: rest).idxOf x = done.length := by
    rw [List.idxOf_append_of_notMem h, List.idxOf_cons_self, Nat.add_zero]
  rw [behind, if_pos (by simp), hindex, ← List.drop_drop, List.drop_left]
  rfl

theorem exists_append_of_behind {offset : Option α} {rest : List α}
    (h : behind xs offset = some rest) : ∃ done, xs = done ++ rest := by
  cases offset with
  | none =>
    cases h
    exact ⟨[], rfl⟩
  | some x =>
    rw [behind] at h
    split_ifs at h
    cases h
    exact ⟨_, (List.take_append_drop _ xs).symm⟩

/-- The last element seen is the offset behind which the unseen rest lies. -/
theorem behind_getLast? (hdistinct : xs.Nodup) {offset : Option α} {seen rest : List α}
    (h : behind xs offset = some (seen ++ rest)) :
    behind xs (seen.getLast?.or offset) = some rest := by
  rcases List.eq_nil_or_concat seen with rfl | ⟨seen, x, rfl⟩
  · exact h
  · rw [List.concat_eq_append] at h ⊢
    obtain ⟨done, rfl⟩ := exists_append_of_behind h
    have hsplit : done ++ (seen ++ [x] ++ rest) = (done ++ seen) ++ x :: rest := by simp
    rw [hsplit] at hdistinct ⊢
    have habsent : x ∉ done ++ seen := by
      intro hmem
      exact (List.nodup_append.mp hdistinct).2.2 x hmem x List.mem_cons_self rfl
    rw [List.getLast?_append, List.getLast?_singleton, Option.some_or, Option.some_or]
    exact behind_append habsent

theorem pages_eq_cut {call : Option α → (α → σ × List α → ℤ × (σ × List α)) →
    σ × List α → ℤ × (σ × List α)} (hcall : Resumes xs call) (hdistinct : xs.Nodup)
    (cbs : List (α → σ → ℤ × σ)) {offset : Option α} {rest : List α}
    (hrest : behind xs offset = some rest) (s : σ) :
    pages call cbs offset s = cut cbs rest s := by
  induction cbs generalizing offset rest s with
  | nil => rfl
  | cons cb cbs ih =>
    have hpage := hcall offset rest (recording cb) (s, []) hrest
    rw [untilStop_recording, List.nil_append] at hpage
    have hsplit : visited cb rest s ++ rest.drop (visited cb rest s).length = rest :=
      List.prefix_iff_eq_append.mp visited_prefix
    have hnext := behind_getLast? hdistinct (hrest.trans (congrArg some hsplit.symm))
    rw [pages, hpage, cut, ← ih hnext]

end MaskPool.Paging
