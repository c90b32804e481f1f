import Mathlib.Tactic

/-!
# First matches in a growing list

A list searched from the front by a Boolean test answers with an index. Appending
never moves an answer, and two tests give the same answers exactly when the first
element that passes one of them passes both.
-/

namespace MaskPool.FirstMatch

variable {α : Type*} {xs : List α} {p q : α → Bool} {i : ℕ}

theorem append_of_some (h : xs.findIdx? p = some i) (more : List α) :
    (xs ++ more).findIdx? p = some i := by
  rw [List.findIdx?_append, h, Option.some_or]

theorem snoc_of_none {x : α} (h : xs.findIdx? p = none) (hx : p x = true) :
    (xs ++ [x]).findIdx? p = some xs.length := by
  rw [List.findIdx?_append, h, List.findIdx?_singleton, if_pos hx]
  simp

theorem exists_getElem?_of_some (h : xs.findIdx? p = some i) :
    ∃ x, xs[i]? = some x ∧ p x = true := by
  obtain ⟨hlt, hp, -⟩ := List.findIdx?_eq_some_iff_getElem.mp h
  exact ⟨xs[i], List.getElem?_eq_getElem hlt, hp⟩

theorem findIdx?_congr (h : ∀ x ∈ xs, p x = q x) : xs.findIdx? p = xs.findIdx? q := by
  induction xs with
  | nil => rfl
  | cons y xs ih =>
    obtain ⟨hhead, htail⟩ := List.forall_mem_cons.mp h
    rw [List.findIdx?_cons, List.findIdx?_cons, hhead, ih htail]

/-- Two tests answer alike exactly when the first match of either is one of both. -/
theorem findIdx?_eq_iff :
    xs.findIdx? p = xs.findIdx? q ↔
      ∀ x, xs.find? (fun x => p x || q x) = some x → p x = true ∧ q x = true := by
  induction xs with
  | nil => simp
  | cons y xs ih =>
    rw [List.findIdx?_cons, List.findIdx?_cons, List.find?_cons]
    cases hp : p y with
    | false =>
      cases hq : q y with
      | false =>
        simp only [Bool.false_eq_true, if_false, Bool.or_self]
        exact (Option.map_injective (add_left_injective 1)).eq_iff.trans ih
      | true => cases xs.findIdx? p <;> simp [hp]
    | true =>
      cases hq : q y with
      | false => cases xs.findIdx? q <;> simp [hq]
      | true => simp [hp, hq]

/-- A list whose head fails a test splits behind passing elements only at its head. -/
theorem eq_head_of_split {P : α → Prop} {x y : α} {before after : List α}
    (hbefore : ∀ z ∈ before, P z) (hsplit : x :: xs = before ++ y :: after) (hx : ¬P x) :
    y = x := by
  cases before with
  | nil => exact (List.cons.inj hsplit).1.symm
  | cons z before =>
    obtain ⟨rfl, -⟩ := List.cons.inj hsplit
    exact absurd (hbefore x List.mem_cons_self) hx

end MaskPool.FirstMatch
