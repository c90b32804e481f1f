import Mathlib.Tactic

/-!
# Traversals that a callback can stop

`untilStop` hands the elements of a list to a stateful callback, in order, until one
call answers with a nonzero code. Traversals compose along concatenation, and what a
traversal hands out can be read off by a callback that keeps a record. `selectFrom`
picks elements by a test on a wrapping index; short lists are cut at the index tested.
-/

namespace MaskPool.Traversal

variable {α σ : Type*} (cb : α → σ → ℤ × σ)

def untilStop : List α → σ → ℤ × σ
  | [], s => (0, s)
  | x :: xs, s =>
    let (error, s) := cb x s
    if error ≠ 0 then (error, s) else untilStop xs s

def visited : List α → σ → List α
  | [], _ => []
  | x :: xs, s =>
    let (error, s) := cb x s
    if error ≠ 0 then [x] else x :: visited xs s

/-- The callback that also appends every element it is called with to a list. -/
def recording (x : α) (s : σ × List α) : ℤ × (σ × List α) :=
  ((cb x s.1).1, (cb x s.1).2, s.2 ++ [x])

/-- An answer inside a loop: a nonzero code leaves the loop. -/
def settle (answer : ℤ × σ) : Except (ℤ × σ) σ :=
  if answer.1 ≠ 0 then .error answer else .ok answer.2

variable {cb} {xs ys : List α} {s : σ}

theorem settle_zero {answer : ℤ × σ} (h : answer.1 = 0) : settle answer = .ok answer.2 := by
  simp [settle, h]

theorem settle_ne {answer : ℤ × σ} (h : answer.1 ≠ 0) : settle answer = .error answer := by
  simp [settle, h]

theorem untilStop_cons (x : α) :
    untilStop cb (x :: xs) s =
      if (cb x s).1 ≠ 0 then cb x s else untilStop cb xs (cb x s).2 := rfl

theorem visited_cons (x : α) :
    visited cb (x :: xs) s =
      if (cb x s).1 ≠ 0 then [x] else x :: visited cb xs (cb x s).2 := rfl

theorem settle_untilStop_cons (x : α) :
    settle (untilStop cb (x :: xs) s) =
      settle (cb x s) >>= fun s => settle (untilStop cb xs s) := by
  rw [untilStop_cons]
  by_cases h : (cb x s).1 = 0
  · rw [if_neg (not_not.mpr h), settle_zero h]
    rfl
  · rw [if_pos h, settle_ne h]
    rfl

theorem untilStop_append :
    untilStop cb (xs ++ ys) s =
      match settle (untilStop cb xs s) with
      | .error answer => answer
      | .ok s => untilStop cb ys s := by
  induction xs generalizing s with
  | nil => rfl
  | cons x xs ih =>
    rw [List.cons_append, untilStop_cons, untilStop_cons]
    by_cases h : (cb x s).1 = 0
    · rw [if_neg (not_not.mpr h), if_neg (not_not.mpr h)]
      exact ih
    · rw [if_pos h, if_pos h, settle_ne h]

theorem foldlM_flatMap {β τ ε : Type*} (elements : β → List α) (f : τ → α → Except ε τ)
    (bs : List β) (t : τ) :
    (bs.flatMap elements).foldlM f t = bs.foldlM (fun t b => (elements b).foldlM f t) t := by
  induction bs generalizing t with
  | nil => rfl
  | cons b bs ih => simp only [List.flatMap_cons, List.foldlM_append, List.foldlM_cons, ih]

theorem untilStop_recording (log : List α) :
    untilStop (recording cb) xs (s, log) =
      ((untilStop cb xs s).1, (untilStop cb xs s).2, log ++ visited cb xs s) := by
  induction xs generalizing s log with
  | nil => simp [untilStop, visited]
  | cons x xs ih =>
    rw [untilStop_cons, untilStop_cons, visited_cons]
    by_cases h : (cb x s).1 = 0
    · simp [recording, h, ih]
    · simp [recording, h]

theorem visited_prefix : visited cb xs s <+: xs := by
  induction xs generalizing s with
  | nil => exact List.prefix_rfl
  | cons x xs ih =>
    rw [visited_cons]
    split_ifs
    · exact ⟨xs, rfl⟩
    · exact List.cons_prefix_cons.mpr ⟨rfl, ih⟩

theorem visited_eq_self (h : (untilStop cb xs s).1 = 0) : visited cb xs s = xs := by
  induction xs generalizing s with
  | nil => rfl
  | cons x xs ih =>
    rw [untilStop_cons] at h
    rw [visited_cons]
    split_ifs at h ⊢ with hx
    · exact absurd h hx
    · rw [ih h]

theorem visited_ne_nil (h : (untilStop cb xs s).1 ≠ 0) : visited cb xs s ≠ [] := by
  cases xs with
  | nil => exact absurd rfl h
  | cons x xs =>
    rw [visited_cons]
    split_ifs <;> simp

theorem untilStop_tally (xs : List α) (n : ℕ) :
    untilStop (fun _ calls => (0, calls + 1)) xs n = (0, n + xs.length) := by
  induction xs generalizing n with
  | nil => rfl
  | cons x xs ih =>
    rw [untilStop_cons, if_neg (by simp), ih, List.length_cons]
    congr 1
    omega

def upTo (stop : α → Bool) : List α → List α
  | [] => []
  | x :: xs => if stop x then [x] else x :: upTo stop xs

theorem upTo_eq_self {stop : α → Bool} (h : xs.any stop = false) : upTo stop xs = xs := by
  induction xs with
  | nil => rfl
  | cons x xs ih =>
    obtain ⟨hx, hxs⟩ := Bool.or_eq_false_iff.mp h
    rw [upTo, hx, if_neg Bool.false_ne_true, ih hxs]

/-- Where the code only depends on the element, so does what is visited. -/
theorem untilStop_upTo {stop : α → Bool} {f : α → σ → σ}
    (hcb : ∀ x s, cb x s = (if stop x then 1 else 0, f x s)) (xs : List α) (s : σ) :
    untilStop cb xs s =
      (if xs.any stop then 1 else 0, (upTo stop xs).foldl (fun s x => f x s) s) := by
  induction xs generalizing s with
  | nil => rfl
  | cons x xs ih =>
    rw [untilStop_cons, hcb, List.any_cons, upTo]
    cases hstop : stop x with
    | true => simp
    | false => simpa using ih (f x s)

/-- The elements whose index, counted from `k` in `w` bits, passes the test. -/
def selectFrom {w : ℕ} (visits : BitVec w → Bool) : ℕ → List α → List α
  | _, [] => []
  | k, x :: xs =>
    if visits (BitVec.ofNat w k) then x :: selectFrom visits (k + 1) xs
    else selectFrom visits (k + 1) xs

variable {w : ℕ} {offset : BitVec w}

theorem toNat_ofNat_index {k : ℕ} (h : k < 2 ^ w) : (BitVec.ofNat w k).toNat = k := by
  rw [BitVec.toNat_ofNat, Nat.mod_eq_of_lt h]

theorem selectFrom_ge (xs : List α) {k : ℕ} (h : k + xs.length ≤ 2 ^ w) :
    selectFrom (fun indx => offset ≤ indx) k xs = xs.drop (offset.toNat - k) := by
  induction xs generalizing k with
  | nil => simp [selectFrom]
  | cons x xs ih =>
    rw [List.length_cons] at h
    have hindx := toNat_ofNat_index (show k < 2 ^ w by omega)
    rw [selectFrom, ih (by omega)]
    simp only [BitVec.le_def, hindx, decide_eq_true_eq]
    split_ifs with hle
    · rw [show offset.toNat - (k + 1) = 0 by omega, show offset.toNat - k = 0 by omega]
      rfl
    · rw [show offset.toNat - k = offset.toNat - (k + 1) + 1 by omega, List.drop_succ_cons]

theorem selectFrom_lt (xs : List α) {k : ℕ} (h : k + xs.length ≤ 2 ^ w) :
    selectFrom (fun indx => indx < offset) k xs = xs.take (offset.toNat - k) := by
  induction xs generalizing k with
  | nil => simp [selectFrom]
  | cons x xs ih =>
    rw [List.length_cons] at h
    have hindx := toNat_ofNat_index (show k < 2 ^ w by omega)
    rw [selectFrom, ih (by omega)]
    simp only [BitVec.lt_def, hindx, decide_eq_true_eq]
    split_ifs with hlt
    · rw [show offset.toNat - k = offset.toNat - (k + 1) + 1 by omega, List.take_succ_cons]
    · rw [show offset.toNat - (k + 1) = 0 by omega, show offset.toNat - k = 0 by omega]
      rfl

theorem selectFrom_append (visits : BitVec w → Bool) (k : ℕ) (xs ys : List α) :
    selectFrom visits k (xs ++ ys) =
      selectFrom visits k xs ++ selectFrom visits (k + xs.length) ys := by
  induction xs generalizing k with
  | nil => rfl
  | cons x xs ih =>
    have hindex : k + 1 + xs.length = k + (x :: xs).length := by
      rw [List.length_cons]
      omega
    rw [List.cons_append, selectFrom, selectFrom, ih, hindex]
    split_ifs <;> rfl

/-- The two selections at one offset, one after the other, are a rotation. -/
theorem selectFrom_rotate (xs : List α) (hlen : xs.length ≤ 2 ^ w)
    (hoffset : offset.toNat ≤ xs.length) :
    selectFrom (fun indx => offset ≤ indx) 0 xs ++ selectFrom (fun indx => indx < offset) 0 xs =
      xs.rotate offset.toNat := by
  rw [selectFrom_ge xs (by omega), selectFrom_lt xs (by omega), Nat.sub_zero,
    List.rotate_eq_drop_append_take hoffset]

theorem selectFrom_all {visits : BitVec w → Bool} (h : ∀ indx, visits indx = true) (k : ℕ)
    (xs : List α) : selectFrom visits k xs = xs := by
  induction xs generalizing k with
  | nil => rfl
  | cons x xs ih => rw [selectFrom, if_pos (h _), ih]

theorem selectFrom_none {visits : BitVec w → Bool} (h : ∀ indx, visits indx = false) (k : ℕ)
    (xs : List α) : selectFrom visits k xs = [] := by
  induction xs generalizing k with
  | nil => rfl
  | cons x xs ih => rw [selectFrom, if_neg (by simp [h]), ih]

end MaskPool.Traversal
