import Mathlib.Data.Nat.Count
import MaskPool.Foundations.Blocks

/-!
# Finding a block with machine counters

A scan counts the elements it passes and the blocks it opens, both in `w`-bit
words that wrap, and stores an image of the element at which it opens block `p`.
Nothing stops the scan, so a later opening that reads the same block number stores
again. `lastOpening` is the index whose image survives; up to `2 ^ w` elements it is
the index `p * m` one would compute without wrapping.
-/

namespace MaskPool

structure BlockScan (w : ℕ) (β : Type*) where
  counter : BitVec w
  opened : BitVec w
  out : β

namespace BlockScan

variable {w : ℕ} {α β : Type*} (m p : BitVec w) (f : α → β)

def step (s : BlockScan w β) (x : α) : BlockScan w β :=
  if s.counter % m = 0 then
    { counter := s.counter + 1
      opened := s.opened + 1
      out := if p = s.opened then f x else s.out }
  else { s with counter := s.counter + 1 }

/-- The wrapped element counter reads a multiple of `m` at index `k`. -/
def Opens (k : ℕ) : Prop := BitVec.ofNat w k % m = 0

instance : DecidablePred (Opens m) := fun _ => inferInstanceAs (Decidable (_ = _))

def openedBefore (k : ℕ) : ℕ := Nat.count (Opens m) k

/-- The last index below `n` at which a block opens whose wrapped number is `p`. -/
def lastOpening : ℕ → Option ℕ
  | 0 => none
  | k + 1 =>
    if Opens m k ∧ BitVec.ofNat w (openedBefore m k) = p then some k else lastOpening k

theorem openedBefore_succ (k : ℕ) :
    openedBefore m (k + 1) = openedBefore m k + if Opens m k then 1 else 0 :=
  Nat.count_succ _ _

theorem lastOpening_lt {n k : ℕ} (h : lastOpening m p n = some k) : k < n := by
  induction n with
  | zero => simp [lastOpening] at h
  | succ n ih =>
    rw [lastOpening] at h
    split_ifs at h with hopen
    · cases h
      omega
    · exact (ih h).trans (Nat.lt_succ_self n)

theorem lastOpening_opens {n k : ℕ} (h : lastOpening m p n = some k) :
    Opens m k ∧ BitVec.ofNat w (openedBefore m k) = p := by
  induction n with
  | zero => simp [lastOpening] at h
  | succ n ih =>
    rw [lastOpening] at h
    split_ifs at h with hopen
    · cases h
      exact hopen
    · exact ih h

theorem foldl_step (xs : List α) (out : β) :
    xs.foldl (step m p f) ⟨0, 0, out⟩ =
      { counter := BitVec.ofNat w xs.length
        opened := BitVec.ofNat w (openedBefore m xs.length)
        out := ((lastOpening m p xs.length).bind fun k => xs[k]?).elim out f } := by
  induction xs using List.reverseRecOn with
  | nil => simp [openedBefore, lastOpening]
  | append_singleton xs x ih =>
    have hkeep : ((lastOpening m p xs.length).bind fun k => (xs ++ [x])[k]?) =
        (lastOpening m p xs.length).bind fun k => xs[k]? := by
      cases h : lastOpening m p xs.length with
      | none => rfl
      | some k => exact List.getElem?_append_left (lastOpening_lt m p h)
    rw [List.foldl_append, ih, List.length_append, List.length_singleton, lastOpening,
      openedBefore_succ]
    by_cases hopen : Opens m xs.length
    · have hzero : BitVec.ofNat w xs.length % m = 0 := hopen
      by_cases hblock : BitVec.ofNat w (openedBefore m xs.length) = p
      · simp [step, hzero, hopen, hblock, BitVec.ofNat_add]
      · simp [step, hzero, hopen, hblock, BitVec.ofNat_add, Ne.symm hblock, hkeep]
    · have hzero : ¬BitVec.ofNat w xs.length % m = 0 := hopen
      simp only [List.foldl_cons, List.foldl_nil, step, if_neg hzero, hopen, false_and,
        if_false, Nat.add_zero, BitVec.ofNat_add, hkeep]
      rfl

variable {m p}

theorem toNat_pos (hm : m ≠ 0) : 0 < m.toNat := by
  rw [Nat.pos_iff_ne_zero]
  exact fun h => hm (BitVec.eq_of_toNat_eq (by simpa using h))

theorem opens_iff_dvd {k : ℕ} (hk : k < 2 ^ w) : Opens m k ↔ m.toNat ∣ k := by
  rw [Opens, ← BitVec.toNat_inj, BitVec.toNat_umod, BitVec.toNat_ofNat, Nat.mod_eq_of_lt hk,
    Nat.dvd_iff_mod_eq_zero]
  rfl

theorem openedBefore_eq {k : ℕ} (hm : m ≠ 0) (hk : k ≤ 2 ^ w) :
    openedBefore m k = (k + m.toNat - 1) / m.toNat := by
  have hpos := toNat_pos hm
  induction k with
  | zero => simp [openedBefore, Nat.div_eq_of_lt (Nat.sub_lt hpos Nat.one_pos)]
  | succ k ih =>
    rw [openedBefore_succ, ih (by omega), Blocks.blocks_succ hpos]
    simp only [opens_iff_dvd (show k < 2 ^ w by omega)]

/-- Below `2 ^ w` the block number `p` is read at index `p * m` and nowhere else. -/
theorem opens_block_iff {k p : ℕ} (hm : m ≠ 0) (hk : k < 2 ^ w) (hp : p < 2 ^ w) :
    (Opens m k ∧ BitVec.ofNat w (openedBefore m k) = BitVec.ofNat w p) ↔
      k = p * m.toNat := by
  have hpos := toNat_pos hm
  have hbefore : m.toNat ∣ k → openedBefore m k = k / m.toNat := by
    intro h
    obtain ⟨q, rfl⟩ := h
    rw [openedBefore_eq hm hk.le, Nat.mul_div_cancel_left _ hpos, Blocks.blocks_mul hpos]
  rw [opens_iff_dvd hk]
  constructor
  · intro h
    obtain ⟨hdvd, hnum⟩ := h
    have hq : k / m.toNat < 2 ^ w := (Nat.div_le_self _ _).trans_lt hk
    have hnat := congrArg BitVec.toNat hnum
    rw [hbefore hdvd, BitVec.toNat_ofNat, BitVec.toNat_ofNat, Nat.mod_eq_of_lt hq,
      Nat.mod_eq_of_lt hp] at hnat
    rw [← hnat, Nat.div_mul_cancel hdvd]
  · rintro rfl
    have hdvd : m.toNat ∣ p * m.toNat := Nat.dvd_mul_left _ _
    exact ⟨hdvd, by rw [hbefore hdvd, Nat.mul_div_cancel _ hpos]⟩

theorem lastOpening_eq {n p : ℕ} (hm : m ≠ 0) (hn : n ≤ 2 ^ w) (hp : p < 2 ^ w) :
    lastOpening m (BitVec.ofNat w p) n =
      if p * m.toNat < n then some (p * m.toNat) else none := by
  induction n with
  | zero => simp [lastOpening]
  | succ n ih =>
    rw [lastOpening, ih (by omega)]
    simp only [opens_block_iff hm (show n < 2 ^ w by omega) hp]
    split_ifs <;> first | omega | simp_all

/-- However long the list, an index `p * m` that is reached below `2 ^ w` opens block
`p`, so the scan does store something. -/
theorem lastOpening_isSome {n p : ℕ} (hm : m ≠ 0) (hp : p < 2 ^ w)
    (hstart : p * m.toNat < 2 ^ w) (hn : p * m.toNat < n) :
    ∃ k, lastOpening m (BitVec.ofNat w p) n = some k := by
  induction n with
  | zero => omega
  | succ n ih =>
    rw [lastOpening]
    split_ifs with hopen
    · exact ⟨n, rfl⟩
    · apply ih
      have hne : n ≠ p * m.toNat := by
        rintro rfl
        exact hopen ((opens_block_iff hm hstart hp).mpr rfl)
      omega

end BlockScan
end MaskPool
