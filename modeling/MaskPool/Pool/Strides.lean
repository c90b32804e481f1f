import MaskPool.Pool.NthMask

/-!
# `pool4_get_nth_taddr` under any stride

For a first address that need not be in the pool and a stride that need not be one, the
function still selects pool indices in increasing order: it starts at the first entry its
test accepts, goes on inside it from the first port, and in every later entry from
`range.min`.
-/

namespace MaskPool

/-- Where `pool4_get_nth_taddr` stands when it returns 0: the list position of the entry,
the entry, and the loop variable. -/
structure Selection where
  pos : ℕ
  entry : Pool4Entry
  i : Word
  deriving DecidableEq, Repr

def Selection.taddr (s : Selection) : Ipv4TransportAddr :=
  { l3 := s.entry.addr, l4 := s.i.truncate 16 }

/-- The pool index: by entry, then by port. -/
def Selection.index (s : Selection) : ℕ ×ₗ ℕ := toLex (s.pos, s.taddr.l4.toNat)

def loopStart (domain : ClientMaskDomain) (entry : Pool4Entry) (flag : Bool) : BitVec 16 :=
  if flag then entry.range.min else domain.first.l4

/-- The loops of `pool4_get_nth_taddr`, keeping track of the list position. -/
def nthSelection (domain : ClientMaskDomain) : Pool4 → ℕ → Bool → ℕ → Option Selection
  | [], _, _, _ => none
  | entry :: rest, pos, flag, n =>
    if startsIn domain entry || flag then
      match nthPort entry.range.max domain.step n
          ((loopStart domain entry flag).zeroExtend 32) with
      | .found i => some { pos := pos, entry := entry, i := i }
      | .missing n => nthSelection domain rest (pos + 1) true n
    else nthSelection domain rest (pos + 1) flag n

theorem nthTaddr_eq_selection (domain : ClientMaskDomain) (pool4 : Pool4) (pos : ℕ)
    (flag : Bool) (n : ℕ) :
    nthTaddr domain pool4 flag n =
      (nthSelection domain pool4 pos flag n).map Selection.taddr := by
  induction pool4 generalizing pos flag n with
  | nil => rfl
  | cons entry rest ih =>
    cases flag with
    | true =>
      simp only [nthTaddr, nthSelection, loopStart, Bool.or_true, if_true, Bool.not_true,
        Bool.false_eq_true, if_false]
      cases nthPort entry.range.max domain.step n (entry.range.min.zeroExtend 32) with
      | found i => rfl
      | missing n => exact ih (pos + 1) true n
    | false =>
      by_cases hstart : startsIn domain entry
      · simp only [nthTaddr, nthSelection, loopStart, hstart, Bool.true_or, if_true,
          Bool.not_false, Bool.false_eq_true, if_false]
        cases nthPort entry.range.max domain.step n (domain.first.l4.zeroExtend 32) with
        | found i => rfl
        | missing n => exact ih (pos + 1) true n
      · simp only [nthTaddr, nthSelection, hstart, Bool.or_false, Bool.false_eq_true,
          if_false]
        exact ih (pos + 1) false n

def entrySelections (domain : ClientMaskDomain) (pos : ℕ) (entry : Pool4Entry)
    (start : BitVec 16) : List Selection :=
  (strided start.toNat entry.range.max.toNat domain.step.toNat).map fun i =>
    { pos := pos, entry := entry, i := BitVec.ofNat 32 i }

def walkSelections (domain : ClientMaskDomain) : Pool4 → ℕ → Bool → List Selection
  | [], _, _ => []
  | entry :: rest, pos, flag =>
    if startsIn domain entry || flag then
      entrySelections domain pos entry (loopStart domain entry flag) ++
        walkSelections domain rest (pos + 1) true
    else walkSelections domain rest (pos + 1) flag

variable {domain : ClientMaskDomain} {pool4 : Pool4} {pos : ℕ} {flag : Bool}

theorem nthSelection_eq (hstep : 1 ≤ domain.step.toNat)
    (hwide : domain.step.toNat ≤ 2 ^ 31 - 65536) (pool4 : Pool4) (pos : ℕ) (flag : Bool)
    (n : ℕ) :
    nthSelection domain pool4 pos flag n = (walkSelections domain pool4 pos flag)[n]? := by
  induction pool4 generalizing pos flag n with
  | nil => simp [nthSelection, walkSelections]
  | cons entry rest ih =>
    by_cases hstart : startsIn domain entry || flag
    · simp only [nthSelection, walkSelections, hstart, if_true, ih]
      exact nthPort_index (fun i => (⟨pos, entry, i⟩ : Selection)) hstep hwide _ _ n
    · simp only [nthSelection, walkSelections, hstart, if_false, ih, Bool.false_eq_true]

theorem mem_strided {a max s i : ℕ} (h : i ∈ strided a max s) : a ≤ i ∧ i ≤ max := by
  rw [strided, List.mem_range'] at h
  obtain ⟨j, hj, rfl⟩ := h
  have hs : 0 < s := by
    rcases Nat.eq_zero_or_pos s with rfl | hs
    · simp at hj
    · exact hs
  have hround := (Nat.le_div_iff_mul_le hs).mp (Nat.succ_le_of_lt hj)
  rw [Nat.succ_mul, Nat.mul_comm] at hround
  omega

theorem toNat_truncate_port {max : BitVec 16} {i : ℕ} (h : i ≤ max.toNat) :
    ((BitVec.ofNat 32 i).truncate 16).toNat = i := by
  have hmax := max.isLt
  rw [BitVec.truncate_eq_setWidth, BitVec.toNat_setWidth, BitVec.toNat_ofNat]
  omega

theorem mem_entrySelections {entry : Pool4Entry} {start : BitVec 16} {x : Selection}
    (hx : x ∈ entrySelections domain pos entry start) :
    x.pos = pos ∧ x.entry = entry ∧ start.toNat ≤ x.taddr.l4.toNat ∧
      x.taddr.l4.toNat ≤ entry.range.max.toNat := by
  obtain ⟨i, hi, rfl⟩ := List.mem_map.mp hx
  obtain ⟨hlo, hhi⟩ := mem_strided hi
  rw [Selection.taddr, toNat_truncate_port hhi]
  exact ⟨rfl, rfl, hlo, hhi⟩

theorem entrySelections_pairwise (hstep : 1 ≤ domain.step.toNat) (pos : ℕ)
    (entry : Pool4Entry) (start : BitVec 16) :
    (entrySelections domain pos entry start).Pairwise fun x y => x.index < y.index := by
  rw [entrySelections, List.pairwise_map]
  apply (List.pairwise_lt_range' domain.step.toNat hstep).imp_of_mem
  intro i j hi hj hlt
  rw [Selection.index, Selection.index, Prod.Lex.toLex_lt_toLex, Selection.taddr,
    Selection.taddr, toNat_truncate_port (mem_strided hi).2,
    toNat_truncate_port (mem_strided hj).2]
  exact Or.inr ⟨rfl, hlt⟩

theorem walkSelections_sound {x : Selection} (hx : x ∈ walkSelections domain pool4 pos flag) :
    pos ≤ x.pos ∧ pool4[x.pos - pos]? = some x.entry ∧
      x.entry.range.min.toNat ≤ x.taddr.l4.toNat ∧
        x.taddr.l4.toNat ≤ x.entry.range.max.toNat := by
  induction pool4 generalizing pos flag with
  | nil => cases hx
  | cons entry rest ih =>
    have hlater (flag : Bool) (hx : x ∈ walkSelections domain rest (pos + 1) flag) :
        pos ≤ x.pos ∧ (entry :: rest)[x.pos - pos]? = some x.entry ∧
          x.entry.range.min.toNat ≤ x.taddr.l4.toNat ∧
            x.taddr.l4.toNat ≤ x.entry.range.max.toNat := by
      obtain ⟨hpos, hget, hports⟩ := ih hx
      refine ⟨by omega, ?_, hports⟩
      rw [show x.pos - pos = x.pos - (pos + 1) + 1 by omega, List.getElem?_cons_succ, hget]
    rw [walkSelections] at hx
    split_ifs at hx with hstart
    · rcases List.mem_append.mp hx with hhere | hx
      · obtain ⟨hpos, rfl, hlo, hhi⟩ := mem_entrySelections hhere
        refine ⟨hpos.ge, by rw [hpos, Nat.sub_self]; rfl, ?_, hhi⟩
        cases flag with
        | true => exact hlo
        | false =>
          rw [Bool.or_false] at hstart
          simp only [startsIn, Bool.and_eq_true, decide_eq_true_eq] at hstart
          exact le_trans hstart.1.2 hlo
      · exact hlater true hx
    · exact hlater flag hx

theorem walkSelections_pairwise (hstep : 1 ≤ domain.step.toNat) (pool4 : Pool4) (pos : ℕ)
    (flag : Bool) :
    (walkSelections domain pool4 pos flag).Pairwise fun x y => x.index < y.index := by
  induction pool4 generalizing pos flag with
  | nil => exact List.Pairwise.nil
  | cons entry rest ih =>
    rw [walkSelections]
    split_ifs with hstart
    · refine List.pairwise_append.mpr
        ⟨entrySelections_pairwise hstep pos entry _, ih (pos + 1) true, ?_⟩
      intro x hx y hy
      have hhere := (mem_entrySelections hx).1
      have hlater := (walkSelections_sound hy).1
      rw [Selection.index, Selection.index, Prod.Lex.toLex_lt_toLex]
      exact Or.inl (show x.pos < y.pos by omega)
    · exact ih (pos + 1) flag

/-- Nothing is selected before the first address in the first entry the test accepts. -/
theorem walkSelections_from {x : Selection}
    (hx : x ∈ walkSelections domain pool4 pos false) :
    ∃ e, pool4.findIdx? (startsIn domain) = some e ∧
      toLex (pos + e, domain.first.l4.toNat) ≤ x.index := by
  induction pool4 generalizing pos with
  | nil => cases hx
  | cons entry rest ih =>
    rw [walkSelections, Bool.or_false] at hx
    rw [List.findIdx?_cons]
    split_ifs at hx ⊢ with hstart
    · refine ⟨0, rfl, ?_⟩
      rw [Selection.index, Prod.Lex.toLex_le_toLex]
      rcases List.mem_append.mp hx with hhere | hx
      · obtain ⟨hpos, -, hlo, -⟩ := mem_entrySelections hhere
        exact Or.inr ⟨hpos.symm, hlo⟩
      · exact Or.inl (walkSelections_sound hx).1
    · obtain ⟨e, he, hle⟩ := ih hx
      refine ⟨e + 1, by rw [he]; rfl, ?_⟩
      rw [show pos + (e + 1) = pos + 1 + e by omega]
      exact hle

def selected (pool4 : Pool4) (domain : ClientMaskDomain) (n : Word) : Option Selection :=
  nthSelection domain pool4 0 false (n % domain.count).toNat

/-- Its results follow the pool. -/
structure NthOrdered (pool4 : Pool4) (domain : ClientMaskDomain) : Prop where
  periodic : ∀ n result, pool4GetNthTaddr pool4 domain n result =
    pool4GetNthTaddr pool4 domain (n % domain.count) result
  answers : ∀ n result, pool4GetNthTaddr pool4 domain n result =
    some ((selected pool4 domain n).elim (-ESRCH, result) fun s => (0, s.taddr))
  /-- A selection is a port of the entry at its position, not before the first address in
  the first entry that matches it. -/
  sound : ∀ n s, selected pool4 domain n = some s →
    pool4[s.pos]? = some s.entry ∧ s.taddr.l3 = s.entry.addr ∧
      s.entry.range.min ≤ s.taddr.l4 ∧ s.taddr.l4 ≤ s.entry.range.max ∧
      ∃ e, pool4.findIdx? (startsIn domain) = some e ∧
        toLex (e, domain.first.l4.toNat) ≤ s.index
  /-- A later offset that is found has all earlier ones found, at smaller pool indices. -/
  increasing : ∀ k l : Word, k < l → l < domain.count → ∀ s,
    selected pool4 domain l = some s →
      ∃ s', selected pool4 domain k = some s' ∧ s'.index < s.index

theorem pool4GetNthTaddr_ordered (pool4 : Pool4) {domain : ClientMaskDomain}
    (hcount : 1 ≤ domain.count.toNat) (hstep : 1 ≤ domain.step.toNat)
    (hwide : domain.step.toNat ≤ 2 ^ 31 - 65536) : NthOrdered pool4 domain := by
  have hne := ne_zero_of_one_le hcount
  have hwalk (n : Word) : selected pool4 domain n =
      (walkSelections domain pool4 0 false)[(n % domain.count).toNat]? :=
    nthSelection_eq hstep hwide pool4 0 false _
  have hbelow (n : Word) (hn : n < domain.count) : (n % domain.count).toNat = n.toNat := by
    rw [BitVec.toNat_umod]
    exact Nat.mod_eq_of_lt hn
  refine ⟨?_, ?_, ?_, ?_⟩
  · intro n result
    have hmod : n % domain.count % domain.count = n % domain.count := by
      apply BitVec.eq_of_toNat_eq
      rw [BitVec.toNat_umod, BitVec.toNat_umod, Nat.mod_mod]
    rw [pool4GetNthTaddr, pool4GetNthTaddr, hmod]
  · intro n result
    rw [pool4GetNthTaddr, if_neg hne, nthTaddr_eq_selection domain pool4 0, selected]
    cases nthSelection domain pool4 0 false (n % domain.count).toNat <;> rfl
  · intro n s hs
    rw [hwalk] at hs
    have hmem := List.mem_of_getElem? hs
    obtain ⟨-, hget, hlo, hhi⟩ := walkSelections_sound hmem
    obtain ⟨e, he, hfrom⟩ := walkSelections_from hmem
    rw [Nat.zero_add] at hfrom
    exact ⟨hget, rfl, hlo, hhi, e, he, hfrom⟩
  · intro k l hkl hl s hs
    have hpairwise := walkSelections_pairwise hstep pool4 0 false
    rw [hwalk, hbelow l hl] at hs
    obtain ⟨hlt, rfl⟩ := List.getElem?_eq_some_iff.mp hs
    have hk : k.toNat < (walkSelections domain pool4 0 false).length := lt_trans hkl hlt
    refine ⟨_, ?_, List.pairwise_iff_getElem.mp hpairwise k.toNat l.toNat hk hlt hkl⟩
    rw [hwalk, hbelow k (BitVec.lt_trans hkl hl)]
    exact List.getElem?_eq_getElem hk

/-- Every other port from the second on: the third mask is the first of the second entry,
the second one lies before it. -/
theorem pool4GetNthTaddr_ordered_twoEntries :
    ∃ s s', selected [⟨1, 6, 9, ⟨5, 9⟩⟩, ⟨1, 6, 4, ⟨1, 3⟩⟩] ⟨⟨9, 6⟩, 2, 4⟩ 2 = some s ∧
      s.taddr = ⟨4, 1⟩ ∧
        selected [⟨1, 6, 9, ⟨5, 9⟩⟩, ⟨1, 6, 4, ⟨1, 3⟩⟩] ⟨⟨9, 6⟩, 2, 4⟩ 1 = some s' ∧
          s'.index < s.index := by
  have hordered : NthOrdered [⟨1, 6, 9, ⟨5, 9⟩⟩, ⟨1, 6, 4, ⟨1, 3⟩⟩] ⟨⟨9, 6⟩, 2, 4⟩ :=
    pool4GetNthTaddr_ordered _ (by decide) (by decide) (by decide)
  have hthird : selected [⟨1, 6, 9, ⟨5, 9⟩⟩, ⟨1, 6, 4, ⟨1, 3⟩⟩] ⟨⟨9, 6⟩, 2, 4⟩ 2 =
      some ⟨1, ⟨1, 6, 4, ⟨1, 3⟩⟩, 1⟩ := by decide
  obtain ⟨s', hsecond, hlt⟩ := hordered.increasing 1 2 (by decide) (by decide) _ hthird
  exact ⟨_, s', hthird, rfl, hsecond, hlt⟩

end MaskPool
