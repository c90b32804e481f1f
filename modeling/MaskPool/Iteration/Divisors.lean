import MaskPool.Clients.History
import MaskPool.Iteration.ClientRotation
import MaskPool.Iteration.MaskCount

/-!
# The divisors of the iterators

`pool4_foreach_taddr4` divides by the pool's count when the offset exceeds it, and
`client_for_each` divides by the number of addresses before it looks at anything. Neither
tests for 0, so an empty client database cannot be iterated at all, an empty pool only
from offset 0, and sums that wrap to 0 fault like empty ones. The count of a domain that
`pool4_taddr4_find_pos` wrote is never 0.
-/

namespace MaskPool

variable {host : Host} {client : Client} {pool4 : Pool4} {σ : Type*}

theorem reduceOffset_eq_none {offset entries : Word} :
    reduceOffset offset entries = none ↔ offset ≠ 0 ∧ entries = 0 := by
  unfold reduceOffset
  split_ifs with hgt hzero
  · refine iff_of_true rfl ⟨?_, hzero⟩
    rintro rfl
    exact absurd hgt (Nat.not_lt_zero _)
  · exact iff_of_false not_false fun h => hzero h.2
  · refine iff_of_false not_false ?_
    intro h
    obtain ⟨hoffset, rfl⟩ := h
    exact hgt ((BitVec.pos_iff_ne_zero _).mpr hoffset)

theorem pool4Count_eq_zero (pool4 : Pool4) :
    pool4Count pool4 = 0 ↔ (2 ^ 32 : ℤ) ∣ widthSum pool4 := by
  have hzero : (0 : Word).toNat = 0 := rfl
  rw [pool4Count_ofInt, ← BitVec.toNat_inj, BitVec.toNat_ofInt, hzero]
  omega

theorem pool4ForeachTaddr4_eq_none (cback : Pool4Mask → σ → ℤ × σ) (arg : σ)
    (offset : Word) :
    pool4ForeachTaddr4 pool4 cback arg offset = none ↔
      offset ≠ 0 ∧ (2 ^ 32 : ℤ) ∣ widthSum pool4 := by
  rw [pool4ForeachTaddr4_eq, Option.map_eq_none_iff, reduceOffset_eq_none,
    pool4Count_eq_zero]

theorem clientCount_eq_zero (host : Host) (client : Client) :
    clientCount host client = 0 ↔ 2 ^ 32 ∣ (client.map (machineCount host)).sum := by
  have hzero : (0 : Word).toNat = 0 := rfl
  rw [← BitVec.toNat_inj, clientCount_toNat, hzero, machineTotal, Nat.dvd_iff_mod_eq_zero]

theorem clientForEach_eq_none (cb : In6Addr → σ → ℤ × σ) (arg : σ) (offset : Word) :
    clientForEach host client cb arg offset = none ↔
      2 ^ 32 ∣ (client.map (machineCount host)).sum := by
  rw [← clientCount_eq_zero]
  constructor
  · intro h
    by_contra hne
    have htotal : client.foldl (fun total listed => total + getAddr6Count host listed) 0 =
      clientCount host client := rfl
    simp only [clientForEach, htotal, if_neg hne] at h
    split at h
    · cases h
    · split at h <;> cases h
  · intro h
    exact clientForEach_zero h cb arg offset

/-- Whatever `*result` held before, `pool4_taddr4_find_pos` leaves this domain there. -/
def Writes (pool4 : Pool4) (p m : Word) (domain : ClientMaskDomain) : Prop :=
  ∀ result, (pool4Taddr4FindPos pool4 p result m).2 = domain

theorem Writes.count_ne_zero {p m : Word} {domain : ClientMaskDomain}
    (h : Writes pool4 p m domain) : domain.count ≠ 0 := by
  have hresult := h ⟨⟨0, 0⟩, 1, 1⟩
  by_cases hm : m = 0
  · rw [pool4Taddr4FindPos, if_pos hm] at hresult
    rw [← hresult]
    decide
  · rw [pool4Taddr4FindPos_eq _ _ _ hm] at hresult
    cases hstart : domainStart pool4 p m with
    | none =>
      rw [hstart] at hresult
      rw [← hresult]
      exact (by decide : (1 : Word) ≠ 0)
    | some first =>
      rw [hstart] at hresult
      rw [← hresult]
      exact hm

theorem pool4GetNthTaddr_ne_none {domain : ClientMaskDomain} (h : domain.count ≠ 0)
    (n : Word) (result : Ipv4TransportAddr) :
    ∃ answer, pool4GetNthTaddr pool4 domain n result = some answer := by
  rw [pool4GetNthTaddr, if_neg h]
  cases nthTaddr domain pool4 false (n % domain.count).toNat with
  | none => exact ⟨_, rfl⟩
  | some taddr => exact ⟨_, rfl⟩

/-- Every entry point returns, and an empty database is left without a callback. -/
structure NoFault (host : Host) (pool4 : Pool4) (client : Client) (offset : Word) :
    Prop where
  masks : ∀ (σ : Type) (cback : Pool4Mask → σ → ℤ × σ) arg,
    ∃ answer, pool4ForeachTaddr4 pool4 cback arg offset = some answer ∧
      (pool4 = [] → answer = (0, arg))
  addresses : ∀ (σ : Type) (cb : In6Addr → σ → ℤ × σ) arg,
    ∃ answer, clientForEach host client cb arg offset = some answer ∧
      (client = [] → answer = (0, arg))
  domains : ∀ writer p m domain, Writes writer p m domain → ∀ n result,
    ∃ answer, pool4GetNthTaddr pool4 domain n result = some answer

/-- Offset 0, or range widths that do not add up to a multiple of `2 ^ 32`; and address
counts that do not. -/
def DivisorsNonzero (host : Host) (pool4 : Pool4) (client : Client) (offset : Word) : Prop :=
  (offset = 0 ∨ ¬(2 ^ 32 : ℤ) ∣ widthSum pool4) ∧
    ¬2 ^ 32 ∣ (client.map (machineCount host)).sum

theorem pool4ForeachTaddr4_returns {offset : Word}
    (h : offset = 0 ∨ ¬(2 ^ 32 : ℤ) ∣ widthSum pool4) (cback : Pool4Mask → σ → ℤ × σ)
    (arg : σ) :
    ∃ answer, pool4ForeachTaddr4 pool4 cback arg offset = some answer ∧
      (pool4 = [] → answer = (0, arg)) := by
  cases hanswer : pool4ForeachTaddr4 pool4 cback arg offset with
  | none =>
    obtain ⟨hoffset, hdvd⟩ := (pool4ForeachTaddr4_eq_none cback arg offset).mp hanswer
    exact absurd h (not_or.mpr ⟨hoffset, not_not.mpr hdvd⟩)
  | some answer =>
    refine ⟨answer, rfl, ?_⟩
    rintro rfl
    rw [pool4ForeachTaddr4_eq, Option.map_eq_some_iff] at hanswer
    obtain ⟨_, -, rfl⟩ := hanswer
    rfl

theorem clientForEach_returns (h : ¬2 ^ 32 ∣ (client.map (machineCount host)).sum)
    (cb : In6Addr → σ → ℤ × σ) (arg : σ) (offset : Word) :
    ∃ answer, clientForEach host client cb arg offset = some answer ∧
      (client = [] → answer = (0, arg)) := by
  cases hanswer : clientForEach host client cb arg offset with
  | none => exact absurd ((clientForEach_eq_none cb arg offset).mp hanswer) h
  | some answer =>
    refine ⟨answer, rfl, ?_⟩
    rintro rfl
    exact absurd (dvd_zero _) h

theorem noFault_iff (host : Host) (pool4 : Pool4) (client : Client) (offset : Word) :
    NoFault host pool4 client offset ↔ DivisorsNonzero host pool4 client offset := by
  constructor
  · intro h
    constructor
    · by_contra hneither
      obtain ⟨hoffset, hdvd⟩ := not_or.mp hneither
      obtain ⟨answer, hsome, -⟩ := h.masks Unit (fun _ s => (0, s)) ()
      rw [(pool4ForeachTaddr4_eq_none _ _ _).mpr ⟨hoffset, not_not.mp hdvd⟩] at hsome
      cases hsome
    · intro hdvd
      obtain ⟨answer, hsome, -⟩ := h.addresses Unit (fun _ s => (0, s)) ()
      rw [(clientForEach_eq_none _ _ _).mpr hdvd] at hsome
      cases hsome
  · intro h
    obtain ⟨hmasks, haddresses⟩ := h
    refine ⟨fun _ => pool4ForeachTaddr4_returns hmasks, ?_, ?_⟩
    · intro σ cb arg
      exact clientForEach_returns haddresses cb arg offset
    · intro writer p m domain hwrites n result
      exact pool4GetNthTaddr_ne_none hwrites.count_ne_zero n result

/-- In the databases any two sequences of operations lead to, the entry points return
exactly under `DivisorsNonzero`; on an empty pool that asks for offset 0, and an empty
client database never meets it. -/
theorem iterators_divide (host : Host) (ops : List Pool4Op) (clientOps : List ClientOp)
    (offset : Word) :
    (NoFault host (poolAfter ops) (clientAfter host clientOps) offset ↔
      DivisorsNonzero host (poolAfter ops) (clientAfter host clientOps) offset) ∧
    (clientAfter host clientOps = [] →
      ¬DivisorsNonzero host (poolAfter ops) (clientAfter host clientOps) offset) ∧
    (poolAfter ops = [] →
      DivisorsNonzero host (poolAfter ops) (clientAfter host clientOps) offset →
        offset = 0) := by
  refine ⟨noFault_iff _ _ _ _, ?_, ?_⟩
  · intro hempty h
    rw [hempty] at h
    exact h.2 (dvd_zero _)
  · intro hempty h
    rw [hempty] at h
    rcases h.1 with hoffset | hwidth
    · exact hoffset
    · exact absurd (dvd_zero _) hwidth

/-- Fresh databases fault, the pool at offset 1 and the clients at any; so do four /98
prefixes, whose `2 ^ 32` addresses wrap to none. -/
theorem emptyDatabases_fault :
    pool4ForeachTaddr4 (poolAfter []) (fun _ calls => (0, calls + 1)) 0 1 = none ∧
      clientForEach Host.x86 (clientAfter Host.x86 []) (fun _ calls => (0, calls + 1)) 0 0 =
        none ∧
      clientForEach Host.powerpc (clientAfter Host.powerpc
          (List.replicate 4 (.add ⟨⟨0, 0, 0, 0⟩, 98⟩))) (fun _ calls => (0, calls + 1)) 0 0 =
        none ∧
      ¬NoFault Host.x86 (poolAfter []) (clientAfter Host.x86 []) 0 := by
  refine ⟨rfl, rfl, ?_, ?_⟩
  · rw [clientForEach_eq_none]
    decide
  · intro h
    obtain ⟨answer, hsome, -⟩ := h.addresses ℕ (fun _ calls => (0, calls + 1)) 0
    cases hsome

end MaskPool
