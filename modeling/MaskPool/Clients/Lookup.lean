import MaskPool.Clients.Addresses
import MaskPool.Foundations.FirstMatch
import MaskPool.Pool.DomainStart

/-!
# What `client_get_mask_domain` looks up, and what it reserves

The position of an address is the index of the first listed prefix that contains it.
The capacity check compares the number of client addresses with the number of masks,
so nothing ties the position times the block size to the pool: the lookup succeeds
with a block that ends behind the pool, or with no block at all.
-/

namespace MaskPool

open BlockScan

theorem clientCount_snoc (host : Host) (client : Client) (listed : Ipv6Prefix) :
    clientCount host (client ++ [listed]) =
      clientCount host client + getAddr6Count host listed := by
  rw [clientCount, List.foldl_append, List.foldl_cons, List.foldl_nil]
  rfl

theorem getAddr6Count_full {host : Host} {listed : Ipv6Prefix} (hlen : listed.len = 128) :
    getAddr6Count host listed = 1 := by
  have hnat := toNat_full hlen
  apply BitVec.eq_of_toNat_eq
  rw [getAddr6Count_toNat (by omega) (by omega), hnat]
  rfl

def position (host : Host) (client : Client) (addr : In6Addr) : Option ℕ :=
  client.findIdx? fun listed => prefixContains host listed addr

theorem listedPos_eq (host : Host) (addr : In6Addr) (client : Client) (ipv6Pos : Word) :
    listedPos host addr client ipv6Pos =
      (position host client addr).map fun p => ipv6Pos + BitVec.ofNat 32 p := by
  induction client generalizing ipv6Pos with
  | nil => rfl
  | cons listed rest ih =>
    rw [listedPos, position, List.findIdx?_cons]
    split_ifs with hcontains
    · simp
    · rw [ih, position, Option.map_map]
      congr 1
      funext p
      have hone : (1 : Word) = BitVec.ofNat 32 1 := rfl
      rw [Function.comp_apply, BitVec.add_assoc, hone, ← BitVec.ofNat_add, Nat.add_comm]

/-- The capacity check of `client_get_mask_domain` lets the database pass. -/
def WithinCapacity (host : Host) (client : Client) (pool4 : Pool4) : Prop :=
  clientCount host client ≤ pool4Count pool4

instance (host : Host) (client : Client) (pool4 : Pool4) :
    Decidable (WithinCapacity host client pool4) := inferInstanceAs (Decidable (_ ≤ _))

variable {host : Host} {client : Client} {pool4 : Pool4} {addr : In6Addr}
  {result : ClientMaskDomain} {m : Word} {p : ℕ}

theorem clientGetMaskDomain_crowded (h : ¬WithinCapacity host client pool4) :
    clientGetMaskDomain host client pool4 addr result m = (1, result) := by
  rw [clientGetMaskDomain, if_pos (BitVec.not_le.mp h)]

theorem clientGetMaskDomain_eq (h : WithinCapacity host client pool4) :
    clientGetMaskDomain host client pool4 addr result m =
      match position host client addr with
      | none => (-ESRCH, result)
      | some p => pool4Taddr4FindPos pool4 (BitVec.ofNat 32 p) result m := by
  rw [clientGetMaskDomain, if_neg (BitVec.not_lt.mpr h), listedPos_eq]
  cases position host client addr with
  | none => rfl
  | some p => simp

theorem clientGetMaskDomain_unlisted (h : WithinCapacity host client pool4)
    (hp : position host client addr = none) :
    clientGetMaskDomain host client pool4 addr result m = (-ESRCH, result) := by
  rw [clientGetMaskDomain_eq h, hp]

theorem clientGetMaskDomain_zero (h : WithinCapacity host client pool4)
    (hp : position host client addr = some p) :
    clientGetMaskDomain host client pool4 addr result 0 = (1, result) := by
  rw [clientGetMaskDomain_eq h, hp]
  rfl

theorem clientGetMaskDomain_listed (h : WithinCapacity host client pool4)
    (hp : position host client addr = some p) (hm : m ≠ 0) :
    clientGetMaskDomain host client pool4 addr result m =
      (0, (domainStart pool4 (BitVec.ofNat 32 p) m).elim result (domainAt m)) := by
  rw [clientGetMaskDomain_eq h, hp]
  exact pool4Taddr4FindPos_eq _ _ _ hm

theorem clientGetMaskDomain_succeeds :
    (clientGetMaskDomain host client pool4 addr result m).1 = 0 ↔
      WithinCapacity host client pool4 ∧ (position host client addr).isSome ∧ m ≠ 0 := by
  by_cases h : WithinCapacity host client pool4
  · cases hp : position host client addr with
    | none => simp [clientGetMaskDomain_unlisted h hp, ESRCH]
    | some p =>
      by_cases hm : m = 0
      · rw [hm, clientGetMaskDomain_zero h hp]
        simp
      · rw [clientGetMaskDomain_listed h hp hm]
        simp only [h, hm, Option.isSome_some, ne_eq, not_false_eq_true, and_self]
  · rw [clientGetMaskDomain_crowded h]
    simp [h]

/-- A lookup that succeeds at position `p` finds the whole block in the pool and leaves
its domain in `*result`. -/
def ReservesBlock (host : Host) (client : Client) (pool4 : Pool4) (addr : In6Addr)
    (m : Word) (result : ClientMaskDomain) : Prop :=
  (clientGetMaskDomain host client pool4 addr result m).1 = 0 →
    ∀ p, position host client addr = some p →
      (((p + 1) * m.toNat : ℕ) : ℤ) ≤ (pool4Count pool4).toInt ∧
        ∃ x, (poolMasks pool4)[p * m.toNat]? = some x ∧
          (clientGetMaskDomain host client pool4 addr result m).2 = domainAt m x

/-- The last time the wrapping counters read the start of block `p`, they stand at the
mask with index `p * m`. Only a pool of more than `2 ^ 32` ports can fail this. -/
def ReopensInPlace (pool4 : Pool4) (p : ℕ) (m : Word) : Prop :=
  ∀ k, lastOpening m (BitVec.ofNat 32 p) (poolMasks pool4).length = some k →
    (poolMasks pool4)[k]? = (poolMasks pool4)[p * m.toNat]?

theorem reopensInPlace_of_small (hm : m ≠ 0) (hsmall : (poolMasks pool4).length ≤ 2 ^ 32)
    (hp : p < 2 ^ 32) : ReopensInPlace pool4 p m := by
  intro k hk
  rw [lastOpening_eq hm hsmall hp] at hk
  split_ifs at hk
  cases hk
  rfl

theorem start_lt_of_block_le (hordered : OrderedRanges pool4) (hm : m ≠ 0)
    (hfits : (((p + 1) * m.toNat : ℕ) : ℤ) ≤ (pool4Count pool4).toInt) :
    p * m.toNat < (poolMasks pool4).length ∧ (p + 1) * m.toNat < 2 ^ 31 ∧ p < 2 ^ 32 := by
  have hpos := toNat_pos hm
  have htrue := pool4Count_toInt_le hordered
  have hword := BitVec.toInt_lt (x := pool4Count pool4)
  have hblock : (p + 1) * m.toNat = p * m.toNat + m.toNat := Nat.succ_mul p m.toNat
  have hp := Nat.le_mul_of_pos_right p hpos
  rw [hblock] at hfits ⊢
  omega

/-- The mask stored for a block inside the pool is the one at the last opening. -/
theorem domainStart_of_block_le (hordered : OrderedRanges pool4) (hm : m ≠ 0)
    (hfits : (((p + 1) * m.toNat : ℕ) : ℤ) ≤ (pool4Count pool4).toInt) :
    ∃ k x, lastOpening m (BitVec.ofNat 32 p) (poolMasks pool4).length = some k ∧
      (poolMasks pool4)[k]? = some x ∧
      domainStart pool4 (BitVec.ofNat 32 p) m = some x := by
  obtain ⟨hstart, hend, hp⟩ := start_lt_of_block_le hordered hm hfits
  have hlow : p * m.toNat < 2 ^ 32 :=
    (Nat.mul_le_mul_right _ p.le_succ).trans_lt (hend.trans (by decide))
  obtain ⟨k, hk⟩ := lastOpening_isSome hm hp hlow hstart
  have hx := List.getElem?_eq_getElem (lastOpening_lt m _ hk)
  exact ⟨k, _, hk, hx, by rw [domainStart, hk, Option.bind_some, hx]⟩

/-- A lookup reserves its block exactly when it is refused for another reason, or the
block of the position does lie in the pool. -/
theorem reservesBlock_iff (hordered : OrderedRanges pool4) :
    ReservesBlock host client pool4 addr m result ↔
      ¬WithinCapacity host client pool4 ∨ m = 0 ∨
        ∀ p, position host client addr = some p →
          (((p + 1) * m.toNat : ℕ) : ℤ) ≤ (pool4Count pool4).toInt ∧
            ReopensInPlace pool4 p m := by
  rw [ReservesBlock, clientGetMaskDomain_succeeds]
  by_cases hcap : WithinCapacity host client pool4
  swap
  · simp [hcap]
  by_cases hm : m = 0
  · simp [hm]
  cases hpos : position host client addr with
  | none => simp
  | some p =>
    simp only [hcap, hm, Option.isSome_some, ne_eq, not_false_eq_true, and_self,
      forall_true_left, not_true_eq_false, false_or, Option.some.injEq, forall_eq',
      clientGetMaskDomain_listed hcap hpos hm]
    apply and_congr_right
    intro hfits
    obtain ⟨k, x, hk, hx, hdomain⟩ := domainStart_of_block_le hordered hm hfits
    rw [hdomain, ReopensInPlace, hk]
    simp only [Option.some.injEq, forall_eq', hx, Option.elim_some]
    constructor
    · intro h
      obtain ⟨y, hy, hxy⟩ := h
      have hfirst : x = y := congrArg ClientMaskDomain.first hxy
      rw [hy, hfirst]
    · intro h
      exact ⟨x, h.symm, rfl⟩

theorem reservesBlock_iff_twoClients :
    ReservesBlock Host.x86 [⟨⟨1, 0, 0, 1⟩, 128⟩, ⟨⟨1, 0, 0, 2⟩, 128⟩] [⟨1, 1, 1, ⟨5, 9⟩⟩]
      ⟨1, 0, 0, 2⟩ 2 ⟨⟨0, 0⟩, 0, 0⟩ := by
  apply (reservesBlock_iff (by decide)).mpr
  refine Or.inr (Or.inr ?_)
  intro p hp
  have hsecond : position Host.x86 [⟨⟨1, 0, 0, 1⟩, 128⟩, ⟨⟨1, 0, 0, 2⟩, 128⟩] ⟨1, 0, 0, 2⟩ =
      some 1 := by decide
  cases hsecond.symm.trans hp
  exact ⟨by decide, reopensInPlace_of_small (by decide) (by decide) (by decide)⟩

/-- With only the ports 5 and 6 the capacity check still passes, the first block takes
both, and the second client gets 0 and whatever was in `*result`. -/
theorem secondClient_unreserved :
    OrderedRanges [⟨1, 1, 1, ⟨5, 6⟩⟩] ∧
      clientGetMaskDomain Host.x86 [⟨⟨1, 0, 0, 1⟩, 128⟩, ⟨⟨1, 0, 0, 2⟩, 128⟩]
          [⟨1, 1, 1, ⟨5, 6⟩⟩] ⟨1, 0, 0, 2⟩ ⟨⟨7, 7⟩, 7, 7⟩ 2 = (0, ⟨⟨7, 7⟩, 7, 7⟩) ∧
      ¬ReservesBlock Host.x86 [⟨⟨1, 0, 0, 1⟩, 128⟩, ⟨⟨1, 0, 0, 2⟩, 128⟩]
        [⟨1, 1, 1, ⟨5, 6⟩⟩] ⟨1, 0, 0, 2⟩ 2 ⟨⟨7, 7⟩, 7, 7⟩ := by
  refine ⟨by decide, by decide, ?_⟩
  intro h
  obtain ⟨hfits, -⟩ := h (by decide) 1 (by decide)
  exact absurd hfits (by decide)

end MaskPool
