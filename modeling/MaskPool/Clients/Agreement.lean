import MaskPool.Assignment.Serving

/-!
# The two membership paths

`client_addr_exist` counts addresses up, `client_get_mask_domain` masks all four words
alike. For entries of length 98 to 128 the two tests overlap in `InBlock` only: the
first accepts carries out of the last word, the second accepts other values in the low
bits of the first three words and base addresses above the one asked for.
-/

namespace MaskPool

/-- Every word agrees above the last `128 - len` bits of that word. -/
def AgreesHigh (listed : Ipv6Prefix) (addr : In6Addr) : Prop :=
  listed.address.word0.toNat / 2 ^ (128 - listed.len.toNat) =
      addr.word0.toNat / 2 ^ (128 - listed.len.toNat) ∧
    listed.address.word1.toNat / 2 ^ (128 - listed.len.toNat) =
      addr.word1.toNat / 2 ^ (128 - listed.len.toNat) ∧
    listed.address.word2.toNat / 2 ^ (128 - listed.len.toNat) =
      addr.word2.toNat / 2 ^ (128 - listed.len.toNat) ∧
    listed.address.word3.toNat / 2 ^ (128 - listed.len.toNat) =
      addr.word3.toNat / 2 ^ (128 - listed.len.toNat)

/-- The first word agrees, and the last three as one number lie within the entry's
number of addresses from its base address. -/
def InSpan (listed : Ipv6Prefix) (addr : In6Addr) : Prop :=
  addr.word0 = listed.address.word0 ∧ listed.address.low ≤ addr.low ∧
    addr.low < listed.address.low + 2 ^ (128 - listed.len.toNat)

/-- The first three words agree, and the last one lies at or above the base address in
the same aligned block. -/
def InBlock (listed : Ipv6Prefix) (addr : In6Addr) : Prop :=
  addr.word0 = listed.address.word0 ∧ addr.word1 = listed.address.word1 ∧
    addr.word2 = listed.address.word2 ∧ listed.address.word3.toNat ≤ addr.word3.toNat ∧
      listed.address.word3.toNat / 2 ^ (128 - listed.len.toNat) =
        addr.word3.toNat / 2 ^ (128 - listed.len.toNat)

instance (listed : Ipv6Prefix) (addr : In6Addr) : Decidable (AgreesHigh listed addr) :=
  inferInstanceAs (Decidable (_ ∧ _))

instance (listed : Ipv6Prefix) (addr : In6Addr) : Decidable (InSpan listed addr) :=
  inferInstanceAs (Decidable (_ ∧ _))

instance (listed : Ipv6Prefix) (addr : In6Addr) : Decidable (InBlock listed addr) :=
  inferInstanceAs (Decidable (_ ∧ _))

theorem sub_lt_of_div_eq {a b K : ℕ} (hK : 0 < K) (h : a / K = b / K) : b < a + K := by
  have ha := Nat.div_add_mod a K
  have hb := Nat.div_add_mod b K
  have hlt := Nat.mod_lt b hK
  rw [← h] at hb
  omega

/-- Both tests accept an address exactly when it lies in the entry's block. -/
theorem inBlock_iff {listed : Ipv6Prefix} {addr : In6Addr}
    (hlong : 98 ≤ listed.len.toNat) :
    AgreesHigh listed addr ∧ InSpan listed addr ↔ InBlock listed addr := by
  obtain ⟨⟨l0, l1, l2, l3⟩, len⟩ := listed
  obtain ⟨a0, a1, a2, a3⟩ := addr
  have hK : 2 ^ (128 - len.toNat) ≤ 2 ^ 30 := Nat.pow_le_pow_right (by omega) (by
    change 98 ≤ len.toNat at hlong
    omega)
  have hKpos := Nat.two_pow_pos (128 - len.toNat)
  have hl2 := l2.isLt
  have hl3 := l3.isLt
  have ha2 := a2.isLt
  have ha3 := a3.isLt
  simp only [AgreesHigh, InSpan, InBlock, In6Addr.low]
  generalize 2 ^ (128 - len.toNat) = K at *
  constructor
  · intro h
    obtain ⟨⟨-, -, -, hlast⟩, h0, hlow, hhigh⟩ := h
    have hup := sub_lt_of_div_eq hKpos hlast
    have hdown := sub_lt_of_div_eq hKpos hlast.symm
    -- the span is too short for a difference in the middle words
    have h1 : a1 = l1 := BitVec.eq_of_toNat_eq (by omega)
    subst h1
    have h2 : a2 = l2 := BitVec.eq_of_toNat_eq (by omega)
    subst h2
    exact ⟨h0, rfl, rfl, by omega, hlast⟩
  · intro h
    obtain ⟨rfl, rfl, rfl, hle, hlast⟩ := h
    have hup := sub_lt_of_div_eq hKpos hlast
    exact ⟨⟨rfl, rfl, rfl, hlast⟩, rfl, by omega, by omega⟩

def enumeratingPosition (host : Host) (client : Client) (addr : In6Addr) : Option ℕ :=
  client.findIdx? fun listed => decide (Enumerates host listed addr)

/-- The first entry that either test accepts is one that both accept. -/
def FirstMatchInBlock (client : Client) (addr : In6Addr) : Prop :=
  ∀ listed, client.find? (fun listed => AgreesHigh listed addr ∨ InSpan listed addr) =
    some listed → InBlock listed addr

variable {host : Host} {client : Client} {pool4 : Pool4} {addr : In6Addr} {m : Word}

theorem clientAddrExist_eq : clientAddrExist host client addr =
    (enumeratingPosition host client addr).isSome := by
  rw [Bool.eq_iff_iff, clientAddrExist_iff, enumeratingPosition, List.findIdx?_isSome,
    List.any_eq_true]
  simp only [decide_eq_true_eq]

theorem positions_agree_iff (hlen : LengthsWithin 98 128 client) :
    position host client addr = enumeratingPosition host client addr ↔
      FirstMatchInBlock client addr := by
  have hmasked : position host client addr =
      client.findIdx? fun listed => decide (AgreesHigh listed addr) := by
    apply FirstMatch.findIdx?_congr
    intro listed hmem
    obtain ⟨hlo, hhi⟩ := hlen listed hmem
    rw [Bool.eq_iff_iff, decide_eq_true_eq]
    exact prefixContains_iff (by omega) hhi
  have hcounted : enumeratingPosition host client addr =
      client.findIdx? fun listed => decide (InSpan listed addr) := by
    apply FirstMatch.findIdx?_congr
    intro listed hmem
    obtain ⟨hlo, hhi⟩ := hlen listed hmem
    rw [Bool.eq_iff_iff, decide_eq_true_eq, decide_eq_true_eq, enumerates_iff,
      getAddr6Count_toNat (by omega) hhi]
    rfl
  rw [hmasked, hcounted, FirstMatch.findIdx?_eq_iff, FirstMatchInBlock]
  simp only [decide_eq_true_eq, Bool.decide_or]
  apply forall_congr'
  intro listed
  apply imp_congr_right
  intro hfirst
  exact inBlock_iff (hlen listed (List.mem_of_find?_eq_some hfirst)).1

/-- The two paths answer alike for one address, in the database as it stands and inside
`get_mask`, which consults them for a nonempty pool only. -/
structure PathsAgree (host : Host) (client : Client) (pool4 : Pool4) (m : Word)
    (addr : In6Addr) : Prop where
  existIff : ∀ result, clientAddrExist host client addr = true ↔
    (clientGetMaskDomain host client pool4 addr result m).1 ≠ -ESRCH
  sameEntry : ∀ result p, clientAddrExist host client addr = true →
    (clientGetMaskDomain host client pool4 addr result m).1 = 0 →
    position host client addr = some p → enumeratingPosition host client addr = some p
  served : ∀ call : MaskCall, call.saddr = addr → call.cpool = pool4 →
    call.masksPerClient = m →
    (call.serve host true client).1 ≠ -ESRCH ∧
      (pool4 ≠ [] → (call.serve host true client).1 = 0 → ∀ p,
        position host (registered host true client addr) addr = some p →
        ∃ listed, (registered host true client addr)[p]? = some listed ∧
          Enumerates host listed addr)

theorem lookup_ne_esrch_iff (hcap : WithinCapacity host client pool4)
    (result : ClientMaskDomain) :
    (clientGetMaskDomain host client pool4 addr result m).1 ≠ -ESRCH ↔
      (position host client addr).isSome := by
  cases hp : position host client addr with
  | none => simp [clientGetMaskDomain_unlisted hcap hp]
  | some p =>
    by_cases hm : m = 0
    · rw [hm, clientGetMaskDomain_zero hcap hp]
      simp [ESRCH]
    · rw [clientGetMaskDomain_listed hcap hp hm]
      simp [ESRCH]

theorem position_registered (hagree : position host client addr =
    enumeratingPosition host client addr) :
    ∃ p listed, position host (registered host true client addr) addr = some p ∧
      (registered host true client addr)[p]? = some listed ∧
      Enumerates host listed addr := by
  unfold registered
  rw [clientAddrExist_eq, ← hagree]
  cases hp : position host client addr with
  | none =>
    have hfull : prefixContains host { address := addr, len := 128 } addr = true :=
      (prefixContains_full rfl).mpr rfl
    refine ⟨client.length, { address := addr, len := 128 },
      FirstMatch.snoc_of_none hp hfull, ?_, (enumerates_full rfl).mpr rfl⟩
    simp
  | some p =>
    rw [hp] at hagree
    obtain ⟨listed, hget, henum⟩ := FirstMatch.exists_getElem?_of_some hagree.symm
    exact ⟨p, listed, hp, hget, of_decide_eq_true henum⟩

theorem zero_ne_esrch : (0 : ℤ) ≠ -ESRCH := by decide

theorem one_ne_esrch : (1 : ℤ) ≠ -ESRCH := by decide

theorem serve_code_ne_esrch (call : MaskCall) (hlisted :
    (position host (registered host true client call.saddr) call.saddr).isSome) :
    (call.serve host true client).1 ≠ -ESRCH := by
  by_cases hempty : call.cpool = []
  · rw [serve_empty hempty]
    exact zero_ne_esrch
  rw [serve_eq hempty]
  split_ifs
  · by_cases hcap : WithinCapacity host (registered host true client call.saddr) call.cpool
    · exact (lookup_ne_esrch_iff hcap call.maskDomain).mpr hlisted
    · rw [MaskCall.lookup, clientGetMaskDomain_crowded hcap]
      exact one_ne_esrch
  · exact zero_ne_esrch

/-- While the database fits the pool, the paths agree exactly when they find the
address first at the same entry. -/
theorem pathsAgree_iff_positions (hcap : WithinCapacity host client pool4) (hm : m ≠ 0) :
    PathsAgree host client pool4 m addr ↔
      position host client addr = enumeratingPosition host client addr := by
  constructor
  · intro h
    have hsome := (h.existIff ⟨⟨0, 0⟩, 0, 0⟩).trans (lookup_ne_esrch_iff hcap _)
    rw [clientAddrExist_eq] at hsome
    cases hp : position host client addr with
    | none =>
      rw [hp] at hsome
      cases hq : enumeratingPosition host client addr with
      | none => rfl
      | some q => simp [hq] at hsome
    | some p =>
      have hexist : clientAddrExist host client addr = true := by
        rw [clientAddrExist_eq, hsome, hp, Option.isSome_some]
      have hzero : (clientGetMaskDomain host client pool4 addr ⟨⟨0, 0⟩, 0, 0⟩ m).1 = 0 :=
        clientGetMaskDomain_succeeds.mpr ⟨hcap, by rw [hp, Option.isSome_some], hm⟩
      exact (h.sameEntry _ p hexist hzero hp).symm
  · intro hagree
    refine ⟨?_, ?_, ?_⟩
    · intro result
      rw [lookup_ne_esrch_iff hcap, clientAddrExist_eq, hagree]
    · intro result p _ _ hp
      rw [← hagree, hp]
    · intro call hsaddr hcpool hmasks
      obtain ⟨q, listed, hq, hget, henum⟩ := position_registered hagree
      refine ⟨serve_code_ne_esrch call (by rw [hsaddr, hq, Option.isSome_some]), ?_⟩
      intro _ _ p hp
      rw [hq] at hp
      cases hp
      exact ⟨listed, hget, henum⟩

/-- A database that does not fit the pool is refused with another code, so only an
address that `client_addr_exist` knows is treated alike. -/
theorem pathsAgree_iff_exist (hcap : ¬WithinCapacity host client pool4) :
    PathsAgree host client pool4 m addr ↔ clientAddrExist host client addr = true := by
  constructor
  · intro h
    apply (h.existIff ⟨⟨0, 0⟩, 0, 0⟩).mpr
    rw [clientGetMaskDomain_crowded hcap]
    exact one_ne_esrch
  · intro hexist
    have hregistered : registered host true client addr = client := by
      rw [registered, if_pos hexist]
    refine ⟨?_, ?_, ?_⟩
    · intro result
      rw [clientGetMaskDomain_crowded hcap]
      exact iff_of_true hexist one_ne_esrch
    · intro result p _ hzero
      rw [clientGetMaskDomain_crowded hcap] at hzero
      cases hzero
    · rintro call rfl rfl rfl
      by_cases hempty : call.cpool = []
      · rw [serve_empty hempty]
        exact ⟨zero_ne_esrch, fun hne => absurd hempty hne⟩
      · have hlookup : (call.lookup host true client).1 = 1 := by
          rw [MaskCall.lookup, hregistered, clientGetMaskDomain_crowded hcap]
        rw [serve_eq hempty, if_pos (by rw [hlookup]; decide), hlookup]
        refine ⟨one_ne_esrch, ?_⟩
        intro _ hzero
        cases hzero

/-- The paths agree on an address exactly when its first match under either test lies in
the entry's block; behind a failing capacity check, when some entry spans it. -/
theorem pathsAgree_iff (hlen : LengthsWithin 98 128 client) (hm : 1 ≤ m.toNat) :
    PathsAgree host client pool4 m addr ↔
      if WithinCapacity host client pool4 then FirstMatchInBlock client addr
      else ∃ listed ∈ client, InSpan listed addr := by
  have hm' := ne_zero_of_one_le hm
  split_ifs with hcap
  · rw [pathsAgree_iff_positions hcap hm', positions_agree_iff hlen]
  · rw [pathsAgree_iff_exist hcap, clientAddrExist_iff]
    apply exists_congr
    intro listed
    apply and_congr_right
    intro hmem
    obtain ⟨hlo, hhi⟩ := hlen listed hmem
    rw [enumerates_iff, getAddr6Count_toNat (by omega) hhi]
    rfl

theorem pathsAgree_iff_twoPrefixes :
    PathsAgree Host.x86 [⟨⟨1, 0, 0, 0⟩, 122⟩, ⟨⟨2, 0, 0, 7⟩, 128⟩] [⟨1, 6, 9, ⟨0, 128⟩⟩] 1
      ⟨1, 0, 0, 9⟩ := by
  apply (pathsAgree_iff (by decide) (by decide)).mpr
  rw [if_pos (by decide)]
  intro listed hfirst
  have hblock : [(⟨⟨1, 0, 0, 0⟩, 122⟩ : Ipv6Prefix), ⟨⟨2, 0, 0, 7⟩, 128⟩].find? (fun listed =>
      AgreesHigh listed ⟨1, 0, 0, 9⟩ ∨ InSpan listed ⟨1, 0, 0, 9⟩) =
        some ⟨⟨1, 0, 0, 0⟩, 122⟩ := by decide
  cases hblock.symm.trans hfirst
  decide

/-- Under the word-wise mask the prefix ::/126 contains an address whose first word reads
1, on either host, without enumerating it: the lookup succeeds for an unknown address, and
`get_mask` serves it from the block of the prefix. -/
theorem otherFirstWord_contained :
    LengthsWithin 98 128 [⟨⟨0, 0, 0, 0⟩, 126⟩] ∧
      (∀ listed ∈ [(⟨⟨0, 0, 0, 0⟩, 126⟩ : Ipv6Prefix)],
        listed.HostBitsClear Host.x86 ∧ listed.HostBitsClear Host.powerpc) ∧
      WithinCapacity Host.x86 [⟨⟨0, 0, 0, 0⟩, 126⟩] [⟨1, 6, 9, ⟨0, 4⟩⟩] ∧
      clientAddrExist Host.x86 [⟨⟨0, 0, 0, 0⟩, 126⟩] ⟨1, 0, 0, 0⟩ = false ∧
      ¬PathsAgree Host.x86 [⟨⟨0, 0, 0, 0⟩, 126⟩] [⟨1, 6, 9, ⟨0, 4⟩⟩] 1 ⟨1, 0, 0, 0⟩ ∧
      ¬PathsAgree Host.powerpc [⟨⟨0, 0, 0, 0⟩, 126⟩] [⟨1, 6, 9, ⟨0, 4⟩⟩] 1 ⟨1, 0, 0, 0⟩ ∧
      (MaskCall.plain ⟨1, 0, 0, 0⟩ [⟨1, 6, 9, ⟨0, 4⟩⟩] 1).serve Host.x86 true
          [⟨⟨0, 0, 0, 0⟩, 126⟩] =
        (0, [⟨⟨0, 0, 0, 0⟩, 126⟩, ⟨⟨1, 0, 0, 0⟩, 128⟩], ⟨9, 0⟩) ∧
      position Host.x86 [⟨⟨0, 0, 0, 0⟩, 126⟩, ⟨⟨1, 0, 0, 0⟩, 128⟩] ⟨1, 0, 0, 0⟩ = some 0 := by
  refine ⟨by decide, by decide, by decide, by decide, ?_, ?_, by decide, by decide⟩
  all_goals
    intro h
    have hiff := h.existIff ⟨⟨0, 0⟩, 0, 0⟩
    exact absurd hiff (by decide)

end MaskPool
