import MaskPool.Clients.Lookup

/-!
# What the capacity check of `client_get_mask_domain` weighs

`client_count` adds up `1 << (128 - len)` in 32 bits. Below length 97 the shift runs off
its operand and the host decides what a prefix counts for; from length 97 on only the sum
can wrap. The check protects the pool as far as the wrapped sum exceeds it.
-/

namespace MaskPool

/-- The number of client addresses as an integer, for lengths up to 128. -/
def addressTotal (client : Client) : ℕ :=
  (client.map fun listed => 2 ^ (128 - listed.len.toNat)).sum

/-- What one prefix counts for on the machine. -/
def machineCount (host : Host) (listed : Ipv6Prefix) : ℕ :=
  if 97 ≤ listed.len.toNat ∧ listed.len.toNat ≤ 128 then 2 ^ (128 - listed.len.toNat)
  else (host.wildShift32 1 (128 - (listed.len.toNat : ℤ))).toNat

def machineTotal (host : Host) (client : Client) : ℕ :=
  (client.map (machineCount host)).sum % 2 ^ 32

theorem getAddr6Count_machine (host : Host) (listed : Ipv6Prefix) :
    (getAddr6Count host listed).toNat = machineCount host listed := by
  unfold machineCount
  split_ifs with hlong
  · exact getAddr6Count_toNat hlong.1 hlong.2
  · rw [getAddr6Count, Host.shl32, if_neg (by omega)]

theorem foldl_addr6Count (host : Host) (client : Client) (acc : Word) :
    client.foldl (fun i exist => i + getAddr6Count host exist) acc =
      acc + clientCount host client := by
  induction client generalizing acc with
  | nil => simp [clientCount]
  | cons listed rest ih =>
    rw [clientCount, List.foldl_cons, List.foldl_cons, ih, ih]
    simp [BitVec.add_assoc]

theorem clientCount_cons (host : Host) (listed : Ipv6Prefix) (rest : Client) :
    clientCount host (listed :: rest) = getAddr6Count host listed + clientCount host rest := by
  rw [clientCount, List.foldl_cons, foldl_addr6Count]
  simp

theorem clientCount_toNat (host : Host) (client : Client) :
    (clientCount host client).toNat = machineTotal host client := by
  induction client with
  | nil => rfl
  | cons listed rest ih =>
    rw [clientCount_cons, BitVec.toNat_add, getAddr6Count_machine, ih, machineTotal,
      machineTotal, List.map_cons, List.sum_cons, Nat.add_mod_mod]

theorem machineTotal_eq {host : Host} {client : Client}
    (hlen : LengthsWithin 97 128 client) :
    machineTotal host client = addressTotal client % 2 ^ 32 := by
  have hmap : client.map (machineCount host) =
      client.map fun listed => 2 ^ (128 - listed.len.toNat) := by
    apply List.map_congr_left
    intro listed hmem
    rw [machineCount, if_pos (hlen listed hmem)]
  rw [machineTotal, addressTotal, hmap]

variable {host : Host} {client : Client} {pool4 : Pool4}

/-- A database with more addresses than the pool has masks is refused. -/
def GuardSound (host : Host) (client : Client) (pool4 : Pool4) : Prop :=
  (poolMasks pool4).length < addressTotal client →
    ∀ addr result m, (clientGetMaskDomain host client pool4 addr result m).1 ≠ 0

theorem withinCapacity_iff (host : Host) (client : Client) (hordered : OrderedRanges pool4)
    (hsmall : (poolMasks pool4).length < 2 ^ 31) :
    WithinCapacity host client pool4 ↔
      machineTotal host client ≤ (poolMasks pool4).length := by
  rw [WithinCapacity, BitVec.le_def, clientCount_toNat, pool4Count_eq hordered,
    BitVec.toNat_ofNat, Nat.mod_eq_of_lt (hsmall.trans (by decide))]

/-- Every prefix contains its own address, so a nonempty database that passes the check
has a lookup that succeeds. -/
theorem exists_lookup_succeeds (hcap : WithinCapacity host client pool4)
    (hne : client ≠ []) : ∃ addr, ∀ result,
      (clientGetMaskDomain host client pool4 addr result 1).1 = 0 := by
  cases client with
  | nil => exact absurd rfl hne
  | cons listed rest =>
    refine ⟨listed.address, fun result => clientGetMaskDomain_succeeds.mpr ⟨hcap, ?_, ?_⟩⟩
    · have hself : prefixContains host listed listed.address = true := by
        simp [prefixContains]
      simp [position, List.findIdx?_cons, hself]
    · decide

theorem guardSound_iff (hordered : OrderedRanges pool4)
    (hsmall : (poolMasks pool4).length < 2 ^ 31) :
    GuardSound host client pool4 ↔
      addressTotal client ≤ (poolMasks pool4).length ∨
        (poolMasks pool4).length < machineTotal host client := by
  have hcap := withinCapacity_iff host client hordered hsmall
  constructor
  · intro h
    by_contra hneither
    obtain ⟨hmore, hpass⟩ := not_or.mp hneither
    have hne : client ≠ [] := by
      rintro rfl
      exact hmore (Nat.zero_le _)
    obtain ⟨addr, hzero⟩ :=
      exists_lookup_succeeds (hcap.mpr (Nat.le_of_not_lt hpass)) hne
    exact h (Nat.lt_of_not_le hmore) addr ⟨⟨0, 0⟩, 0, 0⟩ 1 (hzero _)
  · intro h hmore addr result m
    have hrefused : ¬WithinCapacity host client pool4 := by
      rw [hcap]
      omega
    rw [clientGetMaskDomain_crowded hrefused]
    exact one_ne_zero

theorem exists_pool_of_length (n : ℕ) :
    ∃ pool4, OrderedRanges pool4 ∧ (poolMasks pool4).length = n := by
  refine ⟨List.replicate n ⟨1, 6, 9, ⟨0, 0⟩⟩, ?_, ?_⟩
  · intro entry hentry
    rw [List.eq_of_mem_replicate hentry]
    decide
  · induction n with
    | zero => rfl
    | succ n ih =>
      rw [List.replicate_succ, poolMasks_cons, List.length_append, ih, length_entryMasks,
        Nat.add_comm]
      rfl

/-- The check refuses what it should at one pool exactly when the machine's total exceeds
the pool, or the true one does not; at every pool, exactly when the machine's total is not
below the true one, or is more than a pool can hold. -/
theorem capacityGuard_iff (host : Host) (client : Client) :
    (∀ pool4, OrderedRanges pool4 → (poolMasks pool4).length < 2 ^ 31 →
      (GuardSound host client pool4 ↔
        addressTotal client ≤ (poolMasks pool4).length ∨
          (poolMasks pool4).length < machineTotal host client)) ∧
    ((∀ pool4, OrderedRanges pool4 → (poolMasks pool4).length < 2 ^ 31 →
      GuardSound host client pool4) ↔
        addressTotal client ≤ machineTotal host client ∨
          2 ^ 31 ≤ machineTotal host client) := by
  refine ⟨fun pool4 => guardSound_iff, ?_⟩
  constructor
  · intro h
    by_contra hneither
    obtain ⟨hunder, hfits⟩ := not_or.mp hneither
    obtain ⟨pool4, hordered, hsize⟩ := exists_pool_of_length (machineTotal host client)
    have hsmall : (poolMasks pool4).length < 2 ^ 31 := by omega
    have hsound := (guardSound_iff hordered hsmall).mp (h pool4 hordered hsmall)
    omega
  · intro h pool4 hordered hsmall
    rw [guardSound_iff hordered hsmall]
    omega

/-- On x86 a /96 counts for one address, and on any host four /98 prefixes count for none:
a single port is enough for either. -/
theorem shortPrefix_undercounted :
    (poolMasks [⟨1, 6, 9, ⟨5, 5⟩⟩]).length < addressTotal [⟨⟨0, 0, 0, 0⟩, 96⟩] ∧
      clientGetMaskDomain Host.x86 [⟨⟨0, 0, 0, 0⟩, 96⟩] [⟨1, 6, 9, ⟨5, 5⟩⟩] ⟨0, 0, 0, 0⟩
        ⟨⟨7, 7⟩, 7, 7⟩ 1 = (0, ⟨⟨9, 5⟩, 1, 1⟩) ∧
      ¬GuardSound Host.x86 [⟨⟨0, 0, 0, 0⟩, 96⟩] [⟨1, 6, 9, ⟨5, 5⟩⟩] ∧
      ¬GuardSound Host.powerpc (List.replicate 4 ⟨⟨0, 0, 0, 0⟩, 98⟩)
        [⟨1, 6, 9, ⟨5, 5⟩⟩] := by
  refine ⟨by decide, by decide, ?_, ?_⟩
  all_goals
    intro h
    exact h (by decide) ⟨0, 0, 0, 0⟩ ⟨⟨7, 7⟩, 7, 7⟩ 1 (by decide)

end MaskPool
