import MaskPool.Clients.Lookup
import MaskPool.Model.GetMask

/-!
# What one call of `get_mask` does

The final scan matches the domain's first mask and nothing else, so its budget `n`
never matters: the call hands out that mask when the pool has it and the BIB does not,
and the spool mask otherwise. Everything before the scan is registration and lookup.
-/

namespace MaskPool

def MaskScan.mask : MaskScan → Option Ipv4TransportAddr
  | .returned result => some result
  | .scanned _ _ => none

theorem MaskScan.eq_returned {scan : MaskScan} {taddr : Ipv4TransportAddr}
    (h : scan.mask = some taddr) : scan = .returned taddr := by
  cases scan with
  | returned result => rw [Option.some.inj h]
  | scanned n result => cases h

theorem MaskScan.eq_scanned {scan : MaskScan} (h : scan.mask = none) :
    ∃ n result, scan = .scanned n result := by
  cases scan with
  | returned result => cases h
  | scanned n result => exact ⟨n, result, rfl⟩

/-- The mask 0.0.0.0:0 that `get_spool_mask` answers with. -/
def spoolMask : Ipv4TransportAddr := { l3 := 0, l4 := 0 }

@[simp] theorem getSpoolMask_eq (host : Host) (packet : Packet) (spool : Pool4) :
    getSpoolMask host packet spool = (0, spoolMask) := by
  rw [getSpoolMask, cpuToBe32_zero]
  rfl

theorem mask_scanPorts (domain : ClientMaskDomain) (entry : Pool4Entry) (ports : List ℕ)
    (n : Word) (result : Ipv4TransportAddr) :
    (scanPorts domain entry ports n result).mask =
      if entry.addr = domain.first.l3 ∧ domain.first.l4.toNat ∈ ports ∧
          bibdbContains4 domain.first = false then some domain.first else none := by
  induction ports generalizing n result with
  | nil => simp [scanPorts, MaskScan.mask]
  | cons i ports ih =>
    unfold scanPorts
    by_cases hfirst : entry.addr = domain.first.l3 ∧ i = domain.first.l4.toNat
    · obtain ⟨haddr, rfl⟩ := hfirst
      have htaddr : ({ l3 := entry.addr, l4 := BitVec.ofNat 16 domain.first.l4.toNat } :
          Ipv4TransportAddr) = domain.first := by
        rw [haddr, BitVec.ofNat_toNat, BitVec.setWidth_eq]
      rw [if_pos ⟨haddr, rfl⟩]
      simp only [htaddr]
      cases hbib : bibdbContains4 domain.first with
      | false => simp [MaskScan.mask, haddr]
      | true =>
        simp only [Bool.not_true, Bool.false_eq_true, if_false, Bool.true_eq_false,
          and_false]
        split_ifs with hbudget
        · rfl
        · rw [ih]
          simp [hbib]
    · rw [if_neg hfirst, ih]
      congr 1
      rw [eq_comm (a := i)] at hfirst
      simp only [List.mem_cons, eq_iff_iff]
      tauto

theorem mask_scanEntry (domain : ClientMaskDomain) (entry : Pool4Entry) (n : Word)
    (result : Ipv4TransportAddr) :
    (scanPorts domain entry (entryPorts entry) n result).mask =
      if domain.first ∈ entryMasks entry ∧ bibdbContains4 domain.first = false then
        some domain.first
      else none := by
  rw [mask_scanPorts]
  congr 1
  rw [eq_iff_iff, mem_entryMasks, mem_entryPorts, ← and_assoc, eq_comm]
  rfl

theorem mask_scanEntries (domain : ClientMaskDomain) (cpool : Pool4) (n : Word)
    (result : Ipv4TransportAddr) :
    (scanEntries domain cpool n result).mask =
      if domain.first ∈ poolMasks cpool ∧ bibdbContains4 domain.first = false then
        some domain.first
      else none := by
  induction cpool generalizing n result with
  | nil => simp [scanEntries, MaskScan.mask]
  | cons entry rest ih =>
    have hhead := mask_scanEntry domain entry n result
    simp only [poolMasks_cons, List.mem_append, scanEntries]
    by_cases hfound : domain.first ∈ entryMasks entry ∧ bibdbContains4 domain.first = false
    · rw [if_pos hfound] at hhead
      rw [MaskScan.eq_returned hhead, if_pos ⟨Or.inl hfound.1, hfound.2⟩]
      rfl
    · rw [if_neg hfound] at hhead
      obtain ⟨n', result', hscan⟩ := MaskScan.eq_scanned hhead
      simp only [hscan, ih]
      congr 1
      rw [eq_iff_iff]
      tauto

/-- The mask a call comes back with when its domain starts at `first`. -/
def offered (cpool : Pool4) (first : Ipv4TransportAddr) : Ipv4TransportAddr :=
  if first ∈ poolMasks cpool ∧ bibdbContains4 first = false then first else spoolMask

/-- The arguments of one call, with the content its uninitialised local starts from. -/
structure MaskCall where
  packet : Packet
  cpool : Pool4
  spool : Pool4
  result : Ipv4TransportAddr
  masksPerClient : Word
  maskDomain : ClientMaskDomain
  deriving DecidableEq, Repr

def MaskCall.plain (saddr : In6Addr) (cpool : Pool4) (masksPerClient : Word) : MaskCall where
  packet := { hdr := { saddr := saddr } }
  cpool := cpool
  spool := []
  result := spoolMask
  masksPerClient := masksPerClient
  maskDomain := { first := spoolMask, step := 0, count := 0 }

def MaskCall.saddr (call : MaskCall) : In6Addr := call.packet.hdr.saddr

def MaskCall.serve (host : Host) (kmalloc : Bool) (client : Client) (call : MaskCall) :
    ℤ × Client × Ipv4TransportAddr :=
  getMask host call.packet call.cpool call.spool client call.result call.masksPerClient
    kmalloc call.maskDomain

/-- The database a call looks its source up in. -/
def registered (host : Host) (kmalloc : Bool) (client : Client) (saddr : In6Addr) :
    Client :=
  if clientAddrExist host client saddr then client
  else if kmalloc then client ++ [{ address := saddr, len := 128 }]
  else client

def MaskCall.lookup (host : Host) (kmalloc : Bool) (client : Client) (call : MaskCall) :
    ℤ × ClientMaskDomain :=
  clientGetMaskDomain host (registered host kmalloc client call.saddr) call.cpool
    call.saddr call.maskDomain call.masksPerClient

theorem registerSource_eq (host : Host) (client : Client) (saddr : In6Addr)
    (kmalloc : Bool) :
    registerSource host client saddr kmalloc =
      some (registered host kmalloc client saddr) := by
  unfold registerSource registered
  cases clientAddrExist host client saddr with
  | true => simp
  | false => cases kmalloc <;> simp [dynamicAssignment, clientAdd]

variable {host : Host} {kmalloc : Bool} {client : Client} {call : MaskCall}

theorem serve_empty (h : call.cpool = []) :
    call.serve host kmalloc client = (0, client, spoolMask) := by
  simp [MaskCall.serve, getMask, h, pool4IsEmpty]

theorem serve_eq (h : call.cpool ≠ []) :
    call.serve host kmalloc client =
      if (call.lookup host kmalloc client).1 ≠ 0 then
        ((call.lookup host kmalloc client).1,
          registered host kmalloc client call.saddr, call.result)
      else
        (0, registered host kmalloc client call.saddr,
          offered call.cpool (call.lookup host kmalloc client).2.first) := by
  have hpool : pool4IsEmpty call.cpool = false := by
    rw [pool4IsEmpty, List.isEmpty_eq_false_iff]
    exact h
  have hscan := mask_scanEntries (call.lookup host kmalloc client).2 call.cpool
    (call.lookup host kmalloc client).2.count call.result
  unfold MaskCall.serve getMask
  rw [hpool, if_neg Bool.false_ne_true, registerSource_eq]
  simp only [getSpoolMask_eq]
  rw [← MaskCall.saddr]
  change (if (call.lookup host kmalloc client).1 ≠ 0 then _ else _) = _
  split_ifs with herror
  · rfl
  · have hzero : (call.lookup host kmalloc client).1 = 0 := not_not.mp herror
    rw [offered]
    split_ifs at hscan ⊢ with hfound
    · have hreturned := MaskScan.eq_returned hscan
      simp only [MaskCall.lookup] at hreturned hzero ⊢
      simp only [hreturned, hzero]
    · obtain ⟨n, result, hscanned⟩ := MaskScan.eq_scanned hscan
      simp only [MaskCall.lookup] at hscanned ⊢
      simp only [hscanned]

end MaskPool
