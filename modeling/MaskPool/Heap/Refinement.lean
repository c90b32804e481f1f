import MaskPool.Heap.Functions

/-!
# Runs in memory refine runs on lists

On a memory that holds the databases any sequence of calls runs without a fault and
answers as it does on lists, when `kmalloc` never answers with an address that is in use.
What a run leaks are the entries of the databases it initialises once more.
-/

namespace MaskPool

open Rings RingStore

variable {κ σ : Type}

namespace Call

def map {β : Type} (f : κ → β) : Call κ σ → Call β σ
  | .pool4Init pool => .pool4Init pool
  | .pool4Add pool mark proto addr range kmalloc =>
    .pool4Add pool mark proto addr range (f kmalloc)
  | .pool4Rm pool mark proto addr range => .pool4Rm pool mark proto addr range
  | .pool4Flush pool => .pool4Flush pool
  | .pool4IsEmpty pool => .pool4IsEmpty pool
  | .pool4Contains pool mark proto addr range => .pool4Contains pool mark proto addr range
  | .pool4Count pool => .pool4Count pool
  | .pool4ForeachSample pool cb arg offset => .pool4ForeachSample pool cb arg offset
  | .pool4Taddr4FindPos pool ipv6Pos result masksPerClient =>
    .pool4Taddr4FindPos pool ipv6Pos result masksPerClient
  | .pool4ForeachTaddr4 pool cback arg offset => .pool4ForeachTaddr4 pool cback arg offset
  | .pool4GetNthTaddr pool domain n result => .pool4GetNthTaddr pool domain n result
  | .getMask packet result masksPerClient kmalloc maskDomain =>
    .getMask packet result masksPerClient (f kmalloc) maskDomain
  | .clientInit => .clientInit
  | .clientAdd prefix6 kmalloc => .clientAdd prefix6 (f kmalloc)
  | .clientDelete prefix6 => .clientDelete prefix6
  | .clientFlush => .clientFlush
  | .clientExist prefix6 => .clientExist prefix6
  | .clientCount => .clientCount
  | .clientForEachsample func arg offset => .clientForEachsample func arg offset
  | .clientForEach cb arg offset => .clientForEach cb arg offset
  | .clientAddrExist addr => .clientAddrExist addr
  | .clientGetMaskDomain pool addr result masksPerClient =>
    .clientGetMaskDomain pool addr result masksPerClient

/-- The allocator's answer, for the calls that may ask for one. -/
def kmalloc : Call κ σ → Option κ
  | .pool4Add _ _ _ _ _ kmalloc => some kmalloc
  | .getMask _ _ _ kmalloc _ => some kmalloc
  | .clientAdd _ kmalloc => some kmalloc
  | _ => none

/-- How many entries a call makes unreachable without freeing them. -/
def loses (sys : System) : Call κ σ → ℕ
  | .pool4Init name => (sys.pool name).length
  | .clientInit => sys.client.length
  | _ => 0

def losses (host : Host) (sys : System) : List (Call Bool σ) → ℕ
  | [] => 0
  | c :: calls => c.loses sys + losses host (sys.call host c).2 calls

end Call

namespace Heap

variable {Ptr : Type} {ops : Ops.{0, 0} Ptr} {laws : Laws ops} {heads : Database → Ptr}
  {mem : Memory ops Object} {sys : System} {lost fuel : ℕ} {host : Host} [DecidableEq Ptr]

/-- Whether the address a call gets from `kmalloc` is not in use when it asks. -/
def freshAnswer (mem : Memory ops Object) (c : Call (Option Ptr) σ) : Bool :=
  match c.kmalloc with
  | some (some p) => (mem.objects p).isNone
  | _ => true

def fresh (host : Host) (heads : Database → Ptr) (fuel : ℕ) :
    Memory ops Object → List (Call (Option Ptr) σ) → Bool
  | _, [] => true
  | mem, c :: calls =>
    freshAnswer mem c &&
      match call host heads fuel mem c with
      | .ok (_, mem) => fresh host heads fuel mem calls
      | .error _ => true

omit [DecidableEq Ptr] in
theorem freshAnswer_some {c : Call (Option Ptr) σ} {answer : Option Ptr}
    (hfresh : freshAnswer mem c) (hc : c.kmalloc = some answer) :
    ∀ p ∈ answer, mem.objects p = none := by
  rintro p rfl
  simpa [freshAnswer, hc] using hfresh

theorem pool_length_lt (hfuel : ∀ d, (sys.contents d).length + 1 < fuel) (name : PoolName) :
    (sys.pool name).length < fuel := by
  have hlength := hfuel name.database
  rw [sys.contents_pool, List.length_map] at hlength
  omega

theorem call_refines (h : Represents laws heads mem sys lost)
    (hfuel : ∀ d, (sys.contents d).length + 1 < fuel) (c : Call (Option Ptr) σ)
    (hfresh : freshAnswer mem c) :
    ∃ mem', call host heads fuel mem c =
        .ok ((sys.call host (c.map Option.isSome)).1, mem') ∧
      Represents laws heads mem' (sys.call host (c.map Option.isSome)).2
        (lost + (c.map Option.isSome).loses sys) := by
  have hpool := pool_length_lt hfuel
  have hclient : sys.client.length + 1 < fuel := by
    have hlength := hfuel .client
    rwa [sys.contents_client, List.length_map] at hlength
  have hclient' := Nat.lt_of_succ_lt hclient
  cases c with
  | pool4Init name =>
    obtain ⟨mem', hcall, h'⟩ := pool4Init_eq h name
    exact ⟨mem', by simp only [call, hcall]; rfl, h'⟩
  | pool4Add name mark proto addr range kmalloc =>
    obtain ⟨mem', hcall, h'⟩ :=
      pool4Add_eq h name mark proto addr range kmalloc (freshAnswer_some hfresh rfl)
    exact ⟨mem', by simp only [call, hcall]; rfl, h'⟩
  | pool4Rm name mark proto addr range =>
    obtain ⟨mem', hcall, h'⟩ := pool4Rm_eq h (hpool name) mark proto addr range
    exact ⟨mem', by simp only [call, hcall]; rfl, h'⟩
  | pool4Flush name =>
    obtain ⟨mem', hcall, h'⟩ := pool4Flush_eq h (hpool name)
    exact ⟨mem', by simp only [call, hcall]; rfl, h'⟩
  | pool4IsEmpty name => exact ⟨mem, by simp only [call, pool4IsEmpty_eq h]; rfl, h⟩
  | pool4Contains name mark proto addr range =>
    exact ⟨mem, by simp only [call, pool4Contains_eq h (hpool name)]; rfl, h⟩
  | pool4Count name => exact ⟨mem, by simp only [call, pool4Count_eq h (hpool name)]; rfl, h⟩
  | pool4ForeachSample name cb arg offset =>
    have hcall := foreachSample_eq h (sys.contents_pool name)
      Object.asPool4Entry_pool4Entry (hpool name) pool4Equals cb arg offset
    exact ⟨mem, by simp only [call, pool4ForeachSample, hcall]; rfl, h⟩
  | pool4Taddr4FindPos name ipv6Pos result masksPerClient =>
    exact ⟨mem, by simp only [call, pool4Taddr4FindPos_eq h (hpool name)]; rfl, h⟩
  | pool4ForeachTaddr4 name cback arg offset =>
    exact ⟨mem, by simp only [call, pool4ForeachTaddr4_eq h (hpool name)]; rfl, h⟩
  | pool4GetNthTaddr name domain n result =>
    exact ⟨mem, by simp only [call, pool4GetNthTaddr_eq h (hpool name)]; rfl, h⟩
  | getMask packet result masksPerClient kmalloc maskDomain =>
    obtain ⟨mem', hcall, h'⟩ := getMask_eq host h (hpool .cpool) hclient packet result
      masksPerClient kmalloc maskDomain (freshAnswer_some hfresh rfl)
    exact ⟨mem', by simp only [call, hcall]; rfl, h'⟩
  | clientInit =>
    obtain ⟨mem', hcall, h'⟩ := clientInit_eq h
    exact ⟨mem', by simp only [call, hcall]; rfl, h'⟩
  | clientAdd prefix6 kmalloc =>
    obtain ⟨mem', hcall, h'⟩ := clientAdd_eq h prefix6 kmalloc (freshAnswer_some hfresh rfl)
    exact ⟨mem', by simp only [call, hcall]; rfl, h'⟩
  | clientDelete prefix6 =>
    obtain ⟨mem', hcall, h'⟩ := clientDelete_eq h hclient' prefix6
    refine ⟨mem', ?_, h'⟩
    simp only [call, hcall, System.call, Call.map, clientDelete_eraseP]
    rfl
  | clientFlush =>
    obtain ⟨mem', hcall, h'⟩ := clientFlush_eq h hclient'
    exact ⟨mem', by simp only [call, hcall]; rfl, h'⟩
  | clientExist prefix6 => exact ⟨mem, by simp only [call, clientExist_eq h hclient']; rfl, h⟩
  | clientCount => exact ⟨mem, by simp only [call, clientCount_eq h hclient']; rfl, h⟩
  | clientForEachsample func arg offset =>
    have hcall := foreachSample_eq h sys.contents_client
      Object.asIpv6Client_ipv6Client hclient' prefix6Equals func arg offset
    exact ⟨mem, by simp only [call, clientForEachsample, hcall]; rfl, h⟩
  | clientForEach cb arg offset =>
    exact ⟨mem, by simp only [call, clientForEach_eq h hclient']; rfl, h⟩
  | clientAddrExist addr => exact ⟨mem, by simp only [call, clientAddrExist_eq h hclient']; rfl, h⟩
  | clientGetMaskDomain name addr result masksPerClient =>
    exact ⟨mem, by simp only [call, clientGetMaskDomain_eq host name h (hpool name) hclient']; rfl, h⟩

theorem length_setPool_le {pool4 : Pool4} (name : PoolName)
    (hlength : pool4.length ≤ (sys.pool name).length + 1) (d : Database) :
    ((sys.setPool name pool4).contents d).length ≤ (sys.contents d).length + 1 := by
  rw [sys.contents_setPool]
  by_cases hd : d = name.database
  · subst hd
    rwa [Function.update_self, sys.contents_pool, List.length_map, List.length_map]
  · rw [Function.update_of_ne hd]
    exact Nat.le_succ _

theorem length_setClient_le {client : Client} (hlength : client.length ≤ sys.client.length + 1)
    (d : Database) :
    (({ sys with client := client } : System).contents d).length ≤
      (sys.contents d).length + 1 := by
  rw [sys.contents_setClient]
  by_cases hd : d = .client
  · subst hd
    rwa [Function.update_self, sys.contents_client, List.length_map, List.length_map]
  · rw [Function.update_of_ne hd]
    exact Nat.le_succ _

theorem getMask_client (host : Host) (packet : Packet) (cpool spool : Pool4)
    (client : Client) (result : Ipv4TransportAddr) (masksPerClient : Word) (kmalloc : Bool)
    (maskDomain : ClientMaskDomain) :
    (MaskPool.getMask host packet cpool spool client result masksPerClient kmalloc
        maskDomain).2.1 = client ∨
      MaskPool.registerSource host client packet.hdr.saddr kmalloc =
        some (MaskPool.getMask host packet cpool spool client result masksPerClient kmalloc
          maskDomain).2.1 := by
  rw [MaskPool.getMask]
  cases MaskPool.pool4IsEmpty cpool with
  | true => exact Or.inl rfl
  | false =>
    cases MaskPool.registerSource host client packet.hdr.saddr kmalloc with
    | none => exact Or.inl rfl
    | some registered =>
      right
      simp only [Bool.false_eq_true, if_false]
      obtain ⟨error, domain⟩ := MaskPool.clientGetMaskDomain host registered cpool
        packet.hdr.saddr maskDomain masksPerClient
      by_cases herror : error = 0
      · simp only [ne_eq, herror, not_true, if_false]
        cases scanEntries domain cpool domain.count result <;> rfl
      · simp only [ne_eq, herror, not_false_iff, if_true]

theorem length_getMask_le (host : Host) (packet : Packet) (cpool spool : Pool4)
    (client : Client) (result : Ipv4TransportAddr) (masksPerClient : Word) (kmalloc : Bool)
    (maskDomain : ClientMaskDomain) :
    (MaskPool.getMask host packet cpool spool client result masksPerClient kmalloc
      maskDomain).2.1.length ≤ client.length + 1 := by
  rcases getMask_client host packet cpool spool client result masksPerClient kmalloc
    maskDomain with hsame | hregister
  · rw [hsame]
    exact Nat.le_succ _
  · exact registerSource_length hregister

theorem length_pool4Add_le (pool4 : Pool4) (mark : Word) (proto : BitVec 8) (addr : Word)
    (range : PortRange) (kmalloc : Bool) :
    (MaskPool.pool4Add pool4 mark proto addr range kmalloc).2.length ≤ pool4.length + 1 := by
  cases kmalloc <;> simp [MaskPool.pool4Add]

theorem length_clientAdd_le (client : Client) (prefix6 : Ipv6Prefix) (kmalloc : Bool) :
    (MaskPool.clientAdd client prefix6 kmalloc).2.length ≤ client.length + 1 := by
  cases kmalloc <;> simp [MaskPool.clientAdd]

theorem length_call_le (host : Host) (sys : System) (c : Call Bool σ) (d : Database) :
    ((sys.call host c).2.contents d).length ≤ (sys.contents d).length + 1 := by
  cases c with
  | pool4Init name => exact length_setPool_le name (Nat.zero_le _) d
  | pool4Add name mark proto addr range kmalloc =>
    exact length_setPool_le name (length_pool4Add_le _ mark proto addr range kmalloc) d
  | pool4Rm name mark proto addr range =>
    exact length_setPool_le name (Nat.le_succ_of_le (List.length_filter_le _ _)) d
  | pool4Flush name => exact length_setPool_le name (Nat.zero_le _) d
  | getMask packet result masksPerClient kmalloc maskDomain =>
    exact length_setClient_le (length_getMask_le host packet sys.cpool sys.spool sys.client
      result masksPerClient kmalloc maskDomain) d
  | clientInit => exact length_setClient_le (Nat.zero_le _) d
  | clientAdd prefix6 kmalloc =>
    exact length_setClient_le (length_clientAdd_le _ prefix6 kmalloc) d
  | clientDelete prefix6 =>
    have herase : (MaskPool.clientDelete sys.client prefix6).2.length ≤ sys.client.length := by
      rw [clientDelete_eraseP]
      exact List.length_eraseP_le
    exact length_setClient_le (Nat.le_succ_of_le herase) d
  | clientFlush => exact length_setClient_le (Nat.zero_le _) d
  | pool4IsEmpty _ | pool4Contains _ _ _ _ _ | pool4Count _ | pool4ForeachSample _ _ _ _
  | pool4Taddr4FindPos _ _ _ _ | pool4ForeachTaddr4 _ _ _ _ | pool4GetNthTaddr _ _ _ _
  | clientExist _ | clientCount | clientForEachsample _ _ _ | clientForEach _ _ _
  | clientAddrExist _ | clientGetMaskDomain _ _ _ _ => exact Nat.le_succ _

theorem runCalls_refines (h : Represents laws heads mem sys lost)
    (calls : List (Call (Option Ptr) σ))
    (hfuel : ∀ d, (sys.contents d).length + calls.length < fuel)
    (hfresh : fresh host heads fuel mem calls) :
    ∃ mem', runCalls host heads fuel mem calls =
        .ok ((sys.runCalls host (calls.map (Call.map Option.isSome))).1, mem') ∧
      Represents laws heads mem' (sys.runCalls host (calls.map (Call.map Option.isSome))).2
        (lost + Call.losses host sys (calls.map (Call.map Option.isSome))) := by
  induction calls generalizing mem sys lost with
  | nil => exact ⟨mem, rfl, h⟩
  | cons c calls ih =>
    simp only [List.length_cons] at hfuel
    obtain ⟨hanswer, hrest⟩ := Bool.and_eq_true_iff.mp hfresh
    have hroom (d : Database) : (sys.contents d).length + 1 < fuel := by
      have hbound := hfuel d
      omega
    obtain ⟨mem1, hcall, h1⟩ := call_refines h hroom c hanswer
    have hgrown (d : Database) :
        ((sys.call host (c.map Option.isSome)).2.contents d).length + calls.length < fuel := by
      have hstep := length_call_le host sys (c.map Option.isSome) d
      have hbound := hfuel d
      omega
    rw [hcall] at hrest
    obtain ⟨mem', hrun, h'⟩ := ih h1 hgrown hrest
    refine ⟨mem', ?_, ?_⟩
    · simp only [runCalls, hcall, bind, Except.bind, hrun]
      rfl
    · rw [Nat.add_assoc] at h'
      exact h'

end Heap

end MaskPool
