import MaskPool.Foundations.RingContents
import MaskPool.Model.Memory

/-!
# The linked functions compute the list functions

On a memory that holds the three databases, each function of `Heap` returns what the
function of the same name returns for the lists, and leaves a memory that holds the
lists it leaves. No loop needs more rounds than its database has entries and one.
-/

namespace MaskPool

open Rings RingStore

/-- The objects a database consists of. -/
def System.contents (sys : System) : Database → List Object
  | .cpool => sys.cpool.map .pool4Entry
  | .spool => sys.spool.map .pool4Entry
  | .client => sys.client.map .ipv6Client

theorem System.contents_pool (sys : System) (name : PoolName) :
    sys.contents name.database = (sys.pool name).map .pool4Entry := by
  cases name <;> rfl

theorem System.contents_client (sys : System) :
    sys.contents .client = sys.client.map .ipv6Client := rfl

theorem System.contents_setPool (sys : System) (name : PoolName) (pool4 : Pool4) :
    (sys.setPool name pool4).contents =
      Function.update sys.contents name.database (pool4.map .pool4Entry) := by
  funext d
  cases name <;> cases d <;> rfl

theorem System.contents_setClient (sys : System) (client : Client) :
    ({ sys with client := client } : System).contents =
      Function.update sys.contents .client (client.map .ipv6Client) := by
  funext d
  cases d <;> rfl

@[simp] theorem Object.asPool4Entry_pool4Entry (entry : Pool4Entry) :
    (Object.pool4Entry entry).asPool4Entry = some entry := rfl

@[simp] theorem Object.asIpv6Client_ipv6Client (ipx : Ipv6Prefix) :
    (Object.ipv6Client ipx).asIpv6Client = some ipx := rfl

namespace Heap

open Object (asPool4Entry_pool4Entry asIpv6Client_ipv6Client)

variable {Ptr : Type} {ops : Ops.{0, 0} Ptr} {laws : Laws ops} {heads : Database → Ptr}
  {mem : Memory ops Object} {sys : System} {lost fuel : ℕ} {σ α : Type} {name : PoolName}
  {host : Host}

/-- The memory holds the databases, and `lost` objects have leaked. -/
def Represents (laws : Laws ops) (heads : Database → Ptr) (mem : Memory ops Object)
    (sys : System) (lost : ℕ) : Prop :=
  Holds laws heads mem sys.contents lost

theorem foldlM_sampleRound (equals : α → α → Bool) (cb : α → σ → ℤ × σ) (xs : List α)
    (s : SampleState α σ) :
    (match xs.foldlM (sampleRound equals cb) s with
      | .ok s => sampleAnswer s
      | .error s => sampleAnswer s) =
      MaskPool.foreachSample equals cb xs s.offset s.error s.arg := by
  induction xs generalizing s with
  | nil => cases hoffset : s.offset <;>
      simp [pure, Except.pure, sampleAnswer, hoffset, MaskPool.foreachSample]
  | cons tmp rest ih =>
    rw [List.foldlM_cons]
    cases hoffset : s.offset with
    | none =>
      simp only [sampleRound, hoffset, MaskPool.foreachSample]
      by_cases herror : (cb tmp s.arg).1 = 0
      · simpa [herror, bind, Except.bind] using ih _
      · simp [herror, bind, Except.bind, sampleAnswer]
    | some offset =>
      simp only [sampleRound, hoffset, MaskPool.foreachSample]
      cases equals offset tmp with
      | true => exact ih _
      | false => simpa [bind, Except.bind, hoffset] using ih s

theorem foldlM_nthRound (domain : ClientMaskDomain) (pool4 : Pool4) (flag : Bool) (n : ℕ) :
    (match pool4.foldlM (nthRound domain) (flag, n) with
      | .error taddr => some taddr
      | .ok _ => none) = nthTaddr domain pool4 flag n := by
  induction pool4 generalizing flag n with
  | nil => rfl
  | cons entry rest ih =>
    rw [List.foldlM_cons, nthRound, nthTaddr]
    by_cases hinside : (startsIn domain entry || flag) = true
    · rw [if_pos hinside, if_pos hinside]
      cases flag with
      | false =>
        simp only [Bool.not_false, if_true]
        cases nthPort entry.range.max domain.step n (domain.first.l4.zeroExtend 32) with
        | found i => rfl
        | missing n => exact ih true n
      | true =>
        simp only [Bool.not_true, Bool.false_eq_true, if_false]
        cases nthPort entry.range.max domain.step n (entry.range.min.zeroExtend 32) with
        | found i => rfl
        | missing n => exact ih true n
    · rw [if_neg hinside, if_neg hinside]
      exact ih flag n

theorem foldlM_listedPosRound (host : Host) (addr : In6Addr) (client : Client)
    (ipv6Pos : Word) :
    (match client.foldlM (listedPosRound host addr) ipv6Pos with
      | .error ipv6Pos => some ipv6Pos
      | .ok _ => none) = listedPos host addr client ipv6Pos := by
  induction client generalizing ipv6Pos with
  | nil => rfl
  | cons listed rest ih =>
    rw [List.foldlM_cons, listedPosRound, listedPos]
    cases prefixContains host listed addr with
    | true => rfl
    | false => exact ih (ipv6Pos + 1)

theorem foldlM_scanRound (maskDomain : ClientMaskDomain) (pool4 : Pool4) (n : Word)
    (result : Ipv4TransportAddr) :
    (match pool4.foldlM (scanRound maskDomain) (n, result) with
      | .error taddr => .returned taddr
      | .ok s => .scanned s.1 s.2) = scanEntries maskDomain pool4 n result := by
  induction pool4 generalizing n result with
  | nil => rfl
  | cons entry rest ih =>
    rw [List.foldlM_cons, scanRound, scanEntries]
    cases scanPorts maskDomain entry (entryPorts entry) n result with
    | returned taddr => rfl
    | scanned n result => exact ih n result

theorem clientDelete_eraseP (client : Client) (prefix6 : Ipv6Prefix) :
    MaskPool.clientDelete client prefix6 = (0, client.eraseP (prefix6Equals prefix6)) := by
  induction client with
  | nil => rfl
  | cons exist rest ih =>
    rw [MaskPool.clientDelete, List.eraseP_cons, ih]
    cases prefix6Equals prefix6 exist <;> rfl

variable [DecidableEq Ptr]

theorem pool4IsEmpty_eq (h : Represents laws heads mem sys lost) (name : PoolName) :
    pool4IsEmpty (heads name.database) mem = .ok (MaskPool.pool4IsEmpty (sys.pool name)) := by
  rw [pool4IsEmpty, h.isEmpty_eq, sys.contents_pool, List.isEmpty_map]
  rfl

theorem pool4Count_eq (h : Represents laws heads mem sys lost)
    (hfuel : (sys.pool name).length < fuel) :
    pool4Count (heads name.database) fuel mem = .ok (MaskPool.pool4Count (sys.pool name)) :=
  h.fold_eq (sys.contents_pool name) asPool4Entry_pool4Entry _ hfuel

theorem pool4Contains_eq (h : Represents laws heads mem sys lost)
    (hfuel : (sys.pool name).length < fuel) (mark : Word) (proto : BitVec 8) (addr : Word)
    (range : PortRange) :
    pool4Contains (heads name.database) fuel mark proto addr range mem =
      .ok (MaskPool.pool4Contains (sys.pool name) mark proto addr range) := by
  let requested : Pool4Entry := { mark := mark, proto := proto, addr := addr, range := range }
  let body (listed : Pool4Entry) : Decision Unit :=
    if pool4Compare requested listed then .stop () else .keep
  obtain ⟨mem', hsweep, -⟩ := h.sweep (sys.contents_pool name) asPool4Entry_pool4Entry body hfuel rfl
  have hswept := swept_search (pool4Compare requested) () (sys.pool name)
  simp only [pool4Contains, body, requested, hsweep, hswept, bind, Except.bind, pure,
    Except.pure, MaskPool.pool4Contains]
  cases (sys.pool name).any (pool4Compare requested) <;> rfl

theorem foreachSample_eq {read : Object → Option α} {make : α → Object} {d : Database}
    {xs : List α} (h : Represents laws heads mem sys lost)
    (hxs : sys.contents d = xs.map make) (hread : ∀ a, read (make a) = some a)
    (hfuel : xs.length < fuel) (equals : α → α → Bool) (cb : α → σ → ℤ × σ) (arg : σ)
    (offset : Option α) :
    foreachSample read equals (heads d) fuel cb arg offset mem =
      .ok (MaskPool.foreachSample equals cb xs offset 0 arg) := by
  have hfold := foldlM_sampleRound equals cb xs { offset := offset, error := 0, arg := arg }
  rw [foreachSample, h.forEach_eq hxs hread _ hfuel, ← hfold]
  simp only [bind, Except.bind]
  cases xs.foldlM (sampleRound equals cb) { offset := offset, error := 0, arg := arg } <;> rfl

theorem pool4Taddr4FindPos_eq (h : Represents laws heads mem sys lost)
    (hfuel : (sys.pool name).length < fuel) (ipv6Pos : Word) (result : ClientMaskDomain)
    (masksPerClient : Word) :
    pool4Taddr4FindPos (heads name.database) fuel ipv6Pos result masksPerClient mem =
      .ok (MaskPool.pool4Taddr4FindPos (sys.pool name) ipv6Pos result masksPerClient) := by
  rw [pool4Taddr4FindPos, MaskPool.pool4Taddr4FindPos]
  by_cases hzero : masksPerClient = 0
  · rw [if_pos hzero, if_pos hzero]
  · rw [if_neg hzero, if_neg hzero, h.fold_eq (sys.contents_pool name) asPool4Entry_pool4Entry _ hfuel]
    rfl

theorem taddr4Pass_eq (h : Represents laws heads mem sys lost)
    (hfuel : (sys.pool name).length < fuel) (visits : Word → Bool)
    (cback : Pool4Mask → σ → ℤ × σ) (arg : σ) :
    taddr4Pass (heads name.database) fuel visits cback arg mem =
      .ok (MaskPool.taddr4Pass visits (sys.pool name) cback arg) :=
  h.forEach_eq (sys.contents_pool name) asPool4Entry_pool4Entry _ hfuel

theorem pool4ForeachTaddr4_eq (h : Represents laws heads mem sys lost)
    (hfuel : (sys.pool name).length < fuel) (cback : Pool4Mask → σ → ℤ × σ) (arg : σ)
    (offset : Word) :
    pool4ForeachTaddr4 (heads name.database) fuel cback arg offset mem =
      .ok (MaskPool.pool4ForeachTaddr4 (sys.pool name) cback arg offset) := by
  rw [pool4ForeachTaddr4, MaskPool.pool4ForeachTaddr4, pool4Count_eq h hfuel]
  simp only [bind, Except.bind, taddr4Pass_eq h hfuel]
  cases reduceOffset offset (MaskPool.pool4Count (sys.pool name)) with
  | none => rfl
  | some offset =>
    dsimp only
    cases MaskPool.taddr4Pass (fun indx => offset ≤ indx) (sys.pool name) cback arg with
    | error returned => rfl
    | ok s =>
      dsimp only
      by_cases hzero : offset = 0
      · rw [if_pos hzero, if_pos hzero]
        rfl
      · rw [if_neg hzero, if_neg hzero]
        cases MaskPool.taddr4Pass (fun indx => indx < offset) (sys.pool name) cback s.arg <;>
          rfl

theorem pool4GetNthTaddr_eq (h : Represents laws heads mem sys lost)
    (hfuel : (sys.pool name).length < fuel) (domain : ClientMaskDomain) (n : Word)
    (result : Ipv4TransportAddr) :
    pool4GetNthTaddr (heads name.database) fuel domain n result mem =
      .ok (MaskPool.pool4GetNthTaddr (sys.pool name) domain n result) := by
  rw [pool4GetNthTaddr, MaskPool.pool4GetNthTaddr]
  by_cases hzero : domain.count = 0
  · rw [if_pos hzero, if_pos hzero]
  · rw [if_neg hzero, if_neg hzero,
      h.forEach_eq (sys.contents_pool name) asPool4Entry_pool4Entry _ hfuel, ← foldlM_nthRound]
    simp only [bind, Except.bind]
    cases (sys.pool name).foldlM (nthRound domain) (false, (n % domain.count).toNat) <;> rfl

theorem clientExist_eq (h : Represents laws heads mem sys lost)
    (hfuel : sys.client.length < fuel) (prefix6 : Ipv6Prefix) :
    clientExist (heads .client) fuel prefix6 mem =
      .ok (MaskPool.clientExist sys.client prefix6) :=
  h.search_eq sys.contents_client asIpv6Client_ipv6Client _ hfuel

theorem clientCount_eq (h : Represents laws heads mem sys lost)
    (hfuel : sys.client.length < fuel) :
    clientCount host (heads .client) fuel mem = .ok (MaskPool.clientCount host sys.client) :=
  h.fold_eq sys.contents_client asIpv6Client_ipv6Client _ hfuel

theorem clientAddrExist_eq (h : Represents laws heads mem sys lost)
    (hfuel : sys.client.length < fuel) (addr : In6Addr) :
    clientAddrExist host (heads .client) fuel addr mem =
      .ok (MaskPool.clientAddrExist host sys.client addr) :=
  h.search_eq sys.contents_client asIpv6Client_ipv6Client _ hfuel

theorem addressPass_eq {τ : Type} (h : Represents laws heads mem sys lost)
    (hfuel : sys.client.length < fuel) (body : τ → In6Addr → Except (ℤ × σ) τ) (s : τ) :
    addressPass host (heads .client) fuel body s mem =
      .ok (MaskPool.addressPass host body sys.client s) :=
  h.forEach_eq sys.contents_client asIpv6Client_ipv6Client _ hfuel

theorem clientForEach_eq (h : Represents laws heads mem sys lost)
    (hfuel : sys.client.length < fuel) (cb : In6Addr → σ → ℤ × σ) (arg : σ) (offset : Word) :
    clientForEach host (heads .client) fuel cb arg offset mem =
      .ok (MaskPool.clientForEach host sys.client cb arg offset) := by
  rw [clientForEach, MaskPool.clientForEach,
    h.fold_eq sys.contents_client asIpv6Client_ipv6Client _ hfuel]
  simp only [bind, Except.bind, addressPass_eq h hfuel]
  by_cases hzero : sys.client.foldl (fun total listed => total + getAddr6Count host listed) 0 =
      (0 : Word)
  · rw [if_pos hzero, if_pos hzero]
    rfl
  · rw [if_neg hzero, if_neg hzero]
    cases MaskPool.addressPass host (forEachRound cb) sys.client _ with
    | error returned => rfl
    | ok s =>
      dsimp only
      cases s.flag with
      | false => rfl
      | true =>
        simp only [if_true]
        cases MaskPool.addressPass host (forEachAuxRound cb _) sys.client _ <;> rfl

theorem clientGetMaskDomain_eq (host : Host) (name : PoolName)
    (h : Represents laws heads mem sys lost)
    (hpool : (sys.pool name).length < fuel) (hclient : sys.client.length < fuel)
    (addr : In6Addr) (result : ClientMaskDomain) (masksPerClient : Word) :
    clientGetMaskDomain host (heads .client) (heads name.database) fuel addr result
        masksPerClient mem =
      .ok (MaskPool.clientGetMaskDomain host sys.client (sys.pool name) addr result
        masksPerClient) := by
  rw [clientGetMaskDomain, MaskPool.clientGetMaskDomain, clientCount_eq h hclient,
    pool4Count_eq h hpool, h.forEach_eq sys.contents_client asIpv6Client_ipv6Client _ hclient,
    ← foldlM_listedPosRound]
  simp only [bind, Except.bind, pool4Taddr4FindPos_eq h hpool]
  by_cases hcrowded :
      MaskPool.clientCount host sys.client > MaskPool.pool4Count (sys.pool name)
  · rw [if_pos hcrowded, if_pos hcrowded]
    rfl
  · rw [if_neg hcrowded, if_neg hcrowded]
    cases sys.client.foldlM (listedPosRound host addr) 0 <;> rfl

theorem pool4Init_eq (h : Represents laws heads mem sys lost) (name : PoolName) :
    ∃ mem', pool4Init (heads name.database) mem = .ok (0, mem') ∧
      Represents laws heads mem' (sys.setPool name MaskPool.pool4Init)
        (lost + (sys.pool name).length) := by
  obtain ⟨mem', hinit, h'⟩ := h.initHead (sys.contents_setPool name [])
  rw [sys.contents_pool, List.length_map] at h'
  exact ⟨mem', by rw [pool4Init, hinit]; rfl, h'⟩

theorem pool4Add_eq (h : Represents laws heads mem sys lost) (name : PoolName) (mark : Word)
    (proto : BitVec 8) (addr : Word) (range : PortRange) (kmalloc : Option Ptr)
    (hfresh : ∀ p ∈ kmalloc, mem.objects p = none) :
    ∃ mem', pool4Add (heads name.database) mark proto addr range kmalloc mem =
        .ok ((MaskPool.pool4Add (sys.pool name) mark proto addr range kmalloc.isSome).1, mem') ∧
      Represents laws heads mem' (sys.setPool name
        (MaskPool.pool4Add (sys.pool name) mark proto addr range kmalloc.isSome).2) lost := by
  cases kmalloc with
  | none =>
    refine ⟨mem, rfl, ?_⟩
    have hsame : sys.setPool name (sys.pool name) = sys := by cases name <;> rfl
    simpa [MaskPool.pool4Add, hsame] using h
  | some add =>
    let entry : Pool4Entry := { mark := mark, proto := proto, addr := addr, range := range }
    have hcontents : (sys.setPool name (sys.pool name ++ [entry])).contents =
        Function.update sys.contents name.database
          (sys.contents name.database ++ [.pool4Entry entry]) := by
      rw [sys.contents_setPool, sys.contents_pool, List.map_append]
      rfl
    obtain ⟨mem', hinsert, h'⟩ := h.insert (hfresh add rfl) hcontents
    exact ⟨mem', by simp only [pool4Add, entry, hinsert]; rfl, h'⟩

theorem pool4Rm_eq (h : Represents laws heads mem sys lost)
    (hfuel : (sys.pool name).length < fuel) (mark : Word) (proto : BitVec 8) (addr : Word)
    (range : PortRange) :
    ∃ mem', pool4Rm (heads name.database) fuel mark proto addr range mem = .ok (0, mem') ∧
      Represents laws heads mem' (sys.setPool name
        (MaskPool.pool4Rm (sys.pool name) mark proto addr range).2) lost := by
  let rm : Pool4Entry := { mark := mark, proto := proto, addr := addr, range := range }
  let body (exist : Pool4Entry) : Decision Empty :=
    if pool4Equals rm exist then .remove else .keep
  have hswept : swept body (sys.pool name) = _ := swept_remove (pool4Equals rm) (sys.pool name)
  obtain ⟨mem', hsweep, h'⟩ := h.sweep (sys.contents_pool name) asPool4Entry_pool4Entry body
    hfuel (sys.contents_setPool name _)
  refine ⟨mem', by simp only [pool4Rm, body, rm, hsweep]; rfl, ?_⟩
  rwa [hswept] at h'

theorem pool4Flush_eq (h : Represents laws heads mem sys lost)
    (hfuel : (sys.pool name).length < fuel) :
    ∃ mem', pool4Flush (heads name.database) fuel mem = .ok (0, mem') ∧
      Represents laws heads mem' (sys.setPool name
        (MaskPool.pool4Flush (sys.pool name)).2) lost := by
  let body (_ : Pool4Entry) : Decision Empty := .remove
  have hswept : swept body (sys.pool name) = (none, []) := swept_all (sys.pool name)
  obtain ⟨mem', hsweep, h'⟩ := h.sweep (sys.contents_pool name) asPool4Entry_pool4Entry body
    hfuel (sys.contents_setPool name _)
  refine ⟨mem', by simp only [pool4Flush, body, hsweep]; rfl, ?_⟩
  rwa [hswept] at h'

theorem clientInit_eq (h : Represents laws heads mem sys lost) :
    ∃ mem', clientInit (heads .client) mem = .ok (0, mem') ∧
      Represents laws heads mem' { sys with client := MaskPool.clientInit }
        (lost + sys.client.length) := by
  obtain ⟨mem', hinit, h'⟩ := h.initHead (sys.contents_setClient [])
  rw [sys.contents_client, List.length_map] at h'
  exact ⟨mem', by rw [clientInit, hinit]; rfl, h'⟩

theorem clientAdd_eq (h : Represents laws heads mem sys lost) (prefix6 : Ipv6Prefix)
    (kmalloc : Option Ptr) (hfresh : ∀ p ∈ kmalloc, mem.objects p = none) :
    ∃ mem', clientAdd (heads .client) prefix6 kmalloc mem =
        .ok ((MaskPool.clientAdd sys.client prefix6 kmalloc.isSome).1, mem') ∧
      Represents laws heads mem'
        { sys with client := (MaskPool.clientAdd sys.client prefix6 kmalloc.isSome).2 }
        lost := by
  cases kmalloc with
  | none => exact ⟨mem, rfl, h⟩
  | some add =>
    have hcontents : ({ sys with client := sys.client ++ [prefix6] } : System).contents =
        Function.update sys.contents .client (sys.contents .client ++ [.ipv6Client prefix6]) := by
      rw [sys.contents_setClient, sys.contents_client, List.map_append]
      rfl
    obtain ⟨mem', hinsert, h'⟩ := h.insert (hfresh add rfl) hcontents
    exact ⟨mem', by simp only [clientAdd, hinsert]; rfl, h'⟩

theorem clientDelete_eq (h : Represents laws heads mem sys lost)
    (hfuel : sys.client.length < fuel) (prefix6 : Ipv6Prefix) :
    ∃ mem', clientDelete (heads .client) fuel prefix6 mem = .ok (0, mem') ∧
      Represents laws heads mem'
        { sys with client := (MaskPool.clientDelete sys.client prefix6).2 } lost := by
  obtain ⟨mem', hremove, h'⟩ := h.removeFirst sys.contents_client asIpv6Client_ipv6Client
    (prefix6Equals prefix6) hfuel (sys.contents_setClient _)
  refine ⟨mem', by simp only [clientDelete, hremove]; rfl, ?_⟩
  rwa [clientDelete_eraseP]

theorem clientFlush_eq (h : Represents laws heads mem sys lost)
    (hfuel : sys.client.length < fuel) :
    ∃ mem', clientFlush (heads .client) fuel mem = .ok (0, mem') ∧
      Represents laws heads mem'
        { sys with client := (MaskPool.clientFlush sys.client).2 } lost := by
  let body (_ : Ipv6Prefix) : Decision Empty := .remove
  have hswept : swept body sys.client = (none, []) := swept_all sys.client
  obtain ⟨mem', hsweep, h'⟩ := h.sweep sys.contents_client asIpv6Client_ipv6Client body hfuel
    (sys.contents_setClient _)
  refine ⟨mem', by simp only [clientFlush, body, hsweep]; rfl, ?_⟩
  rwa [hswept] at h'

theorem registerSource_eq (host : Host) (h : Represents laws heads mem sys lost)
    (hfuel : sys.client.length < fuel) (saddr : In6Addr) (kmalloc : Option Ptr)
    (hfresh : ∀ p ∈ kmalloc, mem.objects p = none) :
    ∃ client mem', MaskPool.registerSource host sys.client saddr kmalloc.isSome = some client ∧
      registerSource host (heads .client) fuel saddr kmalloc mem = .ok (some mem') ∧
      Represents laws heads mem' { sys with client := client } lost := by
  rw [registerSource, MaskPool.registerSource, clientAddrExist_eq h hfuel]
  cases MaskPool.clientAddrExist host sys.client saddr with
  | true => exact ⟨sys.client, mem, rfl, rfl, h⟩
  | false =>
    obtain ⟨mem', hadd, h'⟩ :=
      clientAdd_eq h { address := saddr, len := 128 } kmalloc hfresh
    refine ⟨_, mem', rfl, ?_, h'⟩
    simp only [bind, Except.bind, hadd]
    rfl

theorem registerSource_length {host : Host} {client client' : Client} {saddr : In6Addr}
    {kmalloc : Bool}
    (h : MaskPool.registerSource host client saddr kmalloc = some client') :
    client'.length ≤ client.length + 1 := by
  rw [MaskPool.registerSource] at h
  cases hexist : MaskPool.clientAddrExist host client saddr with
  | true =>
    obtain rfl : client = client' := by simpa [hexist] using h
    exact Nat.le_succ _
  | false =>
    have hclient : (MaskPool.clientAdd client { address := saddr, len := 128 } kmalloc).2 =
        client' := by simpa [hexist, dynamicAssignment] using h
    rw [← hclient]
    cases kmalloc <;> simp [MaskPool.clientAdd]

theorem getMask_eq (host : Host) (h : Represents laws heads mem sys lost)
    (hpool : sys.cpool.length < fuel) (hclient : sys.client.length + 1 < fuel)
    (packet : Packet) (result : Ipv4TransportAddr) (masksPerClient : Word)
    (kmalloc : Option Ptr) (maskDomain : ClientMaskDomain)
    (hfresh : ∀ p ∈ kmalloc, mem.objects p = none) :
    ∃ mem', getMask host heads fuel packet result masksPerClient kmalloc maskDomain mem =
        .ok ((MaskPool.getMask host packet sys.cpool sys.spool sys.client result
            masksPerClient kmalloc.isSome maskDomain).1,
          (MaskPool.getMask host packet sys.cpool sys.spool sys.client result
            masksPerClient kmalloc.isSome maskDomain).2.2, mem') ∧
      Represents laws heads mem' { sys with
        client := (MaskPool.getMask host packet sys.cpool sys.spool sys.client result
          masksPerClient kmalloc.isSome maskDomain).2.1 } lost := by
  have hempty : pool4IsEmpty (heads .cpool) mem = .ok (MaskPool.pool4IsEmpty sys.cpool) :=
    pool4IsEmpty_eq h .cpool
  rw [getMask, MaskPool.getMask, hempty]
  simp only [bind, Except.bind]
  cases MaskPool.pool4IsEmpty sys.cpool with
  | true => exact ⟨mem, rfl, h⟩
  | false =>
    obtain ⟨client, mem', hlist, hregister, h'⟩ := registerSource_eq host h
      (Nat.lt_of_succ_lt hclient) packet.hdr.saddr kmalloc hfresh
    have hlength := Nat.lt_of_le_of_lt (registerSource_length hlist) hclient
    have hlookup := clientGetMaskDomain_eq host .cpool h' hpool hlength packet.hdr.saddr
      maskDomain masksPerClient
    have hscan (domain : ClientMaskDomain) (s : Word × Ipv4TransportAddr) :=
      h'.forEach_eq (s := s) (({ sys with client := client } : System).contents_pool .cpool)
        asPool4Entry_pool4Entry (scanRound domain) hpool
    simp only [PoolName.database, System.pool] at hlookup hscan
    simp only [Bool.false_eq_true, if_false, hlist, hregister, hlookup]
    obtain ⟨error, domain⟩ := MaskPool.clientGetMaskDomain host client sys.cpool
      packet.hdr.saddr maskDomain masksPerClient
    by_cases herror : error = 0
    · simp only [ne_eq, herror, not_true, if_false, hscan, ← foldlM_scanRound]
      cases sys.cpool.foldlM (scanRound domain) (domain.count, result) with
      | error taddr => exact ⟨mem', rfl, h'⟩
      | ok s => exact ⟨mem', rfl, h'⟩
    · simp only [ne_eq, herror, not_false_iff, if_true]
      exact ⟨mem', rfl, h'⟩

end Heap

end MaskPool
