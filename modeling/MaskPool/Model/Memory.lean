import MaskPool.Foundations.RingMemory
import MaskPool.Model.System

/-!
# The databases in kernel memory

The same functions, on linked structures: an entry is an object with a hook, named by
the address of the hook that `list_entry` goes back from; `kmalloc` answers with the
address of a new object or with nothing; every loop gets `fuel` rounds. A function that
only reads does not answer with a memory.
-/

namespace MaskPool

open Rings RingStore

/-- What has been allocated at an address: a static head or one of the two structures. -/
inductive Object where
  | listHead
  | pool4Entry (entry : Pool4Entry)
  | ipv6Client (ipx : Ipv6Prefix)
  deriving DecidableEq, Repr

def Object.asPool4Entry : Object → Option Pool4Entry
  | .pool4Entry entry => some entry
  | _ => none

def Object.asIpv6Client : Object → Option Ipv6Prefix
  | .ipv6Client ipx => some ipx
  | _ => none

inductive Database where
  | cpool
  | spool
  | client
  deriving DecidableEq, Repr

instance : Fintype Database where
  elems := {.cpool, .spool, .client}
  complete d := by cases d <;> decide

def PoolName.database : PoolName → Database
  | .cpool => .cpool
  | .spool => .spool

namespace Heap

variable {Ptr : Type} {ops : Ops.{0, 0} Ptr} {σ α : Type} [DecidableEq Ptr]

def pool4Init (head : Ptr) (mem : Memory ops Object) : Except Fault (ℤ × Memory ops Object) := do
  let mem ← mem.initHead head
  return (0, mem)

def pool4Add (head : Ptr) (mark : Word) (proto : BitVec 8) (addr : Word) (range : PortRange)
    (kmalloc : Option Ptr) (mem : Memory ops Object) :
    Except Fault (ℤ × Memory ops Object) :=
  match kmalloc with
  | none => return (-ENOMEM, mem)
  | some add => do
    let mem ← mem.insert head add
      (.pool4Entry { mark := mark, proto := proto, addr := addr, range := range })
    return (0, mem)

def pool4Rm (head : Ptr) (fuel : ℕ) (mark : Word) (proto : BitVec 8) (addr : Word)
    (range : PortRange) (mem : Memory ops Object) : Except Fault (ℤ × Memory ops Object) := do
  let rm : Pool4Entry := { mark := mark, proto := proto, addr := addr, range := range }
  let body (exist : Pool4Entry) : Decision Empty :=
    if pool4Equals rm exist then .remove else .keep
  let (_, mem) ← mem.sweep Object.asPool4Entry body head fuel
  return (0, mem)

def pool4Flush (head : Ptr) (fuel : ℕ) (mem : Memory ops Object) :
    Except Fault (ℤ × Memory ops Object) := do
  let body (_ : Pool4Entry) : Decision Empty := .remove
  let (_, mem) ← mem.sweep Object.asPool4Entry body head fuel
  return (0, mem)

def pool4IsEmpty (head : Ptr) (mem : Memory ops Object) : Except Fault Bool :=
  mem.isEmpty head

/-- A safe loop whose body frees nothing. -/
def pool4Contains (head : Ptr) (fuel : ℕ) (mark : Word) (proto : BitVec 8) (addr : Word)
    (range : PortRange) (mem : Memory ops Object) : Except Fault Bool := do
  let requested : Pool4Entry := { mark := mark, proto := proto, addr := addr, range := range }
  let body (listed : Pool4Entry) : Decision Unit :=
    if pool4Compare requested listed then .stop () else .keep
  let (returned, _) ← mem.sweep Object.asPool4Entry body head fuel
  return returned.isSome

def pool4Count (head : Ptr) (fuel : ℕ) (mem : Memory ops Object) : Except Fault Word :=
  mem.fold Object.asPool4Entry (fun entries entry => entries + entryPortCount entry) head fuel 0

/-- The locals of the two sample iterators that their loop changes, with `*arg`. -/
structure SampleState (α σ : Type) where
  offset : Option α
  error : ℤ
  arg : σ

/-- The loop body of both; throwing is the `break`. -/
def sampleRound (equals : α → α → Bool) (cb : α → σ → ℤ × σ) (s : SampleState α σ) (tmp : α) :
    Except (SampleState α σ) (SampleState α σ) :=
  match s.offset with
  | none =>
    let (error, arg) := cb tmp s.arg
    if error ≠ 0 then .error { s with error := error, arg := arg }
    else .ok { s with error := error, arg := arg }
  | some offset =>
    if equals offset tmp then .ok { s with offset := none } else .ok s

/-- `return offset ? -ESRCH : error;` -/
def sampleAnswer (s : SampleState α σ) : ℤ × σ :=
  (if s.offset.isSome then -ESRCH else s.error, s.arg)

def foreachSample (read : Object → Option α) (equals : α → α → Bool) (head : Ptr) (fuel : ℕ)
    (cb : α → σ → ℤ × σ) (arg : σ) (offset : Option α) (mem : Memory ops Object) :
    Except Fault (ℤ × σ) := do
  match ← mem.forEach read (sampleRound equals cb) head fuel
      { offset := offset, error := 0, arg := arg } with
  | .ok s => return sampleAnswer s
  | .error s => return sampleAnswer s

def pool4ForeachSample (head : Ptr) (fuel : ℕ) (cb : Pool4Entry → σ → ℤ × σ) (arg : σ)
    (offset : Option Pool4Entry) (mem : Memory ops Object) : Except Fault (ℤ × σ) :=
  foreachSample Object.asPool4Entry pool4Equals head fuel cb arg offset mem

def pool4Taddr4FindPos (head : Ptr) (fuel : ℕ) (ipv6Pos : Word) (result : ClientMaskDomain)
    (masksPerClient : Word) (mem : Memory ops Object) : Except Fault (ℤ × ClientMaskDomain) :=
  if masksPerClient = 0 then .ok (1, result)
  else do
    let s ← mem.fold Object.asPool4Entry
      (fun s entry => (entryPorts entry).foldl (findPosPort ipv6Pos masksPerClient entry) s)
      head fuel { portsPos := 0, counter := 0, result := result }
    return (0, s.result)

def taddr4Pass (head : Ptr) (fuel : ℕ) (visits : Word → Bool) (cback : Pool4Mask → σ → ℤ × σ)
    (arg : σ) (mem : Memory ops Object) : Except Fault (Except (ℤ × σ) (Taddr4State σ)) :=
  mem.forEach Object.asPool4Entry
    (fun s entry => (entryPorts entry).foldlM (taddr4Port visits cback entry) s) head fuel
    { indx := 0, arg := arg }

def pool4ForeachTaddr4 (head : Ptr) (fuel : ℕ) (cback : Pool4Mask → σ → ℤ × σ) (arg : σ)
    (offset : Word) (mem : Memory ops Object) : Except Fault (Option (ℤ × σ)) := do
  let entries ← pool4Count head fuel mem
  match reduceOffset offset entries with
  | none => return none
  | some offset =>
    match ← taddr4Pass head fuel (fun indx => offset ≤ indx) cback arg mem with
    | .error returned => return some returned
    | .ok s =>
      if offset = 0 then return some (0, s.arg)
      else
        match ← taddr4Pass head fuel (fun indx => indx < offset) cback s.arg mem with
        | .error returned => return some returned
        | .ok s => return some (0, s.arg)

/-- The body of `pool4_get_nth_taddr`'s loop on `flag` and `n`. -/
def nthRound (domain : ClientMaskDomain) (s : Bool × ℕ) (entry : Pool4Entry) :
    Except Ipv4TransportAddr (Bool × ℕ) :=
  if startsIn domain entry || s.1 then
    if !s.1 then
      match nthPort entry.range.max domain.step s.2 (domain.first.l4.zeroExtend 32) with
      | .found i => .error { l3 := entry.addr, l4 := i.truncate 16 }
      | .missing n => .ok (true, n)
    else
      match nthPort entry.range.max domain.step s.2 (entry.range.min.zeroExtend 32) with
      | .found i => .error { l3 := entry.addr, l4 := i.truncate 16 }
      | .missing n => .ok (true, n)
  else .ok s

def pool4GetNthTaddr (head : Ptr) (fuel : ℕ) (domain : ClientMaskDomain) (n : Word)
    (result : Ipv4TransportAddr) (mem : Memory ops Object) :
    Except Fault (Option (ℤ × Ipv4TransportAddr)) :=
  if domain.count = 0 then .ok none
  else do
    match ← mem.forEach Object.asPool4Entry (nthRound domain) head fuel
        (false, (n % domain.count).toNat) with
    | .error taddr => return some (0, taddr)
    | .ok _ => return some (-ESRCH, result)

def clientInit (head : Ptr) (mem : Memory ops Object) :
    Except Fault (ℤ × Memory ops Object) := do
  let mem ← mem.initHead head
  return (0, mem)

def clientAdd (head : Ptr) (prefix6 : Ipv6Prefix) (kmalloc : Option Ptr)
    (mem : Memory ops Object) : Except Fault (ℤ × Memory ops Object) :=
  match kmalloc with
  | none => return (-ENOMEM, mem)
  | some add => do
    let mem ← mem.insert head add (.ipv6Client prefix6)
    return (0, mem)

def clientDelete (head : Ptr) (fuel : ℕ) (prefix6 : Ipv6Prefix) (mem : Memory ops Object) :
    Except Fault (ℤ × Memory ops Object) := do
  let mem ← mem.removeFirst Object.asIpv6Client (prefix6Equals prefix6) head fuel
  return (0, mem)

def clientFlush (head : Ptr) (fuel : ℕ) (mem : Memory ops Object) :
    Except Fault (ℤ × Memory ops Object) := do
  let body (_ : Ipv6Prefix) : Decision Empty := .remove
  let (_, mem) ← mem.sweep Object.asIpv6Client body head fuel
  return (0, mem)

def clientExist (head : Ptr) (fuel : ℕ) (prefix6 : Ipv6Prefix) (mem : Memory ops Object) :
    Except Fault Bool :=
  mem.search Object.asIpv6Client (prefix6Equals prefix6) head fuel

def clientCount (host : Host) (head : Ptr) (fuel : ℕ) (mem : Memory ops Object) :
    Except Fault Word :=
  mem.fold Object.asIpv6Client (fun i exist => i + getAddr6Count host exist) head fuel 0

def clientForEachsample (head : Ptr) (fuel : ℕ) (func : Ipv6Prefix → σ → ℤ × σ) (arg : σ)
    (offset : Option Ipv6Prefix) (mem : Memory ops Object) : Except Fault (ℤ × σ) :=
  foreachSample Object.asIpv6Client prefix6Equals head fuel func arg offset mem

def clientAddrExist (host : Host) (head : Ptr) (fuel : ℕ) (addr : In6Addr)
    (mem : Memory ops Object) : Except Fault Bool :=
  mem.search Object.asIpv6Client
    (fun listed => addrExistFrom host addr (getAddr6Count host listed).toNat listed.address)
    head fuel

def addressPass {τ : Type} (host : Host) (head : Ptr) (fuel : ℕ)
    (body : τ → In6Addr → Except (ℤ × σ) τ) (s : τ) (mem : Memory ops Object) :
    Except Fault (Except (ℤ × σ) τ) :=
  mem.forEach Object.asIpv6Client
    (fun s listed =>
      addressLoop host body (getAddr6Count host listed).toNat listed.address s) head fuel s

def clientForEach (host : Host) (head : Ptr) (fuel : ℕ) (cb : In6Addr → σ → ℤ × σ) (arg : σ)
    (offset : Word) (mem : Memory ops Object) : Except Fault (Option (ℤ × σ)) := do
  let totalClients ← mem.fold Object.asIpv6Client
    (fun total listed => total + getAddr6Count host listed) head fuel (0 : Word)
  if totalClients = 0 then return none
  else
    let clientIndex := offset % totalClients
    match ← addressPass host head fuel (forEachRound cb)
        { offset := clientIndex, flag := false, arg := arg } mem with
    | .error returned => return some returned
    | .ok s =>
      match ←
        (if s.flag then
          addressPass host head fuel (forEachAuxRound cb clientIndex)
            { clientIndexAux := 0, arg := s.arg } mem
        else .ok (.ok { clientIndexAux := 0, arg := s.arg })) with
      | .error returned => return some returned
      | .ok aux => return some (if s.offset ≠ 0 then -ESRCH else 0, aux.arg)

/-- The search loop of `client_get_mask_domain`; throwing is the `break`. -/
def listedPosRound (host : Host) (addr : In6Addr) (ipv6Pos : Word) (listed : Ipv6Prefix) :
    Except Word Word :=
  if prefixContains host listed addr then .error ipv6Pos else .ok (ipv6Pos + 1)

def clientGetMaskDomain (host : Host) (client pool4 : Ptr) (fuel : ℕ) (addr : In6Addr)
    (result : ClientMaskDomain) (masksPerClient : Word) (mem : Memory ops Object) :
    Except Fault (ℤ × ClientMaskDomain) := do
  let clients ← clientCount host client fuel mem
  let masks ← pool4Count pool4 fuel mem
  if clients > masks then return (1, result)
  else
    match ← mem.forEach Object.asIpv6Client (listedPosRound host addr) client fuel 0 with
    | .ok _ => return (-ESRCH, result)
    | .error ipv6Pos => pool4Taddr4FindPos pool4 fuel ipv6Pos result masksPerClient mem

def scanRound (maskDomain : ClientMaskDomain) (s : Word × Ipv4TransportAddr)
    (entry : Pool4Entry) : Except Ipv4TransportAddr (Word × Ipv4TransportAddr) :=
  match scanPorts maskDomain entry (entryPorts entry) s.1 s.2 with
  | .returned taddr => .error taddr
  | .scanned n result => .ok (n, result)

def registerSource (host : Host) (client : Ptr) (fuel : ℕ) (saddr : In6Addr)
    (kmalloc : Option Ptr) (mem : Memory ops Object) :
    Except Fault (Option (Memory ops Object)) := do
  let exist ← clientAddrExist host client fuel saddr mem
  if !exist then
    if dynamicAssignment then
      let (_, mem) ← clientAdd client { address := saddr, len := 128 } kmalloc mem
      return some mem
    else return none
  else return some mem

def getMask (host : Host) (heads : Database → Ptr) (fuel : ℕ) (packet : Packet)
    (result : Ipv4TransportAddr) (masksPerClient : Word) (kmalloc : Option Ptr)
    (maskDomain : ClientMaskDomain) (mem : Memory ops Object) :
    Except Fault (ℤ × Ipv4TransportAddr × Memory ops Object) := do
  -- `get_spool_mask` reads neither the packet nor the pool
  let (spoolError, spoolResult) := getSpoolMask host packet []
  let isEmpty ← pool4IsEmpty (heads .cpool) mem
  if isEmpty then return (spoolError, spoolResult, mem)
  else
    match ← registerSource host (heads .client) fuel packet.hdr.saddr kmalloc mem with
    | none => return (spoolError, spoolResult, mem)
    | some mem =>
      let (error, maskDomain) ← clientGetMaskDomain host (heads .client) (heads .cpool) fuel
        packet.hdr.saddr maskDomain masksPerClient mem
      if error ≠ 0 then return (error, result, mem)
      else
        match ← mem.forEach Object.asPool4Entry (scanRound maskDomain) (heads .cpool) fuel
            (maskDomain.count, result) with
        | .error result => return (error, result, mem)
        | .ok _ => return (spoolError, spoolResult, mem)

def call (host : Host) (heads : Database → Ptr) (fuel : ℕ) (mem : Memory ops Object) :
    Call (Option Ptr) σ → Except Fault (Answer σ × Memory ops Object)
  | .pool4Init name => do
    let (error, mem) ← pool4Init (heads name.database) mem
    return (.code error, mem)
  | .pool4Add name mark proto addr range kmalloc => do
    let (error, mem) ← pool4Add (heads name.database) mark proto addr range kmalloc mem
    return (.code error, mem)
  | .pool4Rm name mark proto addr range => do
    let (error, mem) ← pool4Rm (heads name.database) fuel mark proto addr range mem
    return (.code error, mem)
  | .pool4Flush name => do
    let (error, mem) ← pool4Flush (heads name.database) fuel mem
    return (.code error, mem)
  | .pool4IsEmpty name => do
    let answer ← pool4IsEmpty (heads name.database) mem
    return (.truth answer, mem)
  | .pool4Contains name mark proto addr range => do
    let answer ← pool4Contains (heads name.database) fuel mark proto addr range mem
    return (.truth answer, mem)
  | .pool4Count name => do
    let n ← pool4Count (heads name.database) fuel mem
    return (.count n, mem)
  | .pool4ForeachSample name cb arg offset => do
    let (error, arg) ← pool4ForeachSample (heads name.database) fuel cb arg offset mem
    return (.visited error arg, mem)
  | .pool4Taddr4FindPos name ipv6Pos result masksPerClient => do
    let (error, result) ←
      pool4Taddr4FindPos (heads name.database) fuel ipv6Pos result masksPerClient mem
    return (.domain error result, mem)
  | .pool4ForeachTaddr4 name cback arg offset => do
    let returned ← pool4ForeachTaddr4 (heads name.database) fuel cback arg offset mem
    return (.ofOption .visited returned, mem)
  | .pool4GetNthTaddr name domain n result => do
    let returned ← pool4GetNthTaddr (heads name.database) fuel domain n result mem
    return (.ofOption .taddr returned, mem)
  | .getMask packet result masksPerClient kmalloc maskDomain => do
    let (error, result, mem) ←
      getMask host heads fuel packet result masksPerClient kmalloc maskDomain mem
    return (.taddr error result, mem)
  | .clientInit => do
    let (error, mem) ← clientInit (heads .client) mem
    return (.code error, mem)
  | .clientAdd prefix6 kmalloc => do
    let (error, mem) ← clientAdd (heads .client) prefix6 kmalloc mem
    return (.code error, mem)
  | .clientDelete prefix6 => do
    let (error, mem) ← clientDelete (heads .client) fuel prefix6 mem
    return (.code error, mem)
  | .clientFlush => do
    let (error, mem) ← clientFlush (heads .client) fuel mem
    return (.code error, mem)
  | .clientExist prefix6 => do
    let answer ← clientExist (heads .client) fuel prefix6 mem
    return (.truth answer, mem)
  | .clientCount => do
    let n ← clientCount host (heads .client) fuel mem
    return (.count n, mem)
  | .clientForEachsample func arg offset => do
    let (error, arg) ← clientForEachsample (heads .client) fuel func arg offset mem
    return (.visited error arg, mem)
  | .clientForEach cb arg offset => do
    let returned ← clientForEach host (heads .client) fuel cb arg offset mem
    return (.ofOption .visited returned, mem)
  | .clientAddrExist addr => do
    let answer ← clientAddrExist host (heads .client) fuel addr mem
    return (.truth answer, mem)
  | .clientGetMaskDomain name addr result masksPerClient => do
    let (error, result) ← clientGetMaskDomain host (heads .client) (heads name.database) fuel
      addr result masksPerClient mem
    return (.domain error result, mem)

/-- As over lists, a run goes on behind a division fault. -/
def runCalls (host : Host) (heads : Database → Ptr) (fuel : ℕ) (mem : Memory ops Object) :
    List (Call (Option Ptr) σ) → Except Fault (List (Answer σ) × Memory ops Object)
  | [] => .ok ([], mem)
  | c :: calls => do
    let (answer, mem) ← call host heads fuel mem c
    let (answers, mem) ← runCalls host heads fuel mem calls
    return (answer :: answers, mem)

end Heap

end MaskPool
