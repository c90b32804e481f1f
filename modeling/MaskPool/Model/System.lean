import MaskPool.Model.GetMask
import MaskPool.Model.Iteration

/-!
# The databases of `nf_hook.c` and the calls made on them

Every function of `pool4.h` and `client.h` but the two that only print is a call. `κ` is
the answer of the allocator, which two of them ask; `σ` is what `arg` points to.
-/

namespace MaskPool

/-- The globals `cpool`, `spool` and `client`. -/
structure System where
  cpool : Pool4
  spool : Pool4
  client : Client
  deriving DecidableEq, Repr

inductive PoolName where
  | cpool
  | spool
  deriving DecidableEq, Repr

inductive Call (κ σ : Type) where
  | pool4Init (pool : PoolName)
  | pool4Add (pool : PoolName) (mark : Word) (proto : BitVec 8) (addr : Word)
      (range : PortRange) (kmalloc : κ)
  | pool4Rm (pool : PoolName) (mark : Word) (proto : BitVec 8) (addr : Word)
      (range : PortRange)
  | pool4Flush (pool : PoolName)
  | pool4IsEmpty (pool : PoolName)
  | pool4Contains (pool : PoolName) (mark : Word) (proto : BitVec 8) (addr : Word)
      (range : PortRange)
  | pool4Count (pool : PoolName)
  | pool4ForeachSample (pool : PoolName) (cb : Pool4Entry → σ → ℤ × σ) (arg : σ)
      (offset : Option Pool4Entry)
  | pool4Taddr4FindPos (pool : PoolName) (ipv6Pos : Word) (result : ClientMaskDomain)
      (masksPerClient : Word)
  | pool4ForeachTaddr4 (pool : PoolName) (cback : Pool4Mask → σ → ℤ × σ) (arg : σ)
      (offset : Word)
  | pool4GetNthTaddr (pool : PoolName) (domain : ClientMaskDomain) (n : Word)
      (result : Ipv4TransportAddr)
  | getMask (packet : Packet) (result : Ipv4TransportAddr) (masksPerClient : Word)
      (kmalloc : κ) (maskDomain : ClientMaskDomain)
  | clientInit
  | clientAdd (prefix6 : Ipv6Prefix) (kmalloc : κ)
  | clientDelete (prefix6 : Ipv6Prefix)
  | clientFlush
  | clientExist (prefix6 : Ipv6Prefix)
  | clientCount
  | clientForEachsample (func : Ipv6Prefix → σ → ℤ × σ) (arg : σ) (offset : Option Ipv6Prefix)
  | clientForEach (cb : In6Addr → σ → ℤ × σ) (arg : σ) (offset : Word)
  | clientAddrExist (addr : In6Addr)
  | clientGetMaskDomain (pool : PoolName) (addr : In6Addr) (result : ClientMaskDomain)
      (masksPerClient : Word)

/-- What a call returns, with what it left behind its pointers. -/
inductive Answer (σ : Type) where
  | code (error : ℤ)
  | truth (answer : Bool)
  | count (n : Word)
  | domain (error : ℤ) (result : ClientMaskDomain)
  | taddr (error : ℤ) (result : Ipv4TransportAddr)
  | visited (error : ℤ) (arg : σ)
  | divisionFault
  deriving DecidableEq, Repr

/-- `none` is the division fault of the functions that divide by a count. -/
def Answer.ofOption {β σ : Type} (answer : ℤ → β → Answer σ) : Option (ℤ × β) → Answer σ
  | some (error, b) => answer error b
  | none => .divisionFault

namespace System

variable {σ : Type}

def empty : System := { cpool := [], spool := [], client := [] }

def pool (sys : System) : PoolName → Pool4
  | .cpool => sys.cpool
  | .spool => sys.spool

def setPool (sys : System) (name : PoolName) (pool4 : Pool4) : System :=
  match name with
  | .cpool => { sys with cpool := pool4 }
  | .spool => { sys with spool := pool4 }

def call (host : Host) (sys : System) : Call Bool σ → Answer σ × System
  | .pool4Init name => (.code 0, sys.setPool name pool4Init)
  | .pool4Add name mark proto addr range kmalloc =>
    let (error, pool4) := pool4Add (sys.pool name) mark proto addr range kmalloc
    (.code error, sys.setPool name pool4)
  | .pool4Rm name mark proto addr range =>
    let (error, pool4) := pool4Rm (sys.pool name) mark proto addr range
    (.code error, sys.setPool name pool4)
  | .pool4Flush name =>
    let (error, pool4) := pool4Flush (sys.pool name)
    (.code error, sys.setPool name pool4)
  | .pool4IsEmpty name => (.truth (pool4IsEmpty (sys.pool name)), sys)
  | .pool4Contains name mark proto addr range =>
    (.truth (pool4Contains (sys.pool name) mark proto addr range), sys)
  | .pool4Count name => (.count (pool4Count (sys.pool name)), sys)
  | .pool4ForeachSample name cb arg offset =>
    let (error, arg) := pool4ForeachSample (sys.pool name) cb arg offset
    (.visited error arg, sys)
  | .pool4Taddr4FindPos name ipv6Pos result masksPerClient =>
    let (error, result) := pool4Taddr4FindPos (sys.pool name) ipv6Pos result masksPerClient
    (.domain error result, sys)
  | .pool4ForeachTaddr4 name cback arg offset =>
    (.ofOption .visited (pool4ForeachTaddr4 (sys.pool name) cback arg offset), sys)
  | .pool4GetNthTaddr name domain n result =>
    (.ofOption .taddr (pool4GetNthTaddr (sys.pool name) domain n result), sys)
  | .getMask packet result masksPerClient kmalloc maskDomain =>
    let (error, client, result) :=
      getMask host packet sys.cpool sys.spool sys.client result masksPerClient kmalloc maskDomain
    (.taddr error result, { sys with client := client })
  | .clientInit => (.code 0, { sys with client := clientInit })
  | .clientAdd prefix6 kmalloc =>
    let (error, client) := clientAdd sys.client prefix6 kmalloc
    (.code error, { sys with client := client })
  | .clientDelete prefix6 =>
    let (error, client) := clientDelete sys.client prefix6
    (.code error, { sys with client := client })
  | .clientFlush =>
    let (error, client) := clientFlush sys.client
    (.code error, { sys with client := client })
  | .clientExist prefix6 => (.truth (clientExist sys.client prefix6), sys)
  | .clientCount => (.count (clientCount host sys.client), sys)
  | .clientForEachsample func arg offset =>
    let (error, arg) := clientForEachsample sys.client func arg offset
    (.visited error arg, sys)
  | .clientForEach cb arg offset =>
    (.ofOption .visited (clientForEach host sys.client cb arg offset), sys)
  | .clientAddrExist addr => (.truth (clientAddrExist host sys.client addr), sys)
  | .clientGetMaskDomain name addr result masksPerClient =>
    let (error, result) :=
      clientGetMaskDomain host sys.client (sys.pool name) addr result masksPerClient
    (.domain error result, sys)

/-- The answers of a sequence of calls, and the databases behind the last one. The kernel kills
a caller that divides by zero; here the calls behind it are made all the same, as by another
caller. -/
def runCalls (host : Host) (sys : System) : List (Call Bool σ) → List (Answer σ) × System
  | [] => ([], sys)
  | c :: calls =>
    let (answer, sys) := sys.call host c
    let (answers, sys) := runCalls host sys calls
    (answer :: answers, sys)

end System

/-- `init` of `nf_hook.c` before it fills the databases. -/
def initCalls {κ σ : Type} : List (Call κ σ) :=
  [.pool4Init .cpool, .pool4Init .spool, .clientInit]

/-- `end` of `nf_hook.c`. -/
def endCalls {κ σ : Type} : List (Call κ σ) :=
  [.pool4Flush .cpool, .pool4Flush .spool, .clientFlush]

end MaskPool
