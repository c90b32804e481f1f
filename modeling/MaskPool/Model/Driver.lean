import MaskPool.Model.Memory

/-!
# The driver of `nf_hook.c`

`nat64_init` runs its test functions one after the other, each between `init` and `end`.
`init` makes all of its calls whatever they return. If one of its checks has failed, the
driver returns at once: `end` is not called, and no test comes after.
-/

namespace MaskPool

variable {κ σ : Type}

def EINVAL : ℤ := 22

/-- What `init` stores in `one` to `seven`. -/
def nodes (host : Host) : List Pool4Entry :=
  [{ mark := 1, proto := 1, addr := cpuToBe32 host 0xc0000201, range := { min := 4, max := 7 } },
    { mark := 2, proto := 2, addr := cpuToBe32 host 0xc0000202, range := { min := 10, max := 20 } },
    { mark := 3, proto := 3, addr := cpuToBe32 host 0xc0000203, range := { min := 25, max := 39 } },
    { mark := 4, proto := 4, addr := cpuToBe32 host 0xc0000204, range := { min := 40, max := 63 } },
    { mark := 5, proto := 5, addr := cpuToBe32 host 0xc0000205, range := { min := 65, max := 80 } },
    { mark := 6, proto := 6, addr := cpuToBe32 host 0xc0000206,
      range := { min := 100, max := 100 } },
    { mark := 7, proto := 7, addr := cpuToBe32 host 0xc0000207,
      range := { min := 253, max := 256 } }]

def testPrefix (host : Host) (last : Word) (len : BitVec 8) : Ipv6Prefix where
  address :=
    { word0 := cpuToBe32 host 0x2001
      word1 := cpuToBe32 host 0x0db8
      word2 := cpuToBe32 host 0
      word3 := cpuToBe32 host last }
  len := len

def prefixes (host : Host) : List Ipv6Prefix :=
  [testPrefix host 0 128, testPrefix host 1 122, testPrefix host 2 127, testPrefix host 3 126,
    testPrefix host 4 127, testPrefix host 5 128, testPrefix host 6 128]

/-- One request after the other; `kmalloc k` is the answer to the `k`-th request of `init`. -/
def fill {α : Type} (request : α → κ → List (Call κ σ)) (kmalloc : ℕ → κ) :
    ℕ → List α → List (Call κ σ)
  | _, [] => []
  | k, x :: rest => request x (kmalloc k) ++ fill request kmalloc (k + 1) rest

/-- Adds the entry to `cpool` and looks it up again. -/
def addEntry (entry : Pool4Entry) (kmalloc : κ) : List (Call κ σ) :=
  [.pool4Add .cpool entry.mark entry.proto entry.addr entry.range kmalloc,
    .pool4Contains .cpool entry.mark entry.proto entry.addr entry.range]

def addPrefix (prefix6 : Ipv6Prefix) (kmalloc : κ) : List (Call κ σ) :=
  [.clientAdd prefix6 kmalloc, .clientAddrExist prefix6.address]

def init (host : Host) (kmalloc : ℕ → κ) : List (Call κ σ) :=
  initCalls ++ (fill addEntry kmalloc 0 (nodes host) ++ fill addPrefix kmalloc 7 (prefixes host))

/-- `ASSERT_INT(0, ...)` and `ASSERT_BOOL(true, ...)`, the checks of `init`. -/
def Answer.asserted : Answer σ → Bool
  | .code error => error == 0
  | .truth answer => answer
  | _ => false

/-- The division faults of the kernel: whoever has made the call is killed. -/
def Answer.isFault : Answer σ → Bool
  | .divisionFault => true
  | _ => false

/-- What goes into one `INIT_CALL_END`: the answers `init` gets from the allocator, the calls
of the test function, and what it returns for their answers. -/
structure Round (κ σ : Type) where
  kmalloc : ℕ → κ
  calls : List (Call κ σ)
  success : List (Answer σ) → Bool

inductive Verdict where
  | refused
  | killed
  | called (success : Bool)
  deriving DecidableEq, Repr

/-- How `nat64_init` ends, with its two counters. -/
inductive Ending where
  | returned (error : ℤ) (testCounter failureCounter : ℕ)
  | killed
  deriving DecidableEq, Repr

namespace Heap

variable {Ptr : Type} {ops : Rings.Ops.{0, 0} Ptr} [DecidableEq Ptr]

open RingStore

/-- The memory left behind by a test that is killed is not looked at. -/
def initCallEnd (host : Host) (heads : Database → Ptr) (fuel : ℕ)
    (round : Round (Option Ptr) σ) (mem : Memory ops Object) :
    Except Fault (Verdict × Memory ops Object) := do
  let (answers, mem) ←
    runCalls host heads fuel mem (init host round.kmalloc : List (Call (Option Ptr) σ))
  if !answers.all Answer.asserted then return (.refused, mem)
  else
    let (answers, mem) ← runCalls host heads fuel mem round.calls
    if answers.any Answer.isFault then return (.killed, mem)
    else
      let (_, mem) ← runCalls host heads fuel mem (endCalls : List (Call (Option Ptr) σ))
      return (.called (round.success answers), mem)

def nat64Init (host : Host) (heads : Database → Ptr) (fuel : ℕ) :
    List (Round (Option Ptr) σ) → ℕ → ℕ → Memory ops Object →
      Except Fault (Ending × Memory ops Object)
  | [], testCounter, failureCounter, mem =>
    .ok (.returned (if 0 < failureCounter then -EINVAL else 0) testCounter failureCounter, mem)
  | round :: rounds, testCounter, failureCounter, mem => do
    match ← initCallEnd host heads fuel round mem with
    | (.refused, mem) => return (.returned (-EINVAL) testCounter failureCounter, mem)
    | (.killed, mem) => return (.killed, mem)
    | (.called success, mem) =>
      nat64Init host heads fuel rounds (testCounter + 1)
        (if success then failureCounter else failureCounter + 1) mem

end Heap

end MaskPool
