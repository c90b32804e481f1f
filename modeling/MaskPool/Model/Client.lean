import MaskPool.Model.Pool4

/-!
# The IPv6 client database of `client.c`

The database is a `List` of prefixes in list order. Words of an address are used
exactly as loaded; only the constants pass through `cpu_to_be32`.
-/

namespace MaskPool

abbrev Client := List Ipv6Prefix

def maxIpv6 (host : Host) : Word := cpuToBe32 host 0xffffffff

def getAddr6Count (host : Host) (prefix6 : Ipv6Prefix) : Word :=
  host.shl32 1 (128 - (prefix6.len.toNat : ℤ))

/-- The word-by-word comparison; the 64-bit variant compares the same bits. -/
def ipv6AddrEqual (a1 a2 : In6Addr) : Bool :=
  ((a1.word0 ^^^ a2.word0) ||| (a1.word1 ^^^ a2.word1) ||| (a1.word2 ^^^ a2.word2) |||
    (a1.word3 ^^^ a2.word3)) == 0

/-- Two neighbouring words as the host loads them at once. -/
def loadLong (host : Host) (low high : Word) : BitVec 64 :=
  match host.order with
  | .little => high ++ low
  | .big => low ++ high

/-- The variant for 64-bit machines with efficient unaligned access. -/
def ipv6AddrEqual64 (host : Host) (a1 a2 : In6Addr) : Bool :=
  ((loadLong host a1.word0 a1.word1 ^^^ loadLong host a2.word0 a2.word1) |||
    (loadLong host a1.word2 a1.word3 ^^^ loadLong host a2.word2 a2.word3)) == 0

def prefix6Equals (expected actual : Ipv6Prefix) : Bool :=
  if !ipv6AddrEqual expected.address actual.address then false
  else if expected.len != actual.len then false
  else true

def clientInit : Client := []

def clientAdd (client : Client) (prefix6 : Ipv6Prefix) (kmalloc : Bool) : ℤ × Client :=
  if !kmalloc then (-ENOMEM, client) else (0, client ++ [prefix6])

/-- The loop returns right after unlinking its first match. -/
def clientDelete : Client → Ipv6Prefix → ℤ × Client
  | [], _ => (0, [])
  | exist :: rest, prefix6 =>
    if prefix6Equals prefix6 exist then (0, rest)
    else (0, exist :: (clientDelete rest prefix6).2)

def clientFlush (_client : Client) : ℤ × Client := (0, [])

def clientExist (client : Client) (prefix6 : Ipv6Prefix) : Bool :=
  client.any fun exist => prefix6Equals prefix6 exist

def clientCount (host : Host) (client : Client) : Word :=
  client.foldl (fun i exist => i + getAddr6Count host exist) 0

/-- The last branch of the source tests `s6_addr32[1]` once more, so it is never
taken and `s6_addr32[0]` is never incremented. -/
def addr6Iterations (host : Host) (client : In6Addr) : In6Addr :=
  if ¬client.word3 = maxIpv6 host then
    { client with word3 := client.word3 + 1 }
  else if ¬client.word2 = maxIpv6 host then
    { client with word3 := cpuToBe32 host 0, word2 := client.word2 + 1 }
  else if ¬client.word1 = maxIpv6 host then
    { client with
      word3 := cpuToBe32 host 0, word2 := cpuToBe32 host 0, word1 := client.word1 + 1 }
  else if ¬client.word1 = maxIpv6 host then
    { client with
      word3 := cpuToBe32 host 0, word2 := cpuToBe32 host 0, word1 := cpuToBe32 host 0 }
  else client

/-- `((__u64) MAXipv6) << (128 - len)` stored in a `__u32`. -/
def prefixMask (host : Host) (prefix6 : Ipv6Prefix) : Word :=
  (host.shl64 ((maxIpv6 host).zeroExtend 64) (128 - (prefix6.len.toNat : ℤ))).truncate 32

/-- All four words are compared under the one 32-bit mask. -/
def prefixContains (host : Host) (prefix6 : Ipv6Prefix) (addr : In6Addr) : Bool :=
  let mask := prefixMask host prefix6
  prefix6.address.word0 &&& mask == addr.word0 &&& mask &&
    prefix6.address.word1 &&& mask == addr.word1 &&& mask &&
    prefix6.address.word2 &&& mask == addr.word2 &&& mask &&
    prefix6.address.word3 &&& mask == addr.word3 &&& mask

/-- The inner loop of `client_addr_exist`, with the rounds it has left. -/
def addrExistFrom (host : Host) (addr : In6Addr) : ℕ → In6Addr → Bool
  | 0, _ => false
  | rounds + 1, dummy =>
    if addr.word0 = dummy.word0 ∧ addr.word1 = dummy.word1 ∧ addr.word2 = dummy.word2 ∧
        addr.word3 = dummy.word3 then true
    else addrExistFrom host addr rounds (addr6Iterations host dummy)

def clientAddrExist (host : Host) (client : Client) (addr : In6Addr) : Bool :=
  client.any fun listed =>
    addrExistFrom host addr (getAddr6Count host listed).toNat listed.address

/-- The search loop of `client_get_mask_domain`: `ipv6_pos` at the first prefix
that contains the address. -/
def listedPos (host : Host) (addr : In6Addr) : Client → Word → Option Word
  | [], _ => none
  | listed :: rest, ipv6Pos =>
    if prefixContains host listed addr then some ipv6Pos
    else listedPos host addr rest (ipv6Pos + 1)

/-- The capacity check compares an `unsigned int` with an `int`, hence as unsigned. -/
def clientGetMaskDomain (host : Host) (client : Client) (pool4 : Pool4) (addr : In6Addr)
    (result : ClientMaskDomain) (masksPerClient : Word) : ℤ × ClientMaskDomain :=
  if clientCount host client > pool4Count pool4 then (1, result)
  else
    match listedPos host addr client 0 with
    | none => (-ESRCH, result)
    | some ipv6Pos => pool4Taddr4FindPos pool4 ipv6Pos result masksPerClient

end MaskPool
