import Mathlib.Tactic

/-!
# Fixed-width data of the mask pool

Addresses, ports and counters are bit vectors of the widths `types.h` and
`pool4.h` give them. An `in6_addr` is kept as its four `s6_addr32` words *as the
host loads them*, so the byte order of the host only enters where the code
converts a constant and where a specification reads the address as a number.
-/

namespace MaskPool

/-- A 32-bit machine word: `int`, `unsigned int`, `__u32` and `__be32` alike. -/
abbrev Word := BitVec 32

theorem toInt_ofNat_of_lt {n : ℕ} (h : n < 2 ^ 31) : (BitVec.ofNat 32 n).toInt = n := by
  have hword : (BitVec.ofNat 32 n).toNat = n := by
    rw [BitVec.toNat_ofNat]
    omega
  rw [BitVec.toInt_eq_toNat_of_lt (by omega), hword]

def ESRCH : ℤ := 3
def ENOMEM : ℤ := 12

inductive ByteOrder where
  | little
  | big
  deriving DecidableEq, Repr

/-- The machine under the code. C does not say what a shift by a negative count,
or by at least the width of its operand, produces; each host has its own answer. -/
structure Host where
  order : ByteOrder
  wildShift32 : Word → ℤ → Word
  wildShift64 : BitVec 64 → ℤ → BitVec 64

def Host.shl32 (host : Host) (x : Word) (count : ℤ) : Word :=
  if 0 ≤ count ∧ count < 32 then x <<< count.toNat else host.wildShift32 x count

def Host.shl64 (host : Host) (x : BitVec 64) (count : ℤ) : BitVec 64 :=
  if 0 ≤ count ∧ count < 64 then x <<< count.toNat else host.wildShift64 x count

/-- x86 reduces a shift count modulo the operand's width. -/
def Host.x86 : Host where
  order := .little
  wildShift32 x count := x <<< (count % 32).toNat
  wildShift64 x count := x <<< (count % 64).toNat

/-- A big-endian machine on which oversized shifts leave nothing. -/
def Host.powerpc : Host where
  order := .big
  wildShift32 _ _ := 0
  wildShift64 _ _ := 0

def byteSwap (w : Word) : Word :=
  w.extractLsb' 0 8 ++ w.extractLsb' 8 8 ++ w.extractLsb' 16 8 ++ w.extractLsb' 24 8

def cpuToBe32 (host : Host) (w : Word) : Word :=
  match host.order with
  | .little => byteSwap w
  | .big => w

def be32ToCpu (host : Host) (w : Word) : Word :=
  match host.order with
  | .little => byteSwap w
  | .big => w

@[simp] theorem cpuToBe32_zero (host : Host) : cpuToBe32 host 0 = 0 := by
  unfold cpuToBe32
  cases host.order <;> decide

@[simp] theorem cpuToBe32_ones (host : Host) :
    cpuToBe32 host 0xffffffff = 0xffffffff := by
  unfold cpuToBe32
  cases host.order <;> decide

/-- The words `s6_addr32[0..3]`, each as the host loads it. -/
structure In6Addr where
  word0 : Word
  word1 : Word
  word2 : Word
  word3 : Word
  deriving DecidableEq, Repr

/-- The address as a number, its first byte in memory the most significant. -/
def In6Addr.value (host : Host) (a : In6Addr) : ℕ :=
  (be32ToCpu host a.word0).toNat * 2 ^ 96 + (be32ToCpu host a.word1).toNat * 2 ^ 64 +
    (be32ToCpu host a.word2).toNat * 2 ^ 32 + (be32ToCpu host a.word3).toNat

structure Ipv6Prefix where
  address : In6Addr
  len : BitVec 8
  deriving DecidableEq, Repr

/-- No bit of the address is set past the first `len`. -/
def Ipv6Prefix.HostBitsClear (host : Host) (p : Ipv6Prefix) : Prop :=
  p.address.value host % 2 ^ (128 - p.len.toNat) = 0

instance (host : Host) (p : Ipv6Prefix) : Decidable (p.HostBitsClear host) :=
  inferInstanceAs (Decidable (_ = _))

structure Ipv4TransportAddr where
  l3 : Word
  l4 : BitVec 16
  deriving DecidableEq, Repr

structure ClientMaskDomain where
  first : Ipv4TransportAddr
  step : Word
  count : Word
  deriving DecidableEq, Repr

structure PortRange where
  min : BitVec 16
  max : BitVec 16
  deriving DecidableEq, Repr

structure Pool4Mask where
  mark : Word
  proto : BitVec 8
  addr : Word
  port : BitVec 16
  deriving DecidableEq, Repr

structure Ipv6Hdr where
  saddr : In6Addr
  deriving DecidableEq, Repr

structure Packet where
  hdr : Ipv6Hdr
  deriving DecidableEq, Repr

/-- What `ip4_to_str` writes with `%d.%d.%d.%d`, without the final zero byte. -/
def ip4ToStr (ip : Word) : List Char :=
  Nat.toDigits 10 (ip >>> 24).toNat ++ ['.'] ++
    Nat.toDigits 10 ((ip >>> 16) &&& 0xff).toNat ++ ['.'] ++
    Nat.toDigits 10 ((ip >>> 8) &&& 0xff).toNat ++ ['.'] ++ Nat.toDigits 10 (ip &&& 0xff).toNat

end MaskPool
