import MaskPool.Model.Types

/-!
# The IPv4 mask pool of `pool4.c`

The kernel list is a `List` of entries in list order. `kmalloc` is the answer of
the allocator. Counters declared `int` or `unsigned int` are `Word`s and wrap;
a loop variable running over `range.min .. range.max` stays below `2 ^ 17` and is
a natural number. A function that writes through `result` returns the new content.
-/

namespace MaskPool

structure Pool4Entry where
  mark : Word
  proto : BitVec 8
  addr : Word
  range : PortRange
  deriving DecidableEq, Repr

abbrev Pool4 := List Pool4Entry

def pool4Init : Pool4 := []

def pool4Add (pool4 : Pool4) (mark : Word) (proto : BitVec 8) (addr : Word)
    (range : PortRange) (kmalloc : Bool) : ℤ × Pool4 :=
  if !kmalloc then (-ENOMEM, pool4)
  else (0, pool4 ++ [{ mark := mark, proto := proto, addr := addr, range := range }])

def pool4Equals (one two : Pool4Entry) : Bool :=
  one.mark == two.mark && one.proto == two.proto && one.addr == two.addr &&
    one.range.max == two.range.max && one.range.min == two.range.min

def pool4Compare (one two : Pool4Entry) : Bool :=
  one.proto == two.proto && one.addr == two.addr

/-- The safe iteration unlinks every entry equal to the requested one. -/
def pool4Rm (pool4 : Pool4) (mark : Word) (proto : BitVec 8) (addr : Word)
    (range : PortRange) : ℤ × Pool4 :=
  let rm : Pool4Entry := { mark := mark, proto := proto, addr := addr, range := range }
  (0, pool4.filter fun exist => !pool4Equals rm exist)

def pool4Flush (_pool4 : Pool4) : ℤ × Pool4 := (0, [])

def pool4IsEmpty (pool4 : Pool4) : Bool := pool4.isEmpty

def pool4Contains (pool4 : Pool4) (mark : Word) (proto : BitVec 8) (addr : Word)
    (range : PortRange) : Bool :=
  let requested : Pool4Entry :=
    { mark := mark, proto := proto, addr := addr, range := range }
  pool4.any fun listed => pool4Compare requested listed

/-- `range.max - range.min + 1`, an `int` expression stored in an `unsigned int`. -/
def entryPortCount (entry : Pool4Entry) : Word :=
  entry.range.max.zeroExtend 32 - entry.range.min.zeroExtend 32 + 1

/-- The 32 bits returned; as an `int` they read `(pool4Count pool4).toInt`. -/
def pool4Count (pool4 : Pool4) : Word :=
  pool4.foldl (fun entries entry => entries + entryPortCount entry) 0

/-- The values of `i` in `for (i = range.min; i <= range.max; i++)`. -/
def entryPorts (entry : Pool4Entry) : List ℕ :=
  List.range' entry.range.min.toNat (entry.range.max.toNat + 1 - entry.range.min.toNat)

/-- The locals of `pool4_taddr4_find_pos` together with `*result`. -/
structure FindPosState where
  portsPos : Word
  counter : Word
  result : ClientMaskDomain
  deriving DecidableEq, Repr

/-- The body of the inner loop of `pool4_taddr4_find_pos`. -/
def findPosPort (ipv6Pos masksPerClient : Word) (entry : Pool4Entry)
    (s : FindPosState) (i : ℕ) : FindPosState :=
  if s.counter % masksPerClient = 0 then
    { portsPos := s.portsPos + 1
      counter := s.counter + 1
      result :=
        if ipv6Pos = s.portsPos then
          { first := { l3 := entry.addr, l4 := BitVec.ofNat 16 i }
            step := 1
            count := masksPerClient }
        else s.result }
  else { s with counter := s.counter + 1 }

/-- The locals and `*result` behind the loops of `pool4_taddr4_find_pos`. -/
def findPosLoops (pool4 : Pool4) (ipv6Pos : Word) (result : ClientMaskDomain)
    (masksPerClient : Word) : FindPosState :=
  pool4.foldl
    (fun s entry => (entryPorts entry).foldl (findPosPort ipv6Pos masksPerClient entry) s)
    { portsPos := 0, counter := 0, result := result }

def pool4Taddr4FindPos (pool4 : Pool4) (ipv6Pos : Word) (result : ClientMaskDomain)
    (masksPerClient : Word) : ℤ × ClientMaskDomain :=
  if masksPerClient = 0 then (1, result)
  else (0, (findPosLoops pool4 ipv6Pos result masksPerClient).result)

/-- How `for (; i <= range.max; i += step)` of `pool4_get_nth_taddr` ends: at the
port it was looking for, or past `range.max` with `n` ports still to go. -/
inductive NthScan where
  | found (i : Word)
  | missing (n : ℕ)
  deriving DecidableEq, Repr

/-- `i` is an `int`, so the bound is a signed comparison. Each round consumes one
unit of `n`, whatever the stride does to `i`. -/
def nthPort (max : BitVec 16) (step : Word) : ℕ → Word → NthScan
  | n, i =>
    if i.sle (max.zeroExtend 32) then
      match n with
      | 0 => .found i
      | n + 1 => nthPort max step n (i + step)
    else .missing n

def startsIn (domain : ClientMaskDomain) (entry : Pool4Entry) : Bool :=
  domain.first.l3 == entry.addr && decide (entry.range.min ≤ domain.first.l4) &&
    decide (domain.first.l4 < entry.range.max)

def nthTaddr (domain : ClientMaskDomain) : Pool4 → Bool → ℕ → Option Ipv4TransportAddr
  | [], _, _ => none
  | entry :: rest, flag, n =>
    if startsIn domain entry || flag then
      if !flag then
        match nthPort entry.range.max domain.step n (domain.first.l4.zeroExtend 32) with
        | .found i => some { l3 := entry.addr, l4 := i.truncate 16 }
        | .missing n => nthTaddr domain rest true n
      else
        match nthPort entry.range.max domain.step n (entry.range.min.zeroExtend 32) with
        | .found i => some { l3 := entry.addr, l4 := i.truncate 16 }
        | .missing n => nthTaddr domain rest true n
    else nthTaddr domain rest flag n

/-- `none` is the division fault of `n % domain->count` on an empty domain. -/
def pool4GetNthTaddr (pool4 : Pool4) (domain : ClientMaskDomain) (n : Word)
    (result : Ipv4TransportAddr) : Option (ℤ × Ipv4TransportAddr) :=
  if domain.count = 0 then none
  else
    match nthTaddr domain pool4 false (n % domain.count).toNat with
    | some taddr => some (0, taddr)
    | none => some (-ESRCH, result)

def bibdbContains4 (addr : Ipv4TransportAddr) : Bool := addr.l4 &&& 1 != 0

end MaskPool
