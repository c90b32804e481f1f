import MaskPool.Model.Iteration

/-!
# The recorders of `nf_hook.c`

The self-test of the module keeps two global arrays for each kind of element: what a
traversal should visit, and what a callback has seen. The callbacks write, the `match_`
functions compare. Index `i` of both arrays is one slot here.
-/

namespace MaskPool.Harness

/-- Index `i` of an `_exp` and of its `_seen` array. -/
structure Slot (α : Type) where
  exp : α
  seen : α
  deriving DecidableEq, Repr

/-- The fields of an element the self-test compares, and their assignment. -/
structure Fields (α κ : Type) where
  key : α → κ
  store : α → α → α
  key_store : ∀ x slot, key (store x slot) = key x

variable {α κ : Type} [DecidableEq κ]

/-- The arrays, and the `int` behind `arg`, if there is one. -/
structure Recorded (α : Type) where
  slots : List (Slot α)
  arg : Option Word
  deriving DecidableEq, Repr

/-- The common body of the callbacks: `(*arg_int)++`, and every slot that expects the
element takes its fields over. -/
def recordElement (fields : Fields α κ) (x : α) (s : Recorded α) : Recorded α where
  slots := s.slots.map fun slot =>
    if fields.key x = fields.key slot.exp then { slot with seen := fields.store x slot.seen }
    else slot
  arg := s.arg.map (· + 1)

def matchSlots (fields : Fields α κ) (slots : List (Slot α)) : Bool :=
  slots.all fun slot => fields.key slot.exp == fields.key slot.seen

def nodeFields : Fields Pool4Entry (Word × PortRange) where
  key entry := (entry.addr, entry.range)
  store entry slot := { slot with addr := entry.addr, range := entry.range }
  key_store _ _ := rfl

def maskFields : Fields Pool4Mask (Word × BitVec 16) where
  key mask := (mask.addr, mask.port)
  store mask slot := { slot with addr := mask.addr, port := mask.port }
  key_store _ _ := rfl

def prefixFields : Fields Ipv6Prefix Ipv6Prefix where
  key prefix6 := prefix6
  store prefix6 _ := prefix6
  key_store _ _ := rfl

def addressFields : Fields In6Addr In6Addr where
  key addr := addr
  store addr _ := addr
  key_store _ _ := rfl

/-- `s6_addr[15]`, the last byte in memory. -/
def lastByte (host : Host) (addr : In6Addr) : BitVec 8 :=
  (be32ToCpu host addr.word3).setWidth 8

def callb (entry : Pool4Entry) (s : Recorded Pool4Entry) : ℤ × Recorded Pool4Entry :=
  (0, recordElement nodeFields entry s)

def cback (mask : Pool4Mask) (s : Recorded Pool4Mask) : ℤ × Recorded Pool4Mask :=
  (if mask.port = 64 then 1 else 0, recordElement maskFields mask s)

def cb (prefix6 : Ipv6Prefix) (s : Recorded Ipv6Prefix) : ℤ × Recorded Ipv6Prefix :=
  (0, recordElement prefixFields prefix6 s)

def callback (host : Host) (addr : In6Addr) (s : Recorded In6Addr) : ℤ × Recorded In6Addr :=
  (if lastByte host addr = 14 then 1 else 0, recordElement addressFields addr s)

def zeroEntry : Pool4Entry := { mark := 0, proto := 0, addr := 0, range := { min := 0, max := 0 } }

def zeroMask : Pool4Mask := { mark := 0, proto := 0, addr := 0, port := 0 }

def zeroAddr : In6Addr := { word0 := 0, word1 := 0, word2 := 0, word3 := 0 }

def zeroPrefix : Ipv6Prefix := { address := zeroAddr, len := 0 }

/-- The assignments of a test to one `_exp` array: zero where there is none.
`clear_nodes_arrays` has zeroed the `node4_` and `node6_` arrays; the `mask_` and `in6addr_`
arrays are globals that start out zero. -/
def expecting (zero : α) (exps : List α) : List (Slot α) :=
  exps.map fun exp => { exp := exp, seen := zero }

def matchPool4Nodes (slots : List (Slot Pool4Entry)) : Bool := matchSlots nodeFields slots

def matchClientNodes (slots : List (Slot Ipv6Prefix)) : Bool := matchSlots prefixFields slots

def matchMasks (slots : List (Slot Pool4Mask)) : Bool := matchSlots maskFields slots

/-- The first words are all compared with what slot 0 has seen. -/
def matchIn6Addrs (slots : List (Slot In6Addr)) : Bool :=
  slots.all fun slot =>
    slots.head?.all (fun first => slot.exp.word0 == first.seen.word0) &&
      slot.exp.word1 == slot.seen.word1 && slot.exp.word2 == slot.seen.word2 &&
      slot.exp.word3 == slot.seen.word3

/-- The function returns, writes behind the array, or is still running. -/
inductive Filling (α : Type) where
  | filled (slots : List (Slot α))
  | overrun
  | running
  deriving DecidableEq, Repr

def expectAt (fields : Fields α κ) (x : α) (i : ℕ) (slots : List (Slot α)) :
    Option (List (Slot α)) :=
  if i < slots.length then
    some (slots.modify i fun slot => { slot with exp := fields.store x slot.exp })
  else none

/-- The innermost loop of `fill_exp_masks`. The `;` behind `if (p == 64)` is its body: the
`return 0` below is not guarded, and `i++` never reached. -/
def fillPort (entry : Pool4Entry) (s : List (Slot Pool4Mask) × ℕ) (p : ℕ) :
    Except (Filling Pool4Mask) (List (Slot Pool4Mask) × ℕ) :=
  let mask : Pool4Mask :=
    { mark := entry.mark, proto := entry.proto, addr := entry.addr, port := BitVec.ofNat 16 p }
  match expectAt maskFields mask s.2 s.1 with
  | some slots => throw (.filled slots)
  | none => throw .overrun

def fillAddress (host : Host) (s : List (Slot In6Addr) × ℕ) (entry : Ipv6Prefix) :
    Except (Filling In6Addr) (List (Slot In6Addr) × ℕ) :=
  match expectAt addressFields entry.address s.2 s.1 with
  | some slots =>
    if lastByte host entry.address = 14 then throw (.filled slots) else return (slots, s.2 + 1)
  | none => throw .overrun

/-- The `while` loop of both functions around one pass over the database. -/
def fillWhile (last : ℕ)
    (pass : List (Slot α) × ℕ → Except (Filling α) (List (Slot α) × ℕ)) :
    ℕ → List (Slot α) × ℕ → Filling α
  | 0, _ => .running
  | fuel + 1, s =>
    if s.2 ≤ last then
      match pass s with
      | .error outcome => outcome
      | .ok s => fillWhile last pass fuel s
    else .filled s.1

def fillExpMasks (fuel : ℕ) (cpool : Pool4) (slots : List (Slot Pool4Mask)) :
    Filling Pool4Mask :=
  fillWhile 74
    (fun s => cpool.foldlM (fun s entry => (entryPorts entry).foldlM (fillPort entry) s) s)
    fuel (slots, 0)

def fillExpIn6Addr (host : Host) (fuel : ℕ) (client : Client) (slots : List (Slot In6Addr)) :
    Filling In6Addr :=
  fillWhile 6 (fun s => client.foldlM (fillAddress host) s) fuel (slots, 0)

end MaskPool.Harness
