import MaskPool.Foundations.Traversal
import MaskPool.Model.Client

/-!
# The iterators of `pool4.c` and `client.c`

A callback is a function of the visited element and of the state behind `arg`, and
answers with its error code. Loops run in `Except`: throwing is the `return` statement
inside a loop, with the code returned and the state behind `arg`.
-/

namespace MaskPool

variable {α σ τ : Type*}

/-- `error = cb(x, arg); if (error) return error;` -/
def callBack (cb : α → σ → ℤ × σ) (x : α) (arg : σ) : Except (ℤ × σ) σ :=
  Traversal.settle (cb x arg)

/-- The loop shared by `pool4_foreach_sample` and `client_for_eachsample`, with the
comparison each of them uses. The offset is dropped at the first entry equal to it;
`none` is `NULL`. -/
def foreachSample (equals : α → α → Bool) (cb : α → σ → ℤ × σ) :
    List α → Option α → ℤ → σ → ℤ × σ
  | [], none, error, arg => (error, arg)
  | [], some _, _, arg => (-ESRCH, arg)
  | tmp :: rest, none, _, arg =>
    let (error, arg) := cb tmp arg
    if error ≠ 0 then (error, arg) else foreachSample equals cb rest none error arg
  | tmp :: rest, some offset, error, arg =>
    if equals offset tmp then foreachSample equals cb rest none error arg
    else foreachSample equals cb rest (some offset) error arg

def pool4ForeachSample (pool4 : Pool4) (cb : Pool4Entry → σ → ℤ × σ) (arg : σ)
    (offset : Option Pool4Entry) : ℤ × σ :=
  foreachSample pool4Equals cb pool4 offset 0 arg

def clientForEachsample (client : Client) (func : Ipv6Prefix → σ → ℤ × σ) (arg : σ)
    (offset : Option Ipv6Prefix) : ℤ × σ :=
  foreachSample prefix6Equals func client offset 0 arg

/-- The locals of `pool4_foreach_taddr4` that its loops change, with `*arg`. -/
structure Taddr4State (σ : Type*) where
  indx : Word
  arg : σ

/-- The body of either inner loop, which differ in the `indx` they visit. -/
def taddr4Port (visits : Word → Bool) (cback : Pool4Mask → σ → ℤ × σ) (entry : Pool4Entry)
    (s : Taddr4State σ) (i : ℕ) : Except (ℤ × σ) (Taddr4State σ) :=
  if visits s.indx then do
    let mask : Pool4Mask :=
      { mark := entry.mark, proto := entry.proto, addr := entry.addr,
        port := BitVec.ofNat 16 i }
    let arg ← callBack cback mask s.arg
    return { indx := s.indx + 1, arg := arg }
  else return { s with indx := s.indx + 1 }

def taddr4Pass (visits : Word → Bool) (pool4 : Pool4) (cback : Pool4Mask → σ → ℤ × σ)
    (arg : σ) : Except (ℤ × σ) (Taddr4State σ) :=
  pool4.foldlM (fun s entry => (entryPorts entry).foldlM (taddr4Port visits cback entry) s)
    { indx := 0, arg := arg }

/-- `entries` is an `int`, but is compared and divided as an unsigned number. -/
def reduceOffset (offset entries : Word) : Option Word :=
  if offset > entries then
    if entries = 0 then none else some (offset % entries)
  else some offset

/-- `none` is the division fault of `offset % entries`. -/
def pool4ForeachTaddr4 (pool4 : Pool4) (cback : Pool4Mask → σ → ℤ × σ) (arg : σ)
    (offset : Word) : Option (ℤ × σ) :=
  match reduceOffset offset (pool4Count pool4) with
  | none => none
  | some offset =>
    match taddr4Pass (fun indx => offset ≤ indx) pool4 cback arg with
    | .error returned => some returned
    | .ok s =>
      if offset = 0 then some (0, s.arg)
      else
        match taddr4Pass (fun indx => indx < offset) pool4 cback s.arg with
        | .error returned => some returned
        | .ok s => some (0, s.arg)

/-- `for (i = 0; i < get_addr6_count(..); i++)` over one prefix: the body, then the next
address. The rounds left are counted down. -/
def addressLoop (host : Host) (body : τ → In6Addr → Except (ℤ × σ) τ) :
    ℕ → In6Addr → τ → Except (ℤ × σ) τ
  | 0, _, s => return s
  | rounds + 1, dummy, s => do
    let s ← body s dummy
    addressLoop host body rounds (addr6Iterations host dummy) s

def addressPass (host : Host) (body : τ → In6Addr → Except (ℤ × σ) τ) (client : Client)
    (s : τ) : Except (ℤ × σ) τ :=
  client.foldlM (fun s listed =>
    addressLoop host body (getAddr6Count host listed).toNat listed.address s) s

/-- The locals of `client_for_each` that its first pass changes, with `*arg`. `error` is
not among them: a loop only goes on while it is 0. -/
structure ForEachState (σ : Type*) where
  offset : Word
  flag : Bool
  arg : σ

def forEachRound (cb : In6Addr → σ → ℤ × σ) (s : ForEachState σ) (dummy : In6Addr) :
    Except (ℤ × σ) (ForEachState σ) :=
  if s.offset = 0 then do
    let arg ← callBack cb dummy s.arg
    return { s with flag := true, arg := arg }
  else return { s with offset := s.offset - 1 }

structure ForEachAux (σ : Type*) where
  clientIndexAux : Word
  arg : σ

/-- Both indices are `int`s. The pass ends with `return error` in its `else` branch. -/
def forEachAuxRound (cb : In6Addr → σ → ℤ × σ) (clientIndex : Word) (s : ForEachAux σ)
    (dummy : In6Addr) : Except (ℤ × σ) (ForEachAux σ) :=
  if s.clientIndexAux.slt clientIndex then do
    let arg ← callBack cb dummy s.arg
    return { clientIndexAux := s.clientIndexAux + 1, arg := arg }
  else throw (0, s.arg)

/-- `none` is the division fault of `offset % total_clients`. -/
def clientForEach (host : Host) (client : Client) (cb : In6Addr → σ → ℤ × σ) (arg : σ)
    (offset : Word) : Option (ℤ × σ) :=
  let totalClients : Word :=
    client.foldl (fun total listed => total + getAddr6Count host listed) 0
  if totalClients = 0 then none
  else
    let clientIndex := offset % totalClients
    match addressPass host (forEachRound cb) client
        { offset := clientIndex, flag := false, arg := arg } with
    | .error returned => some returned
    | .ok s =>
      match
        (if s.flag then
          addressPass host (forEachAuxRound cb clientIndex) client
            { clientIndexAux := 0, arg := s.arg }
        else .ok { clientIndexAux := 0, arg := s.arg }) with
      | .error returned => some returned
      | .ok aux => some (if s.offset ≠ 0 then -ESRCH else 0, aux.arg)

end MaskPool
