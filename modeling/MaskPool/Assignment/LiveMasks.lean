import MaskPool.Assignment.FirstCome

/-!
# Masks out of service

Whatever the calls before it were, on whichever database and in whatever order, a request
is answered with a mask of an entry that was added and has not been removed, flushed or
initialised away since. Each pool only follows its own part of the history.
-/

namespace MaskPool

open Runs

variable {σ : Type}

def Call.pool4Op (name : PoolName) : Call Bool σ → Option Pool4Op
  | .pool4Init other => if other = name then some .flush else none
  | .pool4Add other mark proto addr range true =>
    if other = name then
      some (.add { mark := mark, proto := proto, addr := addr, range := range })
    else none
  | .pool4Rm other mark proto addr range =>
    if other = name then
      some (.rm { mark := mark, proto := proto, addr := addr, range := range })
    else none
  | .pool4Flush other => if other = name then some .flush else none
  | _ => none

/-- The part of the history one pool follows. -/
def poolHistory (name : PoolName) (calls : List (Call Bool σ)) : List Pool4Op :=
  calls.filterMap (Call.pool4Op name)

@[simp] theorem System.pool_setPool (sys : System) (name other : PoolName) (pool4 : Pool4) :
    (sys.setPool other pool4).pool name = if other = name then pool4 else sys.pool name := by
  cases name <;> cases other <;> rfl

theorem System.pool_call (host : Host) (sys : System) (name : PoolName) (c : Call Bool σ) :
    (sys.call host c).2.pool name =
      (c.pool4Op name).elim (sys.pool name) (Pool4Op.step (sys.pool name)) := by
  cases c with
  | pool4Init other =>
    rw [System.call, pool_setPool, Call.pool4Op]
    split_ifs <;> rfl
  | pool4Add other mark proto addr range kmalloc =>
    rw [System.call, pool_setPool]
    cases kmalloc with
    | false =>
      split_ifs with h
      · rw [← h]
        rfl
      · rfl
    | true =>
      rw [Call.pool4Op]
      split_ifs with h
      · rw [← h]
        rfl
      · rfl
  | pool4Rm other mark proto addr range =>
    rw [System.call, pool_setPool, Call.pool4Op]
    split_ifs with h
    · rw [← h]
      rfl
    · rfl
  | pool4Flush other =>
    rw [System.call, pool_setPool, Call.pool4Op]
    split_ifs <;> rfl
  | getMask _ _ _ _ _ | clientInit | clientAdd _ _ | clientDelete _ | clientFlush =>
    cases name <;> rfl
  | pool4IsEmpty _ | pool4Contains _ _ _ _ _ | pool4Count _ | pool4ForeachSample _ _ _ _
  | pool4Taddr4FindPos _ _ _ _ | pool4ForeachTaddr4 _ _ _ _ | pool4GetNthTaddr _ _ _ _
  | clientExist _ | clientCount | clientForEachsample _ _ _ | clientForEach _ _ _
  | clientAddrExist _ | clientGetMaskDomain _ _ _ _ => rfl

theorem poolHistory_snoc (name : PoolName) (calls : List (Call Bool σ)) (c : Call Bool σ) :
    poolHistory name (calls ++ [c]) = poolHistory name calls ++ (c.pool4Op name).toList := by
  rw [poolHistory, List.filterMap_append]
  cases h : c.pool4Op name <;> simp [h, poolHistory]

theorem System.pool_runCalls (host : Host) (name : PoolName) (calls : List (Call Bool σ)) :
    (System.empty.runCalls host calls).2.pool name = poolAfter (poolHistory name calls) := by
  rw [System.runCalls_snd]
  induction calls using List.reverseRecOn with
  | nil => cases name <;> rfl
  | append_singleton calls c ih =>
    rw [run_append, run_cons, run_nil, System.pool_call, ih, poolHistory_snoc, poolAfter,
      poolAfter, run_append]
    cases c.pool4Op name <;> rfl

theorem mem_entryMasks_of_offered {cpool : Pool4} {first : Ipv4TransportAddr}
    (h : offered cpool first ≠ spoolMask) :
    ∃ x ∈ cpool, offered cpool first ∈ entryMasks x ∧
      bibdbContains4 (offered cpool first) = false := by
  rw [offered] at h ⊢
  split_ifs at h ⊢ with hfirst
  · obtain ⟨hpool, hfree⟩ := hfirst
    obtain ⟨x, hx, hmask⟩ := List.mem_flatMap.mp hpool
    exact ⟨x, hx, hmask, hfree⟩
  · exact absurd rfl h

/-- Along every sequence of calls of the interface, a request that is answered is answered
with the spool mask or with a mask the BIB has not, of an entry of `cpool` that is live in
the history; one that fails leaves `*result` alone. -/
theorem served_masks_live (host : Host) (calls : List (Call Bool σ)) (packet : Packet)
    (result : Ipv4TransportAddr) (m : Word) (kmalloc : Bool) (stack : ClientMaskDomain) :
    ∃ error mask, ((System.empty.runCalls host calls).2.call host
        (.getMask packet result m kmalloc stack : Call Bool σ)).1 = .taddr error mask ∧
      (error ≠ 0 → mask = result) ∧
      (error = 0 → mask = spoolMask ∨ bibdbContains4 mask = false ∧
        ∃ x, LiveTuple (poolHistory .cpool calls) x ∧ mask ∈ entryMasks x) := by
  let sys := (System.empty.runCalls host calls).2
  let call : MaskCall :=
    { packet := packet, cpool := sys.cpool, spool := sys.spool, result := result,
      masksPerClient := m, maskDomain := stack }
  refine ⟨(call.serve host kmalloc sys.client).1, (call.serve host kmalloc sys.client).2.2,
    rfl, ?_, ?_⟩
  · intro herror
    by_cases hpool : call.cpool = []
    · rw [serve_empty hpool] at herror
      exact absurd rfl herror
    · rw [serve_eq hpool] at herror ⊢
      split_ifs at herror ⊢
      · rfl
      · exact absurd rfl herror
  · intro hzero
    by_cases hpool : call.cpool = []
    · rw [serve_empty hpool]
      exact Or.inl rfl
    · rw [serve_eq hpool] at hzero ⊢
      split_ifs at hzero ⊢ with herror
      · exact absurd hzero herror
      · by_cases hspool : offered call.cpool (call.lookup host kmalloc sys.client).2.first =
            spoolMask
        · exact Or.inl hspool
        · obtain ⟨x, hx, hmask, hfree⟩ := mem_entryMasks_of_offered hspool
          have hlive : x ∈ poolAfter (poolHistory .cpool calls) := by
            rw [← System.pool_runCalls host]
            exact hx
          exact Or.inr ⟨hfree, x, (mem_poolAfter_iff _ x).mp hlive, hmask⟩

end MaskPool
