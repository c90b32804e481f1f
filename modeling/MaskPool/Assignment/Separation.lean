import MaskPool.Assignment.PoolChanges
import MaskPool.Pool.NthMask

/-!
# Masks of different hosts

A host gets at its masks in two ways: `get_mask` hands out the first of its block, and
`pool4_get_nth_taddr` any of them by its index. Either way they are masks of the block of its
place. Places are kept and blocks of different places are disjoint, so what one host was
handed out is not handed to another one later, however much has been added since.
-/

namespace MaskPool

open Blocks BlockScan FirstCome Runs

variable {σ : Type} {host : Host}

/-- The functions hand out `t` to the source `saddr`: `get_mask` as a mask of the pool, or
`pool4_get_nth_taddr` as one of the domain the source is looked up with. -/
def HandsOut (host : Host) (sys : System) (m : Word) (saddr : In6Addr)
    (t : Ipv4TransportAddr) : Prop :=
  (t ≠ spoolMask ∧ ∃ result kmalloc stack,
    (sys.call host (.getMask { hdr := { saddr := saddr } } result m kmalloc stack :
      Call Bool Unit)).1 = .taddr 0 t) ∨
  ∃ stack domain n result,
    (sys.call host (.clientGetMaskDomain .cpool saddr stack m : Call Bool Unit)).1 =
        .domain 0 domain ∧
      (sys.call host (.pool4GetNthTaddr .cpool domain n result : Call Bool Unit)).1 = .taddr 0 t

def Directory.place (dir : Directory) (saddr : In6Addr) : ℕ :=
  (join saddr dir.queue).idxOf saddr

theorem Directory.place_eq {dir : Directory} {saddr : In6Addr} (h : saddr ∈ dir.queue) :
    dir.place saddr = dir.queue.idxOf saddr := by
  rw [place, join_of_mem h]

theorem Directory.joined_of_mem {dir : Directory} {saddr : In6Addr} {kmalloc : Bool}
    (h : saddr ∈ dir.joined saddr kmalloc) : dir.joined saddr kmalloc = join saddr dir.queue := by
  cases kmalloc with
  | true => rfl
  | false => exact (join_of_mem h).symm

/-- What the queue and the row answer with is a mask of the block of the host's place. -/
theorem Directory.mem_block_of_serve {dir : Directory} {saddr : In6Addr} {m : ℕ} (hm : m ≠ 0)
    (hstart : dir.place saddr * m < dir.masks.length) {result : Ipv4TransportAddr}
    {kmalloc : Bool} {stack t : Ipv4TransportAddr}
    (hzero : (dir.serve saddr result m kmalloc stack).1 = 0)
    (ht : (dir.serve saddr result m kmalloc stack).2 = t) (hspool : t ≠ spoolMask) :
    t ∈ block m (dir.place saddr) dir.masks := by
  rw [serve] at hzero ht
  split_ifs at hzero ht with hpool hcrowded hmem
  · exact absurd ht.symm hspool
  · exact absurd hzero Int.one_ne_zero
  · rw [joined_of_mem hmem] at ht
    have hx := List.getElem?_eq_getElem hstart
    have hrow : dir.masks[dir.place saddr * m] ∈ poolMasks dir.entries := List.getElem_mem hstart
    unfold place at hx hrow
    dsimp only at ht
    rw [hx, Option.getD_some, offered_of_mem hrow] at ht
    split_ifs at ht
    · exact absurd ht.symm hspool
    · rw [← ht]
      exact getElem?_mem_block (Nat.pos_of_ne_zero hm) hx
  · exact absurd hzero (by decide : (-ESRCH : ℤ) ≠ 0)

theorem mem_block_of_lookup {dir : Directory} (hordered : OrderedRanges dir.entries)
    (hdistinct : dir.masks.Nodup) (hmasks : dir.masks.length < 2 ^ 32)
    (hqueue : dir.queue.length < 2 ^ 32) {saddr : In6Addr} {m : Word} (hm : m ≠ 0)
    (hstart : dir.place saddr * m.toNat < dir.masks.length) {stack domain : ClientMaskDomain}
    (hlookup : clientGetMaskDomain host (hosts dir.queue) dir.entries saddr stack m = (0, domain))
    {n : Word} {result t : Ipv4TransportAddr}
    (hnth : pool4GetNthTaddr dir.entries domain n result = some (0, t)) :
    t ∈ block m.toNat (dir.place saddr) dir.masks := by
  rw [lookup_hosts hordered hmasks hqueue] at hlookup
  split_ifs at hlookup with hcrowded hmem
  · cases congrArg Prod.fst hlookup
  · rw [Directory.place_eq hmem] at hstart ⊢
    have hx := List.getElem?_eq_getElem hstart
    have hdomain : domainAt m dir.masks[dir.queue.idxOf saddr * m.toNat] = domain := by
      have hright := congrArg Prod.snd hlookup
      rwa [show (poolMasks dir.entries)[_]? = _ from hx] at hright
    rw [← hdomain, pool4GetNthTaddr_eq hm hdistinct hx] at hnth
    have hanswer := Option.some.inj hnth
    split_ifs at hanswer with hends
    · cases congrArg Prod.fst hanswer
    · cases hget : (poolMasks dir.entries)[dir.queue.idxOf saddr * m.toNat +
        n.toNat % m.toNat]? with
      | none =>
        rw [hget] at hanswer
        cases congrArg Prod.fst hanswer
      | some y =>
        rw [hget] at hanswer
        have hy : y = t := congrArg Prod.snd hanswer
        exact mem_block.mpr ⟨_, Nat.mod_lt _ (toNat_pos hm), hy ▸ hget⟩
  · cases congrArg Prod.fst hlookup

theorem Answer.ofOption_taddr {found : Option (ℤ × Ipv4TransportAddr)} {error : ℤ}
    {t : Ipv4TransportAddr} (h : (Answer.ofOption .taddr found : Answer σ) = .taddr error t) :
    found = some (error, t) := by
  cases found with
  | none => cases h
  | some answer =>
    obtain ⟨herror, ht⟩ := Answer.taddr.inj h
    exact congrArg some (Prod.ext herror ht)

theorem Stands.mem_block {sys : System} {dir : Directory} (h : Stands sys dir)
    (hordered : OrderedRanges dir.entries) (hdistinct : dir.masks.Nodup)
    (hmasks : dir.masks.length < 2 ^ 32) (hqueue : dir.queue.length + 1 < 2 ^ 32)
    {saddr : In6Addr} {m : Word} (hm : m ≠ 0)
    (hstart : dir.place saddr * m.toNat < dir.masks.length) {t : Ipv4TransportAddr}
    (ht : HandsOut host sys m saddr t) : t ∈ block m.toNat (dir.place saddr) dir.masks := by
  have hnat : m.toNat ≠ 0 := fun hzero => hm (BitVec.eq_of_toNat_eq hzero)
  rcases ht with ⟨hspool, result, kmalloc, stack, hserved⟩ |
    ⟨stack, domain, n, result, hlookup, hnth⟩
  · rw [h.serve hordered hmasks hqueue] at hserved
    obtain ⟨hzero, hmask⟩ := Answer.taddr.inj hserved
    exact Directory.mem_block_of_serve hnat hstart hzero hmask hspool
  · have hfound : clientGetMaskDomain host (hosts dir.queue) dir.entries saddr stack m =
        (0, domain) := by
      rw [← h.client, ← h.cpool]
      obtain ⟨hzero, hdomain⟩ := Answer.domain.inj hlookup
      exact Prod.ext hzero hdomain
    have hmask : pool4GetNthTaddr dir.entries domain n result = some (0, t) := by
      rw [← h.cpool]
      exact Answer.ofOption_taddr hnth
    exact mem_block_of_lookup hordered hdistinct hmasks (by omega) hm hstart hfound hmask

/-- A mask one host was handed out is not handed to another one, then or later, while
nothing is taken out of the pool and nobody out of the queue: whoever joins in between, and
whatever is added. -/
theorem masks_stay_apart (host : Host) (calls more : List (Call Bool σ))
    (hplain : ∀ c ∈ calls ++ more, c.Plain) (hgrowing : ∀ c ∈ more, c.growing)
    (hports : ((calls ++ more).map Call.portsAdded).sum < 2 ^ 32)
    (hlength : (calls ++ more).length + 1 < 2 ^ 32) (m : Word) (hm : m ≠ 0) (a b : In6Addr)
    (hne : a ≠ b) (ha : a ∈ (Directory.after calls).queue)
    (hdistinct : (Directory.after (calls ++ more)).masks.Nodup)
    (hblock : (Directory.after calls).place a * m.toNat < (Directory.after calls).masks.length)
    (hblock' : (Directory.after (calls ++ more)).place b * m.toNat <
      (Directory.after (calls ++ more)).masks.length) (t : Ipv4TransportAddr)
    (ht : HandsOut host (System.empty.runCalls host calls).2 m a t) :
    ¬HandsOut host (System.empty.runCalls host (calls ++ more)).2 m b t := by
  intro ht'
  obtain ⟨hstands, hbounded⟩ :=
    stands_after host calls fun c hc => hplain c (List.mem_append_left _ hc)
  obtain ⟨hlater, hbounded'⟩ := stands_after host (calls ++ more) hplain
  obtain ⟨hentries, hqueue⟩ := Directory.after_growing calls hgrowing
  have hrow : (Directory.after calls).masks <+: (Directory.after (calls ++ more)).masks :=
    poolMasks_prefix hentries
  have hmasks := hbounded'.masks.trans_lt hports
  have hcalls := hbounded'.queue
  have hgrows := hqueue.length_le
  have hold := hstands.mem_block hbounded.ordered (hdistinct.sublist hrow.sublist)
    (hrow.length_le.trans_lt hmasks) (by omega) hm hblock ht
  have hnew := hlater.mem_block hbounded'.ordered hdistinct hmasks (by omega) hm hblock' ht'
  have hjoined := hqueue.trans (prefix_join b (Directory.after (calls ++ more)).queue)
  have hplaces : (Directory.after calls).place a ≠ (Directory.after (calls ++ more)).place b := by
    rw [Directory.place_eq ha, ← idxOf_of_prefix hjoined ha, Directory.place]
    exact fun heq => hne ((List.idxOf_inj (hjoined.subset ha)).mp heq)
  exact block_disjoint hdistinct hplaces (mem_block_extended hrow hold) hnew

theorem masks_stay_apart_comingAndGoing :
    ¬HandsOut Host.x86 (System.empty.runCalls Host.x86 (comingAndGoing ++
        [.pool4Add .cpool 2 17 8 { min := 7, max := 9 } true,
          .clientAdd (fullEntry ⟨0, 0, 0, 4⟩) true])).2
      2 ⟨0, 0, 0, 4⟩ ⟨9, 8⟩ :=
  masks_stay_apart Host.x86 comingAndGoing
    [.pool4Add .cpool 2 17 8 { min := 7, max := 9 } true,
      .clientAdd (fullEntry ⟨0, 0, 0, 4⟩) true]
    (by decide) (by decide) (by decide) (by decide) 2 (by decide) ⟨0, 0, 0, 3⟩ ⟨0, 0, 0, 4⟩
    (by decide) (by decide) (by decide) (by decide) (by decide) ⟨9, 8⟩
    (Or.inl ⟨by decide, spoolMask, true, { first := spoolMask, step := 0, count := 0 },
      by decide⟩)

end MaskPool
