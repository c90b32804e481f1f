import MaskPool.Harness.Filling
import MaskPool.Iteration.Samples
import MaskPool.Iteration.Turns

/-!
# What a passing self-test says

After a traversal a slot has seen what it expects exactly when the traversal visited it. So
the `match_` functions ask whether every expected element was visited, or is zero. They
do not see order, repetitions or elements nobody expects.
-/

namespace MaskPool.Harness

open Cycles Paging Traversal

variable {α κ : Type} [DecidableEq κ] {fields : Fields α κ}

def seenAfter (fields : Fields α κ) (xs : List α) (slot : Slot α) : α :=
  xs.foldl (fun seen x =>
    if fields.key x = fields.key slot.exp then fields.store x seen else seen) slot.seen

theorem seenAfter_snoc (xs : List α) (x : α) (slot : Slot α) :
    seenAfter fields (xs ++ [x]) slot =
      if fields.key x = fields.key slot.exp then fields.store x (seenAfter fields xs slot)
      else seenAfter fields xs slot := by
  rw [seenAfter, List.foldl_append, List.foldl_cons, List.foldl_nil]
  rfl

theorem key_seenAfter (xs : List α) (slot : Slot α) :
    fields.key (seenAfter fields xs slot) =
      if ∃ x ∈ xs, fields.key x = fields.key slot.exp then fields.key slot.exp
      else fields.key slot.seen := by
  induction xs using List.reverseRecOn with
  | nil => simp [seenAfter]
  | append_singleton xs x ih =>
    simp only [seenAfter_snoc, List.mem_append, List.mem_singleton, or_and_right, exists_or,
      exists_eq_left]
    by_cases hx : fields.key x = fields.key slot.exp
    · rw [if_pos hx, fields.key_store, if_pos (Or.inr hx), hx]
    · simp only [hx, if_false, ih, or_false]

theorem foldl_recordElement (xs : List α) (s : Recorded α) :
    xs.foldl (fun s x => recordElement fields x s) s =
      { slots := s.slots.map fun slot => { slot with seen := seenAfter fields xs slot }
        arg := s.arg.map (· + BitVec.ofNat 32 xs.length) } := by
  induction xs using List.reverseRecOn with
  | nil => cases s with | mk slots arg => cases arg <;> simp [seenAfter]
  | append_singleton xs x ih =>
    rw [List.foldl_append, List.foldl_cons, List.foldl_nil, ih, recordElement]
    have hcount : BitVec.ofNat 32 (xs ++ [x]).length = BitVec.ofNat 32 xs.length + 1 := by
      rw [List.length_append, List.length_singleton, BitVec.ofNat_add]
      rfl
    congr 1
    · rw [List.map_map]
      apply List.map_congr_left
      intro slot _
      simp only [Function.comp_apply, seenAfter_snoc]
      split_ifs <;> rfl
    · rw [hcount]
      cases s.arg <;> simp [BitVec.add_assoc]

theorem matchSlots_recorded (zero : α) (exps xs : List α) (arg : Option Word) :
    matchSlots fields (xs.foldl (fun s x => recordElement fields x s)
        { slots := expecting zero exps, arg := arg }).slots = true ↔
      ∀ exp ∈ exps, fields.key exp = fields.key zero ∨ ∃ x ∈ xs, fields.key x = fields.key exp := by
  rw [foldl_recordElement, matchSlots, expecting, List.map_map, List.all_map, List.all_eq_true]
  apply forall₂_congr
  intro exp _
  rw [Function.comp_apply, beq_iff_eq]
  dsimp only [Function.comp_apply]
  rw [key_seenAfter]
  split_ifs with hvisited
  · exact iff_of_true rfl (Or.inr hvisited)
  · exact (or_iff_left hvisited).symm

theorem foreachSample_recorded [DecidableEq α] {equals : α → α → Bool}
    (hequals : ∀ x y, equals x y = true ↔ x = y) {xs rest : List α} {offset : Option α}
    (hrest : behind xs offset = some rest) (s : Recorded α) :
    foreachSample equals (fun x s => (0, recordElement fields x s)) xs offset 0 s =
      (0, rest.foldl (fun s x => recordElement fields x s) s) := by
  have hnever (x : α) (s : Recorded α) : ((0 : ℤ), recordElement fields x s) =
      (if (fun _ => false) x then 1 else 0, recordElement fields x s) := rfl
  have hany : rest.any (fun _ => false) = false :=
    List.any_eq_false.mpr fun _ _ => Bool.false_ne_true
  rw [foreachSample_eq hequals, hrest, Option.elim_some, untilStop_upTo hnever,
    upTo_eq_self hany, hany]
  rfl

/-- The self-tests of both sample iterators, from a listed offset or `NULL`: they end with
0, count the entries behind the offset, and pass exactly when each expected entry has, in
the fields compared, an entry behind the offset or is all zero. -/
theorem samples_verdict {pool4 rest : Pool4} {client later : Client}
    {offset : Option Pool4Entry} {start : Option Ipv6Prefix}
    (hrest : behind pool4 offset = some rest) (hlater : behind client start = some later)
    (nodes : List Pool4Entry) (prefixes : List Ipv6Prefix) (arg : Option Word) :
    (∃ s, pool4ForeachSample pool4 callb { slots := expecting zeroEntry nodes, arg := arg }
          offset = (0, s) ∧
        s.arg = arg.map (· + BitVec.ofNat 32 rest.length) ∧
        (matchPool4Nodes s.slots = true ↔ ∀ exp ∈ nodes,
          (exp.addr = 0 ∧ exp.range = { min := 0, max := 0 }) ∨
            ∃ x ∈ rest, x.addr = exp.addr ∧ x.range = exp.range)) ∧
      ∃ s, clientForEachsample client cb { slots := expecting zeroPrefix prefixes, arg := arg }
          start = (0, s) ∧
        s.arg = arg.map (· + BitVec.ofNat 32 later.length) ∧
        (matchClientNodes s.slots = true ↔ ∀ exp ∈ prefixes, exp = zeroPrefix ∨ exp ∈ later) := by
  constructor
  · refine ⟨_, foreachSample_recorded (fun _ _ => pool4Equals_iff) hrest _, ?_, ?_⟩
    · rw [foldl_recordElement]
    · rw [matchPool4Nodes, matchSlots_recorded]
      simp [nodeFields, zeroEntry]
  · refine ⟨_, foreachSample_recorded (fun _ _ => prefix6Equals_iff) hlater _, ?_, ?_⟩
    · rw [foldl_recordElement]
    · rw [matchClientNodes, matchSlots_recorded]
      simp [prefixFields]

theorem samples_verdict_twoEach :
    ∃ s, pool4ForeachSample [⟨1, 6, 9, ⟨5, 6⟩⟩, ⟨1, 6, 9, ⟨8, 8⟩⟩] callb
        { slots := expecting zeroEntry [⟨2, 17, 9, ⟨8, 8⟩⟩, zeroEntry], arg := some 1 }
        (some ⟨1, 6, 9, ⟨5, 6⟩⟩) = (0, s) ∧ s.arg = some 2 ∧ matchPool4Nodes s.slots = true := by
  obtain ⟨⟨s, hrun, harg, hmatch⟩, -⟩ := samples_verdict
    (by decide : behind [⟨1, 6, 9, ⟨5, 6⟩⟩, ⟨1, 6, 9, ⟨8, 8⟩⟩] (some ⟨1, 6, 9, ⟨5, 6⟩⟩) =
      some [⟨1, 6, 9, ⟨8, 8⟩⟩])
    (by decide : behind [(⟨zeroAddr, 128⟩ : Ipv6Prefix)] none = some [⟨zeroAddr, 128⟩])
    [⟨2, 17, 9, ⟨8, 8⟩⟩, zeroEntry] [] (some 1)
  exact ⟨s, hrun, harg, hmatch.mpr (by decide)⟩

/-- The self-test of `pool4_foreach_taddr4` on cleared arrays: it expects the first mask of
the pool only, so it passes exactly when that mask is visited before or with the first
port 64 from the offset on, or is zero. -/
theorem masks_verdict {pool4 : Pool4} {first : Pool4Mask} (hordered : OrderedRanges pool4)
    (hfirst : (poolTuples pool4).head? = some first)
    (hsmall : (poolTuples pool4).length < 2 ^ 32) (fuel : ℕ) (arg : Option Word)
    (offset : Word) :
    ∃ slots code s,
      fillExpMasks (fuel + 1) pool4 (expecting zeroMask (List.replicate 75 zeroMask)) =
        .filled slots ∧
      pool4ForeachTaddr4 pool4 cback { slots := slots, arg := arg } offset = some (code, s) ∧
      (code = 1 ↔ ∃ mask ∈ poolTuples pool4, mask.port = 64) ∧
      (matchMasks s.slots = true ↔ first.addr = 0 ∧ first.port = 0 ∨
        ∃ mask ∈ upTo (fun mask => mask.port == 64) ((poolTuples pool4).rotate offset.toNat),
          mask.addr = first.addr ∧ mask.port = first.port) := by
  obtain ⟨masks, hmasks⟩ := List.head?_eq_some_iff.mp hfirst
  have hpos : 0 < (poolTuples pool4).length := by simp [hmasks]
  have hoffset : BitVec.ofNat 32 offset.toNat = offset := by simp
  have hcback (mask : Pool4Mask) (s : Recorded Pool4Mask) :
      cback mask s = (if mask.port == 64 then 1 else 0, recordElement maskFields mask s) := by
    simp [cback]
  let exps := maskFields.store first zeroMask :: List.replicate 74 zeroMask
  have hfill : fillExpMasks (fuel + 1) pool4 (expecting zeroMask (List.replicate 75 zeroMask)) =
      .filled (expecting zeroMask exps) := by
    rw [fillExpMasks_cons hmasks fuel (by decide)]
    rfl
  have hrun := pool4ForeachTaddr4_rotate hordered hpos hsmall cback
    { slots := expecting zeroMask exps, arg := arg } offset.isLt
  rw [hoffset, untilStop_upTo hcback, any_rotate] at hrun
  refine ⟨_, _, _, hfill, hrun, ?_, ?_⟩
  · simp
  · rw [matchMasks, matchSlots_recorded, List.forall_mem_cons]
    have hzeros : ∀ exp ∈ List.replicate 74 zeroMask,
        maskFields.key exp = maskFields.key zeroMask ∨
          ∃ mask ∈ upTo (fun mask => mask.port == 64) ((poolTuples pool4).rotate offset.toNat),
            maskFields.key mask = maskFields.key exp := by
      intro exp hexp
      rw [List.eq_of_mem_replicate hexp]
      exact Or.inl rfl
    rw [and_iff_left hzeros, maskFields.key_store]
    simp [maskFields, zeroMask]

theorem masks_verdict_stopped :
    ∃ slots code s,
      fillExpMasks 1 [⟨1, 6, 9, ⟨62, 64⟩⟩] (expecting zeroMask (List.replicate 75 zeroMask)) =
        .filled slots ∧
      pool4ForeachTaddr4 [⟨1, 6, 9, ⟨62, 64⟩⟩] cback { slots := slots, arg := none } 2 =
        some (code, s) ∧ code = 1 ∧ matchMasks s.slots = false := by
  obtain ⟨slots, code, s, hfill, hrun, hcode, hmatch⟩ :=
    masks_verdict (by decide : OrderedRanges [⟨1, 6, 9, ⟨62, 64⟩⟩])
      (rfl : _ = some (⟨1, 6, 9, 62⟩ : Pool4Mask)) (by decide) 0 none 2
  refine ⟨slots, code, s, hfill, hrun, hcode.mpr (by decide), ?_⟩
  rw [← Bool.not_eq_true, hmatch]
  decide

theorem seen_address (xs : List In6Addr) (exp : In6Addr) :
    seenAfter addressFields xs { exp := exp, seen := zeroAddr } =
      if exp ∈ xs then exp else zeroAddr := by
  have hkey : addressFields.key (seenAfter addressFields xs { exp := exp, seen := zeroAddr }) =
    _ := key_seenAfter xs _
  simpa [addressFields] using hkey

theorem matchIn6Addrs_recorded (xs : List In6Addr) (first : In6Addr) (exps : List In6Addr)
    (arg : Option Word) :
    matchIn6Addrs (xs.foldl (fun s x => recordElement addressFields x s)
        { slots := expecting zeroAddr (first :: exps), arg := arg }).slots = true ↔
      ∀ exp ∈ first :: exps, exp.word0 = (if first ∈ xs then first.word0 else 0) ∧
        (exp ∈ xs ∨ exp.word1 = 0 ∧ exp.word2 = 0 ∧ exp.word3 = 0) := by
  have hslots : (xs.foldl (fun s x => recordElement addressFields x s)
      { slots := expecting zeroAddr (first :: exps), arg := arg }).slots =
      (first :: exps).map fun exp =>
        { exp := exp, seen := if exp ∈ xs then exp else zeroAddr } := by
    rw [foldl_recordElement, expecting, List.map_map]
    apply List.map_congr_left
    intro exp _
    rw [Function.comp_apply, seen_address]
  have hword0 : (if first ∈ xs then first else zeroAddr).word0 =
      if first ∈ xs then first.word0 else 0 := by
    split_ifs <;> rfl
  rw [hslots, matchIn6Addrs, List.all_map, List.all_eq_true]
  apply forall₂_congr
  intro exp _
  rw [List.map_cons, List.head?_cons]
  simp only [Function.comp_apply, Option.all_some, hword0, Bool.and_eq_true, beq_iff_eq, and_assoc]
  by_cases hexp : exp ∈ xs
  · simp [hexp]
  · simp [hexp, zeroAddr]

/-- The self-test of `client_for_each` on cleared arrays. The first words of all expected
addresses are compared with what slot 0 has seen: its own first word if it was visited and
zero otherwise. -/
theorem addresses_verdict (host : Host) {client : Client} (hlen : LengthsWithin 97 128 client)
    (hclient : 0 < addressTotal client) (hsmall : addressTotal client < 2 ^ 31)
    (first : In6Addr) (exps : List In6Addr) (arg : Option Word) (offset : Word) :
    let visited := upTo (endsIn14 host) ((clientSequence host client).rotate offset.toNat)
    ∃ code s,
      clientForEach host client (callback host)
        { slots := expecting zeroAddr (first :: exps), arg := arg } offset = some (code, s) ∧
      (code = 1 ↔ ∃ addr ∈ clientSequence host client, endsIn14 host addr = true) ∧
      (matchIn6Addrs s.slots = true ↔ ∀ exp ∈ first :: exps,
        exp.word0 = (if first ∈ visited then first.word0 else 0) ∧
          (exp ∈ visited ∨ exp.word1 = 0 ∧ exp.word2 = 0 ∧ exp.word3 = 0)) := by
  have hoffset : BitVec.ofNat 32 offset.toNat = offset := by simp
  have hcallback (addr : In6Addr) (s : Recorded In6Addr) : callback host addr s =
      (if endsIn14 host addr then 1 else 0, recordElement addressFields addr s) := by
    simp [callback, endsIn14]
  have hrun := clientForEach_rotate host hlen hclient hsmall (callback host)
    { slots := expecting zeroAddr (first :: exps), arg := arg } offset.isLt
  rw [hoffset, untilStop_upTo hcallback, any_rotate] at hrun
  refine ⟨_, _, hrun, ?_, matchIn6Addrs_recorded _ first exps arg⟩
  simp

theorem addresses_verdict_oneAddress :
    ∃ code s, clientForEach Host.x86 [⟨⟨1, 0, 0, 5⟩, 128⟩] (callback Host.x86)
        { slots := expecting zeroAddr [⟨1, 0, 0, 5⟩, zeroAddr], arg := none } 0 = some (code, s) ∧
      matchIn6Addrs s.slots = false := by
  obtain ⟨code, s, hrun, -, hmatch⟩ := addresses_verdict Host.x86
    (by decide : LengthsWithin 97 128 [⟨⟨1, 0, 0, 5⟩, 128⟩]) (by decide) (by decide)
    ⟨1, 0, 0, 5⟩ [zeroAddr] none 0
  refine ⟨code, s, hrun, ?_⟩
  rw [← Bool.not_eq_true, hmatch]
  decide

end MaskPool.Harness
