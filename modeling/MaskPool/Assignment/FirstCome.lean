import MaskPool.Assignment.Stickiness
import MaskPool.Clients.History
import MaskPool.Foundations.FirstCome
import MaskPool.Model.System
import MaskPool.Pool.Membership

/-!
# First come, first served

What the databases are for, without prefixes and counters: sources wait in a queue in the
order they came, the pool is one row of masks, and whoever is at place `p` of the queue is
offered the mask at `p * m` of the row. As long as only single hosts are added, the calls
on the databases do exactly this, whatever is added to and removed from the pool and the
queue in between.
-/

namespace MaskPool

open FirstCome Runs

variable {σ : Type}

structure Directory where
  entries : Pool4
  queue : List In6Addr
  deriving DecidableEq, Repr

namespace Directory

def empty : Directory := { entries := [], queue := [] }

def masks (dir : Directory) : List Ipv4TransportAddr := poolMasks dir.entries

def joined (dir : Directory) (saddr : In6Addr) (kmalloc : Bool) : List In6Addr :=
  if kmalloc then join saddr dir.queue else dir.queue

/-- The answer to one request. `stack` stands where no mask of the row does. -/
def serve (dir : Directory) (saddr : In6Addr) (result : Ipv4TransportAddr) (m : ℕ)
    (kmalloc : Bool) (stack : Ipv4TransportAddr) : ℤ × Ipv4TransportAddr :=
  let queue := dir.joined saddr kmalloc
  if dir.entries = [] then (0, spoolMask)
  else if dir.masks.length < queue.length then (1, result)
  else if saddr ∉ queue then (-ESRCH, result)
  else if m = 0 then (1, result)
  else (0, offered dir.entries (dir.masks[queue.idxOf saddr * m]?.getD stack))

/-- What a call does to the row and to the queue. -/
def step (dir : Directory) : Call Bool σ → Directory
  | .pool4Init .cpool => { dir with entries := [] }
  | .pool4Add .cpool mark proto addr range true =>
    { dir with entries :=
        dir.entries ++ [{ mark := mark, proto := proto, addr := addr, range := range }] }
  | .pool4Rm .cpool mark proto addr range =>
    { dir with entries := dir.entries.filter fun exist =>
        exist ≠ { mark := mark, proto := proto, addr := addr, range := range } }
  | .pool4Flush .cpool => { dir with entries := [] }
  | .getMask packet _ _ kmalloc _ =>
    if dir.entries = [] then dir
    else { dir with queue := dir.joined packet.hdr.saddr kmalloc }
  | .clientInit => { dir with queue := [] }
  | .clientAdd prefix6 true => { dir with queue := dir.queue ++ [prefix6.address] }
  | .clientDelete prefix6 =>
    if prefix6.len = 128 then { dir with queue := dir.queue.erase prefix6.address } else dir
  | .clientFlush => { dir with queue := [] }
  | _ => dir

def after (calls : List (Call Bool σ)) : Directory := run step empty calls

theorem after_append (calls more : List (Call Bool σ)) :
    after (calls ++ more) = run step (after calls) more := run_append step empty calls more

end Directory

def hosts (queue : List In6Addr) : Client := queue.map fullEntry

variable {host : Host} {queue : List In6Addr} {saddr : In6Addr}

theorem mem_hosts {p : Ipv6Prefix} : p ∈ hosts queue ↔ p.len = 128 ∧ p.address ∈ queue := by
  rw [hosts, List.mem_map]
  constructor
  · rintro ⟨a, ha, rfl⟩
    exact ⟨rfl, ha⟩
  · rintro ⟨hlen, ha⟩
    exact ⟨p.address, ha, by rw [fullEntry, ← hlen]⟩

theorem fullEntry_injective : Function.Injective fullEntry := by
  intro a b h
  exact congrArg Ipv6Prefix.address h

theorem hosts_delete (queue : List In6Addr) (p : Ipv6Prefix) :
    (clientDelete (hosts queue) p).2 =
      hosts (if p.len = 128 then queue.erase p.address else queue) := by
  rw [clientDelete_eq]
  by_cases hlen : p.len = 128
  · have hfull : p = fullEntry p.address := by rw [fullEntry, ← hlen]
    rw [if_pos hlen, hosts, hosts, List.map_erase fullEntry_injective, ← hfull]
  · rw [if_neg hlen]
    exact List.erase_of_not_mem fun hmem => hlen (mem_hosts.mp hmem).1

theorem clientAddrExist_hosts (host : Host) (queue : List In6Addr) (saddr : In6Addr) :
    clientAddrExist host (hosts queue) saddr = decide (saddr ∈ queue) := by
  rw [Bool.eq_iff_iff, clientAddrExist_iff, decide_eq_true_iff]
  constructor
  · rintro ⟨listed, hlisted, henum⟩
    obtain ⟨hlen, hmem⟩ := mem_hosts.mp hlisted
    rwa [← (enumerates_full hlen).mp henum]
  · intro hmem
    exact ⟨fullEntry saddr, List.mem_map_of_mem hmem, (enumerates_full rfl).mpr rfl⟩

theorem clientCount_hosts (host : Host) (queue : List In6Addr) :
    clientCount host (hosts queue) = BitVec.ofNat 32 queue.length := by
  induction queue using List.reverseRecOn with
  | nil => rfl
  | append_singleton queue a ih =>
    rw [hosts, List.map_append, List.map_singleton, clientCount_snoc, ← hosts, ih,
      getAddr6Count_full rfl, List.length_append, List.length_singleton, BitVec.ofNat_add]
    rfl

theorem position_hosts (host : Host) (queue : List In6Addr) (saddr : In6Addr) :
    position host (hosts queue) saddr =
      if saddr ∈ queue then some (queue.idxOf saddr) else none := by
  have hmatch : position host (hosts queue) saddr =
      queue.findIdx? fun a => decide (a = saddr) := by
    rw [position, hosts, List.findIdx?_map]
    apply FirstMatch.findIdx?_congr
    intro a _
    rw [Bool.eq_iff_iff, Function.comp_apply, prefixContains_full rfl, decide_eq_true_iff]
    rfl
  rw [hmatch]
  split_ifs with hmem
  · exact findIdx?_eq_idxOf hmem
  · rw [List.findIdx?_eq_none_iff]
    intro a ha
    exact decide_eq_false fun heq => hmem (heq ▸ ha)

theorem registered_hosts (host : Host) (kmalloc : Bool) (queue : List In6Addr)
    (saddr : In6Addr) :
    registered host kmalloc (hosts queue) saddr =
      hosts (if kmalloc then join saddr queue else queue) := by
  rw [registered, clientAddrExist_hosts]
  by_cases hmem : saddr ∈ queue
  · simp [hmem, join_of_mem hmem]
  · cases kmalloc with
    | false => simp
    | true => simp [hmem, join_of_notMem hmem, hosts, fullEntry]

structure Stands (sys : System) (dir : Directory) : Prop where
  client : sys.client = hosts dir.queue
  cpool : sys.cpool = dir.entries

/-- Nothing but single hosts and ordered ranges is added. -/
def Call.Plain : Call Bool σ → Prop
  | .pool4Add .cpool _ _ _ range _ => range.min ≤ range.max
  | .clientAdd prefix6 _ => prefix6.len = 128
  | _ => True

instance (c : Call Bool σ) : Decidable c.Plain := by
  unfold Call.Plain
  split <;> infer_instance

theorem lookup_hosts {cpool : Pool4} (hordered : OrderedRanges cpool)
    (hmasks : (poolMasks cpool).length < 2 ^ 32) (hqueue : queue.length < 2 ^ 32)
    (saddr : In6Addr) (stack : ClientMaskDomain) (m : Word) :
    clientGetMaskDomain host (hosts queue) cpool saddr stack m =
      if (poolMasks cpool).length < queue.length then (1, stack)
      else if saddr ∉ queue then (-ESRCH, stack)
      else if m = 0 then (1, stack)
      else (0, (poolMasks cpool)[queue.idxOf saddr * m.toNat]?.elim stack (domainAt m)) := by
  have hcapacity : WithinCapacity host (hosts queue) cpool ↔
      queue.length ≤ (poolMasks cpool).length := by
    rw [WithinCapacity, clientCount_hosts, pool4Count_eq hordered, BitVec.le_def,
      BitVec.toNat_ofNat, BitVec.toNat_ofNat, Nat.mod_eq_of_lt hqueue, Nat.mod_eq_of_lt hmasks]
  have hposition := position_hosts host queue saddr
  by_cases hcrowded : (poolMasks cpool).length < queue.length
  · rw [if_pos hcrowded]
    exact clientGetMaskDomain_crowded (hcapacity.not.mpr (by omega))
  · rw [if_neg hcrowded]
    have hfits := hcapacity.mpr (Nat.le_of_not_lt hcrowded)
    by_cases hmem : saddr ∈ queue
    · rw [if_pos hmem] at hposition
      rw [if_neg (not_not.mpr hmem)]
      by_cases hzero : m = 0
      · rw [if_pos hzero, hzero]
        exact clientGetMaskDomain_zero hfits hposition
      · have hplace := List.idxOf_lt_length_of_mem hmem
        rw [if_neg hzero, clientGetMaskDomain_listed hfits hposition hzero,
          domainStart_eq hzero hmasks.le (by omega)]
    · rw [if_neg hmem] at hposition
      rw [if_pos hmem]
      exact clientGetMaskDomain_unlisted hfits hposition

theorem Stands.serve {sys : System} {dir : Directory} (h : Stands sys dir)
    (hordered : OrderedRanges dir.entries) (hmasks : dir.masks.length < 2 ^ 32)
    (hqueue : dir.queue.length + 1 < 2 ^ 32) (packet : Packet) (result : Ipv4TransportAddr)
    (m : Word) (kmalloc : Bool) (stack : ClientMaskDomain) :
    (sys.call host (.getMask packet result m kmalloc stack : Call Bool σ)).1 =
      .taddr (dir.serve packet.hdr.saddr result m.toNat kmalloc stack.first).1
        (dir.serve packet.hdr.saddr result m.toNat kmalloc stack.first).2 := by
  let call : MaskCall :=
    { packet := packet, cpool := sys.cpool, spool := sys.spool, result := result,
      masksPerClient := m, maskDomain := stack }
  have hcall : (sys.call host (.getMask packet result m kmalloc stack : Call Bool σ)).1 =
      .taddr (call.serve host kmalloc sys.client).1 (call.serve host kmalloc sys.client).2.2 :=
    rfl
  have hlength : (dir.joined packet.hdr.saddr kmalloc).length < 2 ^ 32 := by
    have hjoin := length_join_le packet.hdr.saddr dir.queue
    unfold Directory.joined
    split_ifs <;> omega
  have hlookup : call.lookup host kmalloc sys.client =
      clientGetMaskDomain host (hosts (dir.joined packet.hdr.saddr kmalloc)) dir.entries
        packet.hdr.saddr stack m := by
    rw [MaskCall.lookup, h.client, registered_hosts]
    simp only [call, h.cpool]
    rfl
  rw [lookup_hosts hordered hmasks hlength] at hlookup
  rw [hcall, Directory.serve]
  by_cases hempty : dir.entries = []
  · have hpool : call.cpool = [] := h.cpool.trans hempty
    rw [serve_empty hpool, if_pos hempty]
  · have hpool : call.cpool ≠ [] := fun heq => hempty (h.cpool.symm.trans heq)
    rw [serve_eq hpool, if_neg hempty, Directory.masks]
    by_cases hcrowded :
        (poolMasks dir.entries).length < (dir.joined packet.hdr.saddr kmalloc).length
    · rw [if_pos hcrowded] at hlookup ⊢
      rw [hlookup]
      rfl
    rw [if_neg hcrowded] at hlookup ⊢
    by_cases hmem : packet.hdr.saddr ∈ dir.joined packet.hdr.saddr kmalloc
    · rw [if_neg (not_not.mpr hmem)] at hlookup ⊢
      by_cases hzero : m = 0
      · have hnat : m.toNat = 0 := congrArg BitVec.toNat hzero
        rw [if_pos hzero] at hlookup
        rw [if_pos hnat, hlookup]
        rfl
      · have hnat : m.toNat ≠ 0 := fun hnat => hzero (BitVec.eq_of_toNat_eq hnat)
        rw [if_neg hzero] at hlookup
        rw [if_neg hnat, hlookup, if_neg (not_not.mpr rfl)]
        simp only [call, h.cpool]
        cases (poolMasks dir.entries)[(dir.joined packet.hdr.saddr kmalloc).idxOf
          packet.hdr.saddr * m.toNat]? <;> rfl
    · rw [if_pos hmem] at hlookup ⊢
      rw [hlookup]
      rfl

theorem pool4Rm_eq_filter (pool4 : Pool4) (x : Pool4Entry) :
    (pool4Rm pool4 x.mark x.proto x.addr x.range).2 =
      pool4.filter fun exist => exist ≠ x := by
  apply List.filter_congr
  intro exist _
  rw [Bool.eq_iff_iff, Bool.not_eq_true', ← Bool.not_eq_true, pool4Equals_iff,
    decide_eq_true_iff]
  exact not_congr eq_comm

theorem Stands.getMask {sys : System} {dir : Directory} (h : Stands sys dir) (packet : Packet)
    (result : Ipv4TransportAddr) (m : Word) (kmalloc : Bool) (stack : ClientMaskDomain) :
    Stands (sys.call host (.getMask packet result m kmalloc stack : Call Bool σ)).2
      (dir.step (.getMask packet result m kmalloc stack : Call Bool σ)) := by
  let call : MaskCall :=
    { packet := packet, cpool := sys.cpool, spool := sys.spool, result := result,
      masksPerClient := m, maskDomain := stack }
  have hafter : (sys.call host (.getMask packet result m kmalloc stack : Call Bool σ)).2 =
      { sys with client := call.after host kmalloc sys.client } := rfl
  rw [hafter, after_eq, Directory.step]
  by_cases hempty : dir.entries = []
  · have hpool : call.cpool = [] := h.cpool.trans hempty
    rw [if_pos hpool, if_pos hempty]
    exact h
  · have hpool : call.cpool ≠ [] := fun heq => hempty (h.cpool.symm.trans heq)
    rw [if_neg hpool, if_neg hempty, h.client, registered_hosts]
    exact ⟨rfl, h.cpool⟩

theorem Stands.step {sys : System} {dir : Directory} (h : Stands sys dir)
    (c : Call Bool σ) (hplain : c.Plain) : Stands (sys.call host c).2 (dir.step c) := by
  obtain ⟨hclient, hcpool⟩ := id h
  cases c with
  | pool4Init name => cases name <;> exact ⟨hclient, by first | rfl | exact hcpool⟩
  | pool4Add name mark proto addr range kmalloc =>
    cases name with
    | spool => exact ⟨hclient, hcpool⟩
    | cpool =>
      cases kmalloc with
      | false => exact h
      | true => exact ⟨hclient, congrArg (· ++ [_]) hcpool⟩
  | pool4Rm name mark proto addr range =>
    cases name with
    | spool => exact ⟨hclient, hcpool⟩
    | cpool =>
      refine ⟨hclient, ?_⟩
      have hfilter := pool4Rm_eq_filter sys.cpool
        { mark := mark, proto := proto, addr := addr, range := range }
      rw [hcpool] at hfilter
      simpa [System.call, System.pool, System.setPool, Directory.step, hcpool] using hfilter
  | pool4Flush name => cases name <;> exact ⟨hclient, by first | rfl | exact hcpool⟩
  | getMask packet result m kmalloc stack => exact h.getMask packet result m kmalloc stack
  | clientInit => exact ⟨rfl, hcpool⟩
  | clientAdd prefix6 kmalloc =>
    cases kmalloc with
    | false => exact h
    | true =>
      have hfull : prefix6 = fullEntry prefix6.address := by rw [fullEntry, ← hplain]
      refine ⟨?_, hcpool⟩
      have hadd : sys.client ++ [prefix6] = hosts (dir.queue ++ [prefix6.address]) := by
        rw [hclient, hosts, hosts, List.map_append, List.map_singleton, ← hfull]
      exact hadd
  | clientDelete prefix6 =>
    have hdelete := hosts_delete dir.queue prefix6
    rw [← hclient] at hdelete
    rw [Directory.step]
    split_ifs at hdelete ⊢ <;> exact ⟨hdelete, hcpool⟩
  | clientFlush => exact ⟨rfl, hcpool⟩
  | pool4IsEmpty _ | pool4Contains _ _ _ _ _ | pool4Count _ | pool4ForeachSample _ _ _ _
  | pool4Taddr4FindPos _ _ _ _ | pool4ForeachTaddr4 _ _ _ _ | pool4GetNthTaddr _ _ _ _
  | clientExist _ | clientCount | clientForEachsample _ _ _ | clientForEach _ _ _
  | clientAddrExist _ | clientGetMaskDomain _ _ _ _ => exact h

def Call.portsAdded : Call Bool σ → ℕ
  | .pool4Add .cpool _ _ _ range true => range.max.toNat + 1 - range.min.toNat
  | _ => 0

/-- What a run can have made of the row and of the queue. -/
structure Directory.Bounded (dir : Directory) (ports calls : ℕ) : Prop where
  ordered : OrderedRanges dir.entries
  masks : dir.masks.length ≤ ports
  queue : dir.queue.length ≤ calls

theorem length_poolMasks_of_sublist {left pool4 : Pool4} (h : left.Sublist pool4) :
    (poolMasks left).length ≤ (poolMasks pool4).length :=
  (h.flatMap entryMasks).length_le

theorem Directory.Bounded.mono {dir : Directory} {ports calls ports' calls' : ℕ}
    (h : dir.Bounded ports calls) (hports : ports ≤ ports') (hcalls : calls ≤ calls') :
    dir.Bounded ports' calls' where
  ordered := h.ordered
  masks := h.masks.trans hports
  queue := h.queue.trans hcalls

theorem Directory.Bounded.step {dir : Directory} {ports calls : ℕ}
    (h : dir.Bounded ports calls) (c : Call Bool σ) (hplain : c.Plain) :
    (dir.step c).Bounded (ports + c.portsAdded) (calls + 1) := by
  have hsame : dir.Bounded (ports + c.portsAdded) (calls + 1) :=
    h.mono (Nat.le_add_right _ _) (Nat.le_succ _)
  have hnone : OrderedRanges [] := fun _ hmem => absurd hmem List.not_mem_nil
  cases c with
  | pool4Init name =>
    cases name with
    | spool => exact hsame
    | cpool => exact ⟨hnone, Nat.zero_le _, hsame.queue⟩
  | pool4Add name mark proto addr range kmalloc =>
    cases name with
    | spool => exact hsame
    | cpool =>
      cases kmalloc with
      | false => exact hsame
      | true =>
        refine ⟨?_, ?_, hsame.queue⟩
        · intro entry hentry
          rcases List.mem_append.mp hentry with hentry | hentry
          · exact h.ordered entry hentry
          · rw [List.mem_singleton.mp hentry]
            exact hplain
        · have hlength := h.masks
          simp only [Directory.masks, Directory.step, poolMasks, List.flatMap_append,
            List.flatMap_singleton, List.length_append, length_entryMasks,
            Call.portsAdded] at hlength ⊢
          omega
  | pool4Rm name mark proto addr range =>
    cases name with
    | spool => exact hsame
    | cpool =>
      refine ⟨?_, ?_, hsame.queue⟩
      · intro entry hentry
        exact h.ordered entry (List.mem_filter.mp hentry).1
      · exact (length_poolMasks_of_sublist List.filter_sublist).trans hsame.masks
  | pool4Flush name =>
    cases name with
    | spool => exact hsame
    | cpool => exact ⟨hnone, Nat.zero_le _, hsame.queue⟩
  | getMask packet result m kmalloc stack =>
    rw [Directory.step]
    split_ifs
    · exact hsame
    · refine ⟨h.ordered, hsame.masks, ?_⟩
      have hlength := h.queue
      have hjoin := length_join_le packet.hdr.saddr dir.queue
      dsimp only [Directory.joined]
      split_ifs <;> omega
  | clientInit => exact ⟨h.ordered, hsame.masks, Nat.zero_le _⟩
  | clientAdd prefix6 kmalloc =>
    cases kmalloc with
    | false => exact hsame
    | true =>
      refine ⟨h.ordered, hsame.masks, ?_⟩
      simpa [Directory.step] using h.queue
  | clientDelete prefix6 =>
    rw [Directory.step]
    split_ifs
    · exact ⟨h.ordered, hsame.masks, (List.length_erase_le).trans hsame.queue⟩
    · exact hsame
  | clientFlush => exact ⟨h.ordered, hsame.masks, Nat.zero_le _⟩
  | pool4IsEmpty _ | pool4Contains _ _ _ _ _ | pool4Count _ | pool4ForeachSample _ _ _ _
  | pool4Taddr4FindPos _ _ _ _ | pool4ForeachTaddr4 _ _ _ _ | pool4GetNthTaddr _ _ _ _
  | clientExist _ | clientCount | clientForEachsample _ _ _ | clientForEach _ _ _
  | clientAddrExist _ | clientGetMaskDomain _ _ _ _ => exact hsame

theorem System.runCalls_snd (host : Host) (sys : System) (calls : List (Call Bool σ)) :
    (sys.runCalls host calls).2 = run (fun sys c => (sys.call host c).2) sys calls := by
  induction calls generalizing sys with
  | nil => rfl
  | cons c calls ih =>
    rw [run_cons, ← ih]
    rfl

theorem stands_after (host : Host) (calls : List (Call Bool σ))
    (hplain : ∀ c ∈ calls, c.Plain) :
    Stands (System.empty.runCalls host calls).2 (Directory.after calls) ∧
      (Directory.after calls).Bounded (calls.map Call.portsAdded).sum calls.length := by
  induction calls using List.reverseRecOn with
  | nil =>
    exact ⟨⟨rfl, rfl⟩, ⟨fun _ hmem => absurd hmem List.not_mem_nil, Nat.le_refl 0,
      Nat.le_refl 0⟩⟩
  | append_singleton calls c ih =>
    obtain ⟨hstands, hbounded⟩ := ih fun c' hc' => hplain c' (List.mem_append_left _ hc')
    have hc : c.Plain := hplain c (by simp)
    rw [System.runCalls_snd] at hstands ⊢
    rw [Directory.after, run_append, run_append, List.map_append, List.sum_append,
      List.length_append]
    exact ⟨hstands.step c hc, hbounded.step c hc⟩

/-- Along every sequence of calls that add single hosts and ordered ranges, `get_mask`
answers as the queue and the row of masks say. -/
theorem calls_serve_first_come (host : Host) (calls : List (Call Bool σ))
    (hplain : ∀ c ∈ calls, c.Plain) (hports : (calls.map Call.portsAdded).sum < 2 ^ 32)
    (hlength : calls.length + 1 < 2 ^ 32) :
    let sys := (System.empty.runCalls host calls).2
    let dir := Directory.after calls
    (sys.client = hosts dir.queue ∧ sys.cpool = dir.entries) ∧
      ∀ packet result (m : Word) kmalloc (stack : ClientMaskDomain),
        (sys.call host (.getMask packet result m kmalloc stack : Call Bool σ)).1 =
          .taddr (dir.serve packet.hdr.saddr result m.toNat kmalloc stack.first).1
            (dir.serve packet.hdr.saddr result m.toNat kmalloc stack.first).2 := by
  obtain ⟨hstands, hbounded⟩ := stands_after host calls hplain
  refine ⟨⟨hstands.client, hstands.cpool⟩, ?_⟩
  intro packet result m kmalloc stack
  have hqueue := hbounded.queue
  exact hstands.serve hbounded.ordered (hbounded.masks.trans_lt hports) (by omega) packet result
    m kmalloc stack

def comingAndGoing : List (Call Bool Unit) :=
  [.pool4Add .cpool 1 6 9 { min := 4, max := 9 } true, .clientAdd (fullEntry ⟨0, 0, 0, 1⟩) true,
    .getMask { hdr := { saddr := ⟨0, 0, 0, 2⟩ } } spoolMask 2 true
      { first := spoolMask, step := 0, count := 0 },
    .clientAdd (fullEntry ⟨0, 0, 0, 3⟩) true]

theorem calls_serve_first_come_comingAndGoing :
    ((System.empty.runCalls Host.x86 comingAndGoing).2.call Host.x86
      (.getMask { hdr := { saddr := ⟨0, 0, 0, 3⟩ } } spoolMask 2 true
        { first := spoolMask, step := 0, count := 0 } : Call Bool Unit)).1 = .taddr 0 ⟨9, 8⟩ :=
  (calls_serve_first_come Host.x86 comingAndGoing (by decide) (by decide) (by decide)).2
    { hdr := { saddr := ⟨0, 0, 0, 3⟩ } } spoolMask 2 true
    { first := spoolMask, step := 0, count := 0 }

end MaskPool
