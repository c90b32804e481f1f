import MaskPool.Assignment.FirstCome
import MaskPool.Heap.Lifecycle

/-!
# The service on linked memory

The two refinements one after the other: the calls on memory answer as the calls on lists,
and `get_mask` on lists answers as the queue and the row of masks.
-/

namespace MaskPool

open Rings RingStore

variable {σ : Type}

theorem System.length_runCalls (host : Host) (sys : System) (calls : List (Call Bool σ)) :
    (sys.runCalls host calls).1.length = calls.length := by
  induction calls generalizing sys with
  | nil => rfl
  | cons c calls ih => simp [System.runCalls, ih]

theorem System.answers_initCalls (host : Host) (calls more : List (Call Bool σ))
    (c : Call Bool σ) :
    (System.empty.runCalls host (initCalls ++ (calls ++ c :: more))).1 =
      ([.code 0, .code 0, .code 0] ++ (System.empty.runCalls host calls).1) ++
        ((System.empty.runCalls host calls).2.call host c).1 ::
          (((System.empty.runCalls host calls).2.call host c).2.runCalls host more).1 := by
  rw [List.append_assoc, System.runCalls_append, System.runCalls_append]
  rfl

namespace Heap

variable {Ptr : Type} [DecidableEq Ptr] {ops : Ops.{0, 0} Ptr} {laws : Laws ops}
  {heads : Database → Ptr} {mem : Memory ops Object} {fuel : ℕ} {host : Host}

/-- What `get_mask` answers on linked memory, at any place of any sequence of calls that
adds single hosts and ordered ranges before it, is what the queue and the row of masks say
at that place. -/
theorem memory_serves_first_come (laws : Laws ops) (hheads : Function.Injective heads)
    (hbare : Bare heads mem) (calls more : List (Call (Option Ptr) σ)) (packet : Packet)
    (result : Ipv4TransportAddr) (m : Word) (kmalloc : Option Ptr) (stack : ClientMaskDomain)
    (hfuel : calls.length + 1 + more.length < fuel)
    (hfresh : fresh host heads fuel mem
      (initCalls ++ (calls ++ .getMask packet result m kmalloc stack :: more)))
    (hplain : ∀ c ∈ calls.map (Call.map Option.isSome), c.Plain)
    (hports : ((calls.map (Call.map Option.isSome)).map Call.portsAdded).sum < 2 ^ 32)
    (hlength : calls.length + 1 < 2 ^ 32) :
    let answer := (Directory.after (calls.map (Call.map Option.isSome))).serve
      packet.hdr.saddr result m.toNat kmalloc.isSome stack.first
    ∃ before behind mem', runCalls host heads fuel mem
        (initCalls ++ (calls ++ .getMask packet result m kmalloc stack :: more)) =
          .ok (before ++ .taddr answer.1 answer.2 :: behind, mem') ∧
      before.length = 3 + calls.length := by
  obtain ⟨mem', hrun, -⟩ := runCalls_initCalls laws hheads hbare
    (calls ++ .getMask packet result m kmalloc stack :: more)
    (by simp only [List.length_append, List.length_cons]; omega) hfresh
  obtain ⟨hstands, hbounded⟩ := stands_after host _ hplain
  have hqueue := hbounded.queue
  rw [List.length_map] at hqueue
  rw [List.map_append, List.map_cons, System.answers_initCalls, Call.map,
    hstands.serve hbounded.ordered (hbounded.masks.trans_lt hports) (by omega)] at hrun
  refine ⟨_, _, mem', hrun, ?_⟩
  simp only [List.length_append, System.length_runCalls, List.length_map]
  rfl

def waitingCalls : List (Call (Option ℕ) Unit) :=
  [.pool4Add .cpool 1 1 9 { min := 4, max := 9 } (some 7),
    .getMask { hdr := { saddr := ⟨0, 0, 0, 1⟩ } } spoolMask 2 (some 8)
      { first := spoolMask, step := 0, count := 0 },
    .getMask { hdr := { saddr := ⟨0, 0, 0, 2⟩ } } spoolMask 2 none
      { first := spoolMask, step := 0, count := 0 },
    .clientDelete (fullEntry ⟨0, 0, 0, 1⟩)]

theorem memory_serves_first_come_waitingCalls :
    ∃ before behind mem', runCalls Host.x86 smallHeads 9 smallMemory
        (initCalls ++ (waitingCalls ++ .getMask { hdr := { saddr := ⟨0, 0, 0, 2⟩ } } spoolMask 2
          (some 8) { first := spoolMask, step := 0, count := 0 } :: [.clientFlush])) =
          .ok (before ++ .taddr 0 ⟨9, 4⟩ :: behind, mem') ∧
      before.length = 7 :=
  memory_serves_first_come (Links.laws 100) smallHeads_injective smallMemory_bare waitingCalls
    [.clientFlush] { hdr := { saddr := ⟨0, 0, 0, 2⟩ } } spoolMask 2 (some 8)
    { first := spoolMask, step := 0, count := 0 } (by decide) (by decide) (by decide)
    (by decide) (by decide)

end Heap

end MaskPool
