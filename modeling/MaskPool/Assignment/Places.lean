import MaskPool.Assignment.FirstCome

/-!
# Places in the queue

The mask of a host is a matter of its place. Places outlast everything but changes of the
row and deletions: whoever waits is served the same mask again and again while the queue
fits the row, and once the queue has outgrown the row nobody is served any more. A deletion
moves everybody behind, established sessions or not.
-/

namespace MaskPool

open FirstCome Runs

variable {σ : Type}

theorem Directory.serve_waiting {dir : Directory} {saddr : In6Addr}
    (hmem : saddr ∈ dir.queue) (hfits : dir.queue.length ≤ dir.masks.length)
    (result : Ipv4TransportAddr) (m : ℕ) (kmalloc : Bool) (stack : Ipv4TransportAddr) :
    dir.serve saddr result m kmalloc stack =
      if dir.entries = [] then (0, spoolMask)
      else if m = 0 then (1, result)
      else (0, offered dir.entries (dir.masks[dir.queue.idxOf saddr * m]?.getD stack)) := by
  have hjoined : dir.joined saddr kmalloc = dir.queue := by
    rw [Directory.joined, join_of_mem hmem, ite_self]
  rw [Directory.serve, hjoined]
  split_ifs <;> first | rfl | omega

/-- The call changes neither the row nor the place of anybody in the queue. -/
def Call.quiet : Call Bool σ → Bool
  | .pool4Init .cpool => false
  | .pool4Add .cpool _ _ _ _ _ => false
  | .pool4Rm .cpool _ _ _ _ => false
  | .pool4Flush .cpool => false
  | .clientInit => false
  | .clientDelete _ => false
  | .clientFlush => false
  | _ => true

theorem Directory.step_quiet (dir : Directory) {c : Call Bool σ} (hquiet : c.quiet) :
    (dir.step c).entries = dir.entries ∧ dir.queue <+: (dir.step c).queue := by
  have hsame : dir.entries = dir.entries ∧ dir.queue <+: dir.queue := ⟨rfl, List.prefix_rfl⟩
  cases c with
  | pool4Init name => cases name <;> first | exact hsame | cases hquiet
  | pool4Add name _ _ _ _ _ => cases name <;> first | exact hsame | cases hquiet
  | pool4Rm name _ _ _ _ => cases name <;> first | exact hsame | cases hquiet
  | pool4Flush name => cases name <;> first | exact hsame | cases hquiet
  | getMask packet result m kmalloc stack =>
    rw [Directory.step]
    split_ifs
    · exact hsame
    · refine ⟨rfl, ?_⟩
      dsimp only [Directory.joined]
      split_ifs
      · exact prefix_join _ _
      · exact List.prefix_rfl
  | clientAdd prefix6 kmalloc =>
    cases kmalloc with
    | false => exact hsame
    | true => exact ⟨rfl, List.prefix_append _ _⟩
  | clientInit | clientDelete _ | clientFlush => cases hquiet
  | pool4IsEmpty _ | pool4Contains _ _ _ _ _ | pool4Count _ | pool4ForeachSample _ _ _ _
  | pool4Taddr4FindPos _ _ _ _ | pool4ForeachTaddr4 _ _ _ _ | pool4GetNthTaddr _ _ _ _
  | clientExist _ | clientCount | clientForEachsample _ _ _ | clientForEach _ _ _
  | clientAddrExist _ | clientGetMaskDomain _ _ _ _ => exact hsame

/-- A deletion moves everybody behind the deleted host one block down, established
sessions or not: the next in the queue is served from the block the deleted host had, and
so on to the end. Whoever stood before it keeps the block. -/
theorem deletion_shifts_blocks (host : Host) (calls : List (Call Bool σ))
    (hplain : ∀ c ∈ calls, c.Plain) (hports : (calls.map Call.portsAdded).sum < 2 ^ 32)
    (hlength : calls.length + 2 < 2 ^ 32) (a b : In6Addr)
    (hb : b ∈ (Directory.after calls).queue) (hne : a ≠ b)
    (hpool : (Directory.after calls).entries ≠ [])
    (hfits : (Directory.after calls).queue.length ≤ (Directory.after calls).masks.length)
    (result : Ipv4TransportAddr) (m : Word) (hm : m ≠ 0) (kmalloc : Bool)
    (stack : ClientMaskDomain) :
    let sys := (System.empty.runCalls host calls).2
    let deleted := (sys.call host (.clientDelete (fullEntry a) : Call Bool σ)).2
    let request : Call Bool σ := .getMask { hdr := { saddr := b } } result m kmalloc stack
    let dir := Directory.after calls
    let offer (p : ℕ) : Answer σ :=
      .taddr 0 (offered dir.entries (dir.masks[p * m.toNat]?.getD stack.first))
    (sys.call host request).1 = offer (dir.queue.idxOf b) ∧
      (deleted.call host request).1 =
        offer (if dir.queue.idxOf a < dir.queue.idxOf b then dir.queue.idxOf b - 1
          else dir.queue.idxOf b) := by
  obtain ⟨hstands, hbounded⟩ := stands_after host calls hplain
  have hqueue := hbounded.queue
  have hmasks := hbounded.masks.trans_lt hports
  have hnat : m.toNat ≠ 0 := fun hzero => hm (BitVec.eq_of_toNat_eq hzero)
  have hshrink := List.length_erase_le (a := a) (l := (Directory.after calls).queue)
  let left : Directory :=
    { Directory.after calls with queue := (Directory.after calls).queue.erase a }
  have hdeleted : Stands ((System.empty.runCalls host calls).2.call host
      (.clientDelete (fullEntry a) : Call Bool σ)).2 left := hstands.step _ trivial
  constructor
  · rw [hstands.serve hbounded.ordered hmasks (by omega), Directory.serve_waiting hb hfits,
      if_neg hpool, if_neg hnat]
  · have hwaits : b ∈ left.queue := (List.mem_erase_of_ne (Ne.symm hne)).mpr hb
    have hroom : left.queue.length ≤ left.masks.length := hshrink.trans hfits
    have hleft := Directory.serve_waiting hwaits hroom result m.toNat kmalloc stack.first
    have hplace : left.queue.idxOf b = _ := idxOf_erase hne hb
    rw [if_neg (show left.entries ≠ [] from hpool), if_neg hnat, hplace] at hleft
    rw [hdeleted.serve hbounded.ordered hmasks (by simp only [left]; omega), hleft]
    rfl

theorem deletion_shifts_blocks_comingAndGoing :
    let deleted := (((System.empty.runCalls Host.x86 comingAndGoing).2.call Host.x86
      (.clientDelete (fullEntry ⟨0, 0, 0, 1⟩) : Call Bool Unit))).2
    (deleted.call Host.x86 (.getMask { hdr := { saddr := ⟨0, 0, 0, 3⟩ } } spoolMask 2 true
      { first := spoolMask, step := 0, count := 0 } : Call Bool Unit)).1 = .taddr 0 ⟨9, 6⟩ :=
  (deletion_shifts_blocks Host.x86 comingAndGoing (by decide) (by decide) (by decide)
    ⟨0, 0, 0, 1⟩ ⟨0, 0, 0, 3⟩ (by decide) (by decide) (by decide) (by decide)
    spoolMask 2 (by decide) true { first := spoolMask, step := 0, count := 0 }).2

end MaskPool
