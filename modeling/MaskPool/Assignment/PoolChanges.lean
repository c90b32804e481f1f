import MaskPool.Assignment.Exhaustion
import MaskPool.Assignment.Places

/-!
# Changes of the row

Entries are added at the end of the pool, so an addition leaves every block where it was: a
waiting host whose block starts in the row keeps its mask through any number of additions.
A removal closes the gap, and every block behind it starts that many masks further down.
-/

namespace MaskPool

open Blocks FirstCome Runs

variable {σ : Type}

theorem Directory.serve_block {dir : Directory} {saddr : In6Addr} (hmem : saddr ∈ dir.queue)
    (hfits : dir.queue.length ≤ dir.masks.length) {m : ℕ} {x : Ipv4TransportAddr}
    (hx : dir.masks[dir.queue.idxOf saddr * m]? = some x) (result : Ipv4TransportAddr)
    (kmalloc : Bool) (stack : Ipv4TransportAddr) :
    dir.serve saddr result m kmalloc stack =
      if m = 0 then (1, result) else (0, if bibdbContains4 x then spoolMask else x) := by
  have hrow : x ∈ poolMasks dir.entries := List.mem_of_getElem? hx
  have hpool : dir.entries ≠ [] := by
    intro hnone
    rw [hnone] at hrow
    exact absurd hrow List.not_mem_nil
  rw [serve_waiting hmem hfits, if_neg hpool, hx, Option.getD_some, offered_of_mem hrow]

/-- The call neither moves anybody in the queue nor takes anything out of the row. -/
def Call.growing : Call Bool σ → Bool
  | .pool4Add .cpool _ _ _ _ _ => true
  | c => c.quiet

theorem Directory.step_growing (dir : Directory) {c : Call Bool σ} (hgrowing : c.growing) :
    dir.entries <+: (dir.step c).entries ∧ dir.queue <+: (dir.step c).queue := by
  have hquiet (h : c.quiet) :
      dir.entries <+: (dir.step c).entries ∧ dir.queue <+: (dir.step c).queue := by
    obtain ⟨hentries, hqueue⟩ := step_quiet dir h
    rw [hentries]
    exact ⟨List.prefix_rfl, hqueue⟩
  cases c with
  | pool4Add name mark proto addr range kmalloc =>
    cases name with
    | spool => exact hquiet hgrowing
    | cpool =>
      cases kmalloc with
      | false => exact ⟨List.prefix_rfl, List.prefix_rfl⟩
      | true => exact ⟨List.prefix_append _ _, List.prefix_rfl⟩
  | _ => exact hquiet hgrowing

theorem Directory.after_growing (calls : List (Call Bool σ)) {more : List (Call Bool σ)}
    (hgrowing : ∀ c ∈ more, c.growing) :
    (after calls).entries <+: (after (calls ++ more)).entries ∧
      (after calls).queue <+: (after (calls ++ more)).queue := by
  rw [after_append]
  refine run_related_of_mem step
    (R := fun dir later => dir.entries <+: later.entries ∧ dir.queue <+: later.queue)
    (fun _ => ⟨List.prefix_rfl, List.prefix_rfl⟩) ?_
    (fun dir c hc => step_growing dir (hgrowing c hc)) _
  rintro dir mid later ⟨hentries, hqueue⟩ ⟨hadded, hjoined⟩
  exact ⟨hentries.trans hadded, hqueue.trans hjoined⟩

theorem poolMasks_prefix {pool4 later : Pool4} (h : pool4 <+: later) :
    poolMasks pool4 <+: poolMasks later := by
  obtain ⟨added, rfl⟩ := h
  rw [poolMasks, poolMasks, List.flatMap_append]
  exact List.prefix_append _ _

/-- Additions to `cpool` and to the clients, requests and everything else that takes nothing
away leave a waiting host with its mask, as long as the queue fits the row. -/
theorem additions_keep_masks (host : Host) (calls more : List (Call Bool σ))
    (hplain : ∀ c ∈ calls ++ more, c.Plain) (hgrowing : ∀ c ∈ more, c.growing)
    (hports : ((calls ++ more).map Call.portsAdded).sum < 2 ^ 32)
    (hlength : (calls ++ more).length + 1 < 2 ^ 32) (packet : Packet)
    (result : Ipv4TransportAddr) (m : Word) (kmalloc : Bool) (stack : ClientMaskDomain)
    (hmem : packet.hdr.saddr ∈ (Directory.after calls).queue)
    (hblock : (Directory.after calls).queue.idxOf packet.hdr.saddr * m.toNat <
      (Directory.after calls).masks.length)
    (hfits : (Directory.after calls).queue.length ≤ (Directory.after calls).masks.length)
    (hroom : (Directory.after (calls ++ more)).queue.length ≤
      (Directory.after (calls ++ more)).masks.length) :
    let request : Call Bool σ := .getMask packet result m kmalloc stack
    ((System.empty.runCalls host (calls ++ more)).2.call host request).1 =
      ((System.empty.runCalls host calls).2.call host request).1 := by
  obtain ⟨hstands, hbounded⟩ :=
    stands_after host calls fun c hc => hplain c (List.mem_append_left _ hc)
  obtain ⟨hlater, hbounded'⟩ := stands_after host (calls ++ more) hplain
  obtain ⟨hentries, hqueue⟩ := Directory.after_growing calls hgrowing
  have hrow : (Directory.after calls).masks <+: (Directory.after (calls ++ more)).masks :=
    poolMasks_prefix hentries
  have hmasks := hbounded'.masks.trans_lt hports
  have hcalls := hbounded'.queue
  have hgrows := hqueue.length_le
  have hplace := idxOf_of_prefix hqueue hmem
  obtain ⟨x, hx⟩ : ∃ x, (Directory.after calls).masks[(Directory.after calls).queue.idxOf
      packet.hdr.saddr * m.toNat]? = some x := ⟨_, List.getElem?_eq_getElem hblock⟩
  have hx' : (Directory.after (calls ++ more)).masks[(Directory.after (calls ++ more)).queue.idxOf
      packet.hdr.saddr * m.toNat]? = some x := by
    rw [hplace, ← hx, List.getElem?_eq_getElem hblock]
    exact List.prefix_iff_getElem?.mp hrow _ hblock
  dsimp only
  rw [hlater.serve hbounded'.ordered hmasks (by omega),
    hstands.serve hbounded.ordered (hrow.length_le.trans_lt hmasks) (by omega),
    Directory.serve_block (hqueue.subset hmem) hroom hx', Directory.serve_block hmem hfits hx]

theorem additions_keep_masks_comingAndGoing :
    let stack : ClientMaskDomain := { first := spoolMask, step := 0, count := 0 }
    let growing : List (Call Bool Unit) :=
      [.pool4Add .cpool 2 17 8 { min := 7, max := 9 } true,
        .clientAdd (fullEntry ⟨0, 0, 0, 4⟩) true]
    let request : Call Bool Unit :=
      .getMask { hdr := { saddr := ⟨0, 0, 0, 3⟩ } } spoolMask 2 true stack
    ((System.empty.runCalls Host.x86 (comingAndGoing ++ growing)).2.call Host.x86 request).1 =
      ((System.empty.runCalls Host.x86 comingAndGoing).2.call Host.x86 request).1 :=
  additions_keep_masks Host.x86 comingAndGoing
    [.pool4Add .cpool 2 17 8 { min := 7, max := 9 } true,
      .clientAdd (fullEntry ⟨0, 0, 0, 4⟩) true]
    (by decide) (by decide) (by decide) (by decide) { hdr := { saddr := ⟨0, 0, 0, 3⟩ } }
    spoolMask 2 true { first := spoolMask, step := 0, count := 0 } (by decide) (by decide)
    (by decide) (by decide)

theorem filter_of_cut {front back : Pool4} {x : Pool4Entry} (hx : x ∉ front ++ back) :
    (front ++ x :: back).filter (fun exist => exist ≠ x) = front ++ back := by
  rw [List.mem_append, not_or] at hx
  have hkeep (pool4 : Pool4) (h : x ∉ pool4) :
      pool4.filter (fun exist => exist ≠ x) = pool4 := by
    rw [List.filter_eq_self]
    intro exist hexist
    simpa using fun heq : exist = x => h (heq ▸ hexist)
  rw [List.filter_append, List.filter_cons_of_neg (by simp), hkeep front hx.1, hkeep back hx.2]

theorem Stands.pool4Rm (host : Host) {sys : System} {dir : Directory} (h : Stands sys dir)
    {front back : Pool4} {x : Pool4Entry} (hentries : dir.entries = front ++ x :: back)
    (hx : x ∉ front ++ back) :
    Stands (sys.call host (.pool4Rm .cpool x.mark x.proto x.addr x.range : Call Bool σ)).2
      { dir with entries := front ++ back } := by
  have hstep : dir.step (.pool4Rm .cpool x.mark x.proto x.addr x.range : Call Bool σ) =
      { dir with entries := front ++ back } := by
    rw [Directory.step, hentries, filter_of_cut hx]
  exact hstep ▸ h.step _ trivial

end MaskPool
