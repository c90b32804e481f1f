import MaskPool.Assignment.Exhaustion
import MaskPool.Assignment.Registration

/-!
# Runs of `get_mask` hand out disjoint masks

A run is a sequence of calls on one pool with one block size, the allocator always
succeeding. Its grants are the masks handed out at positions whose block starts inside
the pool. They form an allotment of the pool's blocks, whatever the sources are, in
whatever order they come, and whoever gets registered on the way.
-/

namespace MaskPool

open Blocks BlockScan Runs

/-- One call of a run in which allocation succeeds. -/
def stepServed (host : Host) (client : Client) (call : MaskCall) : Client :=
  call.after host true client

def SharePool (cpool : Pool4) (m : Word) (calls : List MaskCall) : Prop :=
  ∀ call ∈ calls, call.cpool = cpool ∧ call.masksPerClient = m

instance (cpool : Pool4) (m : Word) (calls : List MaskCall) :
    Decidable (SharePool cpool m calls) := inferInstanceAs (Decidable (∀ _ ∈ _, _))

theorem SharePool.of_mem_trace {host : Host} {client : Client} {cpool : Pool4} {m : Word}
    {calls : List MaskCall} (h : SharePool cpool m calls) {e : Client × MaskCall}
    (he : e ∈ trace (stepServed host) client calls) :
    e.2.cpool = cpool ∧ e.2.masksPerClient = m := by
  apply h
  rw [← map_snd_trace (stepServed host) client calls]
  exact List.mem_map_of_mem he

def MaskCall.position (host : Host) (client : Client) (call : MaskCall) : Option ℕ :=
  MaskPool.position host (registered host true client call.saddr) call.saddr

/-- The position and the mask of a call that returns 0 with a mask of the pool, when the
position's block starts inside the pool. -/
def grant (host : Host) (e : Client × MaskCall) : Option (ℕ × Ipv4TransportAddr) :=
  match e.2.position host e.1 with
  | none => none
  | some p =>
    if ((p * e.2.masksPerClient.toNat : ℕ) : ℤ) < (pool4Count e.2.cpool).toInt ∧
        (e.2.serve host true e.1).1 = 0 ∧ (e.2.serve host true e.1).2.2 ≠ spoolMask then
      some (p, (e.2.serve host true e.1).2.2)
    else none

def grants (host : Host) (client : Client) (calls : List MaskCall) :
    List (ℕ × Ipv4TransportAddr) :=
  (trace (stepServed host) client calls).filterMap (grant host)

theorem grant_eq_some {host : Host} {e : Client × MaskCall} {p : ℕ}
    {x : Ipv4TransportAddr} (h : grant host e = some (p, x)) :
    e.2.position host e.1 = some p ∧
      ((p * e.2.masksPerClient.toNat : ℕ) : ℤ) < (pool4Count e.2.cpool).toInt ∧
      (e.2.serve host true e.1).1 = 0 ∧ (e.2.serve host true e.1).2.2 = x ∧
      x ≠ spoolMask := by
  unfold grant at h
  cases hp : e.2.position host e.1 with
  | none =>
    rw [hp] at h
    cases h
  | some q =>
    rw [hp] at h
    dsimp only at h
    split_ifs at h with hgranted
    cases h
    exact ⟨rfl, hgranted.1, hgranted.2.1, rfl, hgranted.2.2⟩

theorem lookup_of_serve {host : Host} {kmalloc : Bool} {client : Client} {call : MaskCall}
    (hpool : call.cpool ≠ []) (hzero : (call.serve host kmalloc client).1 = 0) :
    (call.lookup host kmalloc client).1 = 0 := by
  rw [serve_eq hpool] at hzero
  split_ifs at hzero with herror
  · exact absurd hzero herror
  · exact not_not.mp herror

variable {host : Host} {client : Client} {cpool : Pool4} {m : Word} {calls : List MaskCall}

theorem grant_mem_block {e : Client × MaskCall} (hordered : OrderedRanges e.2.cpool)
    (hsmall : (poolMasks e.2.cpool).length < 2 ^ 31) {g : ℕ × Ipv4TransportAddr}
    (hg : grant host e = some g) :
    g.2 ∈ block e.2.masksPerClient.toNat g.1 (poolMasks e.2.cpool) ∧
      bibdbContains4 g.2 = false := by
  obtain ⟨p, x⟩ := g
  obtain ⟨hp, hstart, hzero, hx, hspool⟩ := grant_eq_some hg
  rw [pool4Count_toInt hordered hsmall, Int.ofNat_lt] at hstart
  have hpool : e.2.cpool ≠ [] := by
    intro hempty
    simp [hempty] at hstart
  have hlookup := lookup_of_serve hpool hzero
  obtain ⟨-, -, hm⟩ := clientGetMaskDomain_succeeds.mp hlookup
  have hfirst := List.getElem?_eq_getElem hstart
  have hp32 : p < 2 ^ 32 := (position_lt hm hstart).trans (hsmall.trans (by decide))
  have hdomain := domainStart_eq hm (hsmall.le.trans (by decide)) hp32
  rw [hfirst] at hdomain
  rw [serve_of_start hpool hlookup hp hdomain, offered_of_mem (List.getElem_mem hstart)] at hx
  dsimp only at hx ⊢
  split_ifs at hx with hbusy
  · exact absurd hx.symm hspool
  · rw [← hx]
    exact ⟨getElem?_mem_block (toNat_pos hm) hfirst, Bool.not_eq_true _ ▸ hbusy⟩

/-- The grants of a run allot the blocks of the pool, so no two positions ever share a
mask. -/
theorem grants_isolated (host : Host) (client : Client) (hordered : OrderedRanges cpool)
    (hdistinct : (poolMasks cpool).Nodup) (hsmall : (poolMasks cpool).length < 2 ^ 31)
    (hcalls : SharePool cpool m calls) :
    (∀ g ∈ grants host client calls, g.2 ∈ poolMasks cpool ∧
      g.2 ∈ block m.toNat g.1 (poolMasks cpool) ∧ bibdbContains4 g.2 = false) ∧
    ∀ g ∈ grants host client calls, ∀ g' ∈ grants host client calls,
      g.1 ≠ g'.1 → g.2 ≠ g'.2 := by
  have hgrant : ∀ g ∈ grants host client calls,
      g.2 ∈ block m.toNat g.1 (poolMasks cpool) ∧ bibdbContains4 g.2 = false := by
    intro g hg
    obtain ⟨e, he, hge⟩ := List.mem_filterMap.mp hg
    obtain ⟨hpool, hmasks⟩ := hcalls.of_mem_trace he
    rw [← hpool] at hordered hsmall ⊢
    rw [← hmasks]
    exact grant_mem_block hordered hsmall hge
  have hallotted : Allotted m.toNat (poolMasks cpool) (grants host client calls) :=
    fun g hg => (hgrant g hg).1
  refine ⟨?_, hallotted.exclusive hdistinct⟩
  intro g hg
  obtain ⟨hblock, hfree⟩ := hgrant g hg
  exact ⟨mem_of_mem_block hblock, hblock, hfree⟩

theorem grants_isolated_newcomer :
    (∀ g ∈ grants Host.x86 [⟨⟨0, 0, 0, 1⟩, 128⟩]
        [MaskCall.plain ⟨0, 0, 0, 2⟩ [⟨1, 6, 9, ⟨4, 7⟩⟩] 2,
          MaskCall.plain ⟨0, 0, 0, 1⟩ [⟨1, 6, 9, ⟨4, 7⟩⟩] 2],
      g.2 ∈ poolMasks [⟨1, 6, 9, ⟨4, 7⟩⟩] ∧
        g.2 ∈ block (2 : Word).toNat g.1 (poolMasks [⟨1, 6, 9, ⟨4, 7⟩⟩]) ∧
        bibdbContains4 g.2 = false) ∧
    (⟨9, 6⟩ : Ipv4TransportAddr) ≠ ⟨9, 4⟩ := by
  have h := grants_isolated Host.x86 [⟨⟨0, 0, 0, 1⟩, 128⟩] (by decide) (by decide) (by decide)
    (by decide : SharePool [⟨1, 6, 9, ⟨4, 7⟩⟩] 2
      [MaskCall.plain ⟨0, 0, 0, 2⟩ [⟨1, 6, 9, ⟨4, 7⟩⟩] 2,
        MaskCall.plain ⟨0, 0, 0, 1⟩ [⟨1, 6, 9, ⟨4, 7⟩⟩] 2])
  exact ⟨h.1, h.2 (1, ⟨9, 6⟩) (by decide) (0, ⟨9, 4⟩) (by decide) (by decide)⟩

end MaskPool
