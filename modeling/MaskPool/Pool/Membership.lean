import MaskPool.Foundations.Runs
import MaskPool.Model.Pool4

/-!
# Pool membership over histories of operations

The entries of a pool are exactly the tuples the history leaves live: added, and not
removed or flushed since. `pool4_contains` asks a coarser question, because the
comparison it uses looks at protocol and address only.
-/

namespace MaskPool

open Runs

inductive Pool4Op where
  | add (x : Pool4Entry)
  | rm (x : Pool4Entry)
  | flush
  deriving DecidableEq, Repr

/-- One call, the allocator succeeding. -/
def Pool4Op.step (pool4 : Pool4) : Pool4Op → Pool4
  | .add x => (pool4Add pool4 x.mark x.proto x.addr x.range true).2
  | .rm x => (pool4Rm pool4 x.mark x.proto x.addr x.range).2
  | .flush => (pool4Flush pool4).2

def poolAfter (ops : List Pool4Op) : Pool4 := run Pool4Op.step pool4Init ops

/-- The last `pool4_add` of the tuple is later than its last `pool4_rm` and the last
`pool4_flush`. -/
def LiveTuple (ops : List Pool4Op) (x : Pool4Entry) : Prop :=
  Live (fun op => op = Pool4Op.add x) (fun op => op = .rm x ∨ op = .flush) ops

def containsTuple (pool4 : Pool4) (x : Pool4Entry) : Bool :=
  pool4Contains pool4 x.mark x.proto x.addr x.range

@[simp] theorem pool4Equals_iff {one two : Pool4Entry} :
    pool4Equals one two = true ↔ one = two := by
  obtain ⟨_, _, _, ⟨_, _⟩⟩ := one
  obtain ⟨_, _, _, ⟨_, _⟩⟩ := two
  simp only [pool4Equals, Bool.and_eq_true, beq_iff_eq, Pool4Entry.mk.injEq,
    PortRange.mk.injEq]
  tauto

theorem mem_step {pool4 : Pool4} {op : Pool4Op} {x : Pool4Entry} :
    x ∈ op.step pool4 ↔ op = .add x ∨ x ∈ pool4 ∧ ¬(op = .rm x ∨ op = .flush) := by
  cases op with
  | add y =>
    simp only [Pool4Op.step, pool4Add, Bool.not_true, Bool.false_eq_true, if_false,
      List.mem_append, List.mem_singleton, Pool4Op.add.injEq, reduceCtorEq, or_self,
      not_false_eq_true, and_true]
    rw [or_comm, eq_comm]
  | rm y =>
    simp only [Pool4Op.step, pool4Rm, List.mem_filter, Bool.not_eq_true', Pool4Op.rm.injEq,
      reduceCtorEq, false_or, or_false, ← Bool.not_eq_true, pool4Equals_iff]
  | flush => simp [Pool4Op.step, pool4Flush]

/-- The list of entries refines the history: it holds exactly the live tuples. -/
theorem mem_poolAfter_iff (ops : List Pool4Op) (x : Pool4Entry) :
    x ∈ poolAfter ops ↔ LiveTuple ops x := by
  have htrace : x ∈ run Pool4Op.step pool4Init ops ↔
      Live (fun e => e.2 = .add x) (fun e => e.2 = .rm x ∨ e.2 = .flush)
        (trace Pool4Op.step pool4Init ops) := by
    apply holds_iff_live (P := fun pool4 => x ∈ pool4)
    · simp [pool4Init]
    · intro e _
      exact mem_step
  have hops := live_map (fun op => op = Pool4Op.add x) (fun op => op = .rm x ∨ op = .flush)
    Prod.snd (trace Pool4Op.step pool4Init ops)
  rw [map_snd_trace] at hops
  exact htrace.trans hops.symm

theorem containsTuple_iff {pool4 : Pool4} {x : Pool4Entry} :
    containsTuple pool4 x = true ↔ ∃ y ∈ pool4, y.proto = x.proto ∧ y.addr = x.addr := by
  simp only [containsTuple, pool4Contains, pool4Compare, List.any_eq_true,
    Bool.and_eq_true, beq_iff_eq]
  exact exists_congr fun y => and_congr_right fun _ => and_congr eq_comm eq_comm

def FollowsHistory (ops : List Pool4Op) (x : Pool4Entry) : Prop :=
  containsTuple (poolAfter ops) x = true ↔ LiveTuple ops x

/-- The tuple is live, or nothing live shares its protocol and address. -/
def Unshadowed (ops : List Pool4Op) (x : Pool4Entry) : Prop :=
  LiveTuple ops x ∨ ∀ y, LiveTuple ops y → ¬(y.proto = x.proto ∧ y.addr = x.addr)

theorem followsHistory_iff (ops : List Pool4Op) (x : Pool4Entry) :
    FollowsHistory ops x ↔ Unshadowed ops x := by
  have hcontains : containsTuple (poolAfter ops) x = true ↔
      ∃ y, LiveTuple ops y ∧ y.proto = x.proto ∧ y.addr = x.addr := by
    simp only [containsTuple_iff, mem_poolAfter_iff]
  rw [FollowsHistory, Unshadowed, hcontains]
  by_cases hlive : LiveTuple ops x
  · simp only [hlive, iff_true, true_or]
    exact ⟨x, hlive, rfl, rfl⟩
  · simp only [hlive, iff_false, false_or, not_exists, not_and]

theorem liveTuple_snoc {ops : List Pool4Op} {op : Pool4Op} {x : Pool4Entry} :
    LiveTuple (ops ++ [op]) x ↔
      op = .add x ∨ LiveTuple ops x ∧ ¬(op = .rm x ∨ op = .flush) :=
  live_append_singleton _ _

/-- The membership law holds after a sequence of operations exactly when the tuple is
not shadowed there, and along unshadowed steps its two consequences hold: a removal is
final, and operations on other tuples change nothing. -/
theorem pool4Contains_history (x : Pool4Entry) :
    (∀ ops, FollowsHistory ops x ↔ Unshadowed ops x) ∧
      (∀ ops, Unshadowed (ops ++ [.rm x]) x →
        containsTuple (poolAfter (ops ++ [.rm x])) x = false) ∧
      (∀ ops y op, y ≠ x → op = .add y ∨ op = .rm y → Unshadowed ops x →
        Unshadowed (ops ++ [op]) x →
        containsTuple (poolAfter (ops ++ [op])) x = containsTuple (poolAfter ops) x) := by
  refine ⟨fun ops => followsHistory_iff ops x, ?_, ?_⟩
  · intro ops h
    have hlaw := (followsHistory_iff _ x).mpr h
    rw [← Bool.not_eq_true, hlaw.eq, liveTuple_snoc]
    simp
  · intro ops y op hne hop hbefore hafter
    have hlaw := (followsHistory_iff _ x).mpr hbefore
    have hlaw' := (followsHistory_iff _ x).mpr hafter
    have hsame : LiveTuple (ops ++ [op]) x ↔ LiveTuple ops x := by
      rw [liveTuple_snoc]
      rcases hop with rfl | rfl <;> simp [hne]
    rw [Bool.eq_iff_iff]
    exact hlaw'.trans (hsame.trans hlaw.symm)

/-- Two tuples of one address that differ in mark and ports: adding the first makes the
second look present, and removing the second does not help. -/
theorem otherRange_shadows :
    ¬FollowsHistory [.add ⟨1, 6, 9, ⟨10, 20⟩⟩] ⟨2, 6, 9, ⟨30, 40⟩⟩ ∧
      containsTuple (poolAfter [.add ⟨1, 6, 9, ⟨10, 20⟩⟩, .rm ⟨2, 6, 9, ⟨30, 40⟩⟩])
        ⟨2, 6, 9, ⟨30, 40⟩⟩ = true := by
  refine ⟨?_, by decide⟩
  rw [followsHistory_iff, Unshadowed, ← mem_poolAfter_iff, not_or, not_forall]
  refine ⟨by decide, ⟨1, 6, 9, ⟨10, 20⟩⟩, ?_⟩
  rw [← mem_poolAfter_iff]
  decide

end MaskPool
