import MaskPool.Assignment.Serving
import MaskPool.Foundations.Runs

/-!
# Registration before the checks

`get_mask` registers an unknown source first and looks for capacity, membership and a
block size afterwards. A call that fails one of these has already grown the database,
by the very entry the capacity check then counts.
-/

namespace MaskPool

open Runs

variable {host : Host} {kmalloc : Bool} {client : Client} {call : MaskCall}

def MaskCall.after (host : Host) (kmalloc : Bool) (client : Client) (call : MaskCall) :
    Client :=
  (call.serve host kmalloc client).2.1

theorem after_eq :
    call.after host kmalloc client =
      if call.cpool = [] then client else registered host kmalloc client call.saddr := by
  unfold MaskCall.after
  split_ifs with hempty
  · rw [serve_empty hempty]
  · rw [serve_eq hempty]
    split_ifs <;> rfl

theorem registered_known {saddr : In6Addr} (h : clientAddrExist host client saddr = true) :
    registered host kmalloc client saddr = client := by
  rw [registered, if_pos h]

theorem registered_unknown {saddr : In6Addr}
    (h : clientAddrExist host client saddr = false) :
    registered host true client saddr = client ++ [{ address := saddr, len := 128 }] := by
  rw [registered, h]
  rfl

theorem registered_unallocated (saddr : In6Addr) :
    registered host false client saddr = client := by
  unfold registered
  simp

theorem withinCapacity_registered {saddr : In6Addr} {cpool : Pool4} :
    WithinCapacity host (client ++ [{ address := saddr, len := 128 }]) cpool ↔
      clientCount host client + 1 ≤ pool4Count cpool := by
  rw [WithinCapacity, clientCount_snoc, getAddr6Count_full rfl]

theorem position_snoc_isSome (saddr : In6Addr) :
    (position host (client ++ [{ address := saddr, len := 128 }]) saddr).isSome := by
  have hfull : prefixContains host { address := saddr, len := 128 } saddr = true :=
    (prefixContains_full rfl).mpr rfl
  rw [position, List.findIdx?_isSome, List.any_append, List.any_cons, hfull, Bool.true_or,
    Bool.or_true]

/-- A call that reports an error leaves the database as it was. -/
def FailsInertly (host : Host) (kmalloc : Bool) (client : Client) (call : MaskCall) :
    Prop :=
  (call.serve host kmalloc client).1 ≠ 0 → call.after host kmalloc client = client

/-- The call registers nobody, or the pool has room for one client more and the block
size is positive. -/
def Absorbs (host : Host) (kmalloc : Bool) (client : Client) (call : MaskCall) : Prop :=
  call.cpool = [] ∨ clientAddrExist host client call.saddr = true ∨ kmalloc = false ∨
    (clientCount host client + 1 ≤ pool4Count call.cpool ∧ call.masksPerClient ≠ 0)

instance (host : Host) (kmalloc : Bool) (client : Client) (call : MaskCall) :
    Decidable (Absorbs host kmalloc client call) := inferInstanceAs (Decidable (_ ∨ _))

theorem serve_code_of_unknown (hpool : call.cpool ≠ [])
    (hunknown : clientAddrExist host client call.saddr = false) :
    (call.serve host true client).1 = 0 ↔
      clientCount host client + 1 ≤ pool4Count call.cpool ∧ call.masksPerClient ≠ 0 := by
  have hlookup : (call.lookup host true client).1 = 0 ↔
      clientCount host client + 1 ≤ pool4Count call.cpool ∧ call.masksPerClient ≠ 0 := by
    rw [MaskCall.lookup, clientGetMaskDomain_succeeds, registered_unknown hunknown,
      withinCapacity_registered]
    simp only [position_snoc_isSome, true_and]
  rw [serve_eq hpool, ← hlookup]
  split_ifs with herror
  · rfl
  · exact iff_of_true rfl (not_not.mp herror)

theorem failsInertly_iff :
    FailsInertly host kmalloc client call ↔ Absorbs host kmalloc client call := by
  unfold FailsInertly Absorbs
  rw [after_eq]
  by_cases hpool : call.cpool = []
  · simp [hpool]
  rw [if_neg hpool]
  cases hexist : clientAddrExist host client call.saddr with
  | true => simp [registered_known hexist]
  | false =>
    cases kmalloc with
    | false => simp [registered_unallocated]
    | true =>
      have hgrown : registered host true client call.saddr ≠ client := by
        rw [registered_unknown hexist]
        simp
      have hcode := serve_code_of_unknown hpool hexist
      rw [← hcode]
      simp only [hpool, hgrown, Bool.false_eq_true, Bool.true_eq_false, false_or, imp_false,
        not_not, ne_eq]

def stepCall (host : Host) (client : Client) (op : Bool × MaskCall) : Client :=
  op.2.after host op.1 client

/-- Calls that fail inertly leave no trace, so what was served before them is served
after them in the same way. -/
theorem serve_after_failures {ops : List (Bool × MaskCall)}
    (hfail : ∀ e ∈ trace (stepCall host) client ops, (e.2.2.serve host e.2.1 e.1).1 ≠ 0)
    (habsorbs : ∀ e ∈ trace (stepCall host) client ops,
      FailsInertly host e.2.1 e.1 e.2.2) :
    run (stepCall host) client ops = client := by
  apply run_eq_self
  intro e he
  exact habsorbs e he (hfail e he)

/-- A failing call leaves the database alone exactly when it absorbs its source. In a run
of absorbing calls a stretch of failures changes no later answer. -/
theorem failingCalls_inert (host : Host) :
    (∀ kmalloc client call,
      FailsInertly host kmalloc client call ↔ Absorbs host kmalloc client call) ∧
    ∀ client ops,
      (∀ e ∈ trace (stepCall host) client ops, Absorbs host e.2.1 e.1 e.2.2) →
      (∀ e ∈ trace (stepCall host) client ops, FailsInertly host e.2.1 e.1 e.2.2) ∧
      ∀ before failing, ops = before ++ failing →
        (∀ e ∈ trace (stepCall host) (run (stepCall host) client before) failing,
          (e.2.2.serve host e.2.1 e.1).1 ≠ 0) →
        ∀ kmalloc (call : MaskCall),
          call.serve host kmalloc (run (stepCall host) client ops) =
            call.serve host kmalloc (run (stepCall host) client before) := by
  refine ⟨fun _ _ _ => failsInertly_iff, ?_⟩
  intro client ops habsorbs
  have hinert : ∀ e ∈ trace (stepCall host) client ops,
      FailsInertly host e.2.1 e.1 e.2.2 :=
    fun e he => failsInertly_iff.mpr (habsorbs e he)
  refine ⟨hinert, ?_⟩
  rintro before failing rfl hfail kmalloc call
  have hsame := serve_after_failures hfail fun e he =>
    hinert e (by rw [trace_append]; exact List.mem_append_right _ he)
  rw [run_append, hsame]

/-- One port serves the only client. A call from an unknown source fails, stays in the
database, and from then on the client is refused as well. -/
theorem unknownSource_crowdsOut :
    MaskCall.serve Host.x86 true [⟨⟨0, 0, 0, 1⟩, 128⟩]
        (MaskCall.plain ⟨0, 0, 0, 1⟩ [⟨1, 6, 9, ⟨4, 4⟩⟩] 1) =
      (0, [⟨⟨0, 0, 0, 1⟩, 128⟩], ⟨9, 4⟩) ∧
    MaskCall.serve Host.x86 true [⟨⟨0, 0, 0, 1⟩, 128⟩]
        (MaskCall.plain ⟨0, 0, 0, 2⟩ [⟨1, 6, 9, ⟨4, 4⟩⟩] 1) =
      (1, [⟨⟨0, 0, 0, 1⟩, 128⟩, ⟨⟨0, 0, 0, 2⟩, 128⟩], ⟨0, 0⟩) ∧
    MaskCall.serve Host.x86 true [⟨⟨0, 0, 0, 1⟩, 128⟩, ⟨⟨0, 0, 0, 2⟩, 128⟩]
        (MaskCall.plain ⟨0, 0, 0, 1⟩ [⟨1, 6, 9, ⟨4, 4⟩⟩] 1) =
      (1, [⟨⟨0, 0, 0, 1⟩, 128⟩, ⟨⟨0, 0, 0, 2⟩, 128⟩], ⟨0, 0⟩) ∧
    ¬FailsInertly Host.x86 true [⟨⟨0, 0, 0, 1⟩, 128⟩]
        (MaskCall.plain ⟨0, 0, 0, 2⟩ [⟨1, 6, 9, ⟨4, 4⟩⟩] 1) := by
  refine ⟨by decide, by decide, by decide, ?_⟩
  unfold FailsInertly
  decide

end MaskPool
