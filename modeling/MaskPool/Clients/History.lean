import MaskPool.Assignment.Stickiness

/-!
# Client membership over histories of operations

Prefixes enter the database by `client_add`, which never looks for a copy, and by the
registrations of `get_mask`. `client_delete` stops at its first match. The history of a
prefix and its membership therefore part company at the first deletion that meets two
copies, and not before.
-/

namespace MaskPool

open Runs

inductive ClientOp where
  | add (prefix6 : Ipv6Prefix)
  | delete (prefix6 : Ipv6Prefix)
  | flush
  | getMask (call : MaskCall)
  deriving DecidableEq, Repr

/-- One call, the allocator succeeding. -/
def ClientOp.step (host : Host) (client : Client) : ClientOp → Client
  | .add prefix6 => (clientAdd client prefix6 true).2
  | .delete prefix6 => (clientDelete client prefix6).2
  | .flush => (clientFlush client).2
  | .getMask call => stepServed host client call

def clientAfter (host : Host) (ops : List ClientOp) : Client :=
  run (ClientOp.step host) clientInit ops

def Adds (host : Host) (p : Ipv6Prefix) (e : Client × ClientOp) : Prop :=
  match e.2 with
  | .add prefix6 => prefix6 = p
  | .getMask call => registers host (e.1, call) = true ∧ fullEntry call.saddr = p
  | _ => False

def Clears (p : Ipv6Prefix) (e : Client × ClientOp) : Prop := e.2 = .delete p ∨ e.2 = .flush

/-- The prefix was added after its last deletion and the last flush. -/
def LivePrefix (host : Host) (ops : List ClientOp) (p : Ipv6Prefix) : Prop :=
  Live (Adds host p) (Clears p) (trace (ClientOp.step host) clientInit ops)

variable {host : Host} {client : Client} {p : Ipv6Prefix}

theorem clientExist_iff : clientExist client p = true ↔ p ∈ client := by
  simp only [clientExist, List.any_eq_true, prefix6Equals_iff]
  constructor
  · intro h
    obtain ⟨exist, hmem, rfl⟩ := h
    exact hmem
  · intro hmem
    exact ⟨p, hmem, rfl⟩

theorem clientDelete_eq (client : Client) (p : Ipv6Prefix) :
    clientDelete client p = (0, client.erase p) := by
  induction client with
  | nil => rfl
  | cons exist rest ih =>
    rw [clientDelete, ih, List.erase_cons]
    by_cases h : p = exist
    · rw [if_pos (prefix6Equals_iff.mpr h), if_pos (beq_iff_eq.mpr h.symm)]
    · rw [if_neg (mt prefix6Equals_iff.mp h), if_neg (mt beq_iff_eq.mp (Ne.symm h))]

theorem clientExist_delete :
    clientExist (clientDelete client p).2 p = false ↔ client.count p ≤ 1 := by
  rw [← Bool.not_eq_true, clientExist_iff, clientDelete_eq, ← List.count_eq_zero,
    List.count_erase_self]
  omega

theorem filter_clientDelete (client : Client) (p : Ipv6Prefix) :
    (clientDelete client p).2.filter (fun q => q ≠ p) = client.filter fun q => q ≠ p := by
  rw [clientDelete_eq]
  induction client with
  | nil => rfl
  | cons exist rest ih =>
    rw [List.erase_cons]
    by_cases h : exist = p
    · simp [h]
    · rw [if_neg (mt beq_iff_eq.mp h), List.filter_cons, List.filter_cons]
      dsimp only at ih ⊢
      rw [ih]

theorem mem_step_iff {op : ClientOp} (hsingle : op = .delete p → client.count p ≤ 1) :
    p ∈ op.step host client ↔
      Adds host p (client, op) ∨ p ∈ client ∧ ¬Clears p (client, op) := by
  cases op with
  | add q =>
    simp only [ClientOp.step, clientAdd, Adds, Clears]
    simp [or_comm, eq_comm]
  | delete q =>
    simp only [ClientOp.step, Adds, Clears, clientDelete_eq, ClientOp.delete.injEq,
      reduceCtorEq, or_false, false_or]
    by_cases h : q = p
    · subst h
      have habsent : q ∉ client.erase q := by
        rw [← List.count_eq_zero, List.count_erase_self]
        have hcount := hsingle rfl
        omega
      simp [habsent]
    · simp only [h, not_false_eq_true, and_true]
      exact List.mem_erase_of_ne (Ne.symm h)
  | flush => simp [ClientOp.step, clientFlush, Adds, Clears]
  | getMask call =>
    simp only [ClientOp.step, Adds, Clears, reduceCtorEq, or_self, not_false_eq_true,
      and_true, stepServed_eq]
    cases hreg : registers host (client, call) with
    | true => simp [or_comm, eq_comm]
    | false => simp

theorem clientAfter_delete (host : Host) (before : List ClientOp) (p : Ipv6Prefix) :
    clientAfter host (before ++ [.delete p]) =
      (clientDelete (clientAfter host before) p).2 := by
  rw [clientAfter, run_append]
  rfl

/-- Along the whole sequence, deleting the prefix makes it absent and touches nothing
else, and membership is what the history says. -/
structure MembershipFollows (host : Host) (ops : List ClientOp) (p : Ipv6Prefix) :
    Prop where
  deleted : ∀ before after, ops = before ++ .delete p :: after →
    clientExist (clientAfter host (before ++ [.delete p])) p = false
  exist_iff : ∀ before after, ops = before ++ after →
    (clientExist (clientAfter host before) p = true ↔ LivePrefix host before p)
  kept : ∀ before after, ops = before ++ .delete p :: after →
    (clientAfter host (before ++ [.delete p])).filter (fun q => q ≠ p) =
      (clientAfter host before).filter fun q => q ≠ p

/-- No deletion of the prefix meets two copies of it. -/
def DeletesSingles (host : Host) (ops : List ClientOp) (p : Ipv6Prefix) : Prop :=
  ∀ before after, ops = before ++ .delete p :: after → (clientAfter host before).count p ≤ 1

theorem clientExist_iff_live {ops : List ClientOp} (hsingles : DeletesSingles host ops p) :
    clientExist (clientAfter host ops) p = true ↔ LivePrefix host ops p := by
  rw [clientExist_iff]
  apply holds_iff_live (P := fun client => p ∈ client)
  · simp [clientInit]
  · intro e he
    obtain ⟨before, after, hsplit, hstate⟩ := exists_split_of_mem_trace _ he
    apply mem_step_iff
    intro hdelete
    rw [hdelete] at hsplit
    rw [hstate]
    exact hsingles before after hsplit

/-- Membership follows the history exactly when no deletion meets two copies. -/
theorem membershipFollows_iff (host : Host) (ops : List ClientOp) (p : Ipv6Prefix) :
    MembershipFollows host ops p ↔ DeletesSingles host ops p := by
  constructor
  · intro h before after hsplit
    have habsent := h.deleted before after hsplit
    rw [clientAfter_delete] at habsent
    exact clientExist_delete.mp habsent
  · intro hsingles
    refine ⟨?_, ?_, ?_⟩
    · intro before after hsplit
      rw [clientAfter_delete]
      exact clientExist_delete.mpr (hsingles before after hsplit)
    · rintro before after rfl
      apply clientExist_iff_live
      rintro before' after' rfl
      exact hsingles before' (after' ++ after) (by simp)
    · intro before after _
      rw [clientAfter_delete]
      exact filter_clientDelete _ p

/-- Added twice, deleted once, still there: by two explicit additions, or by one that
comes after the source was registered. -/
theorem secondCopy_survives :
    clientExist (clientAfter Host.x86 [.add ⟨⟨0, 0, 0, 1⟩, 128⟩, .add ⟨⟨0, 0, 0, 1⟩, 128⟩,
        .delete ⟨⟨0, 0, 0, 1⟩, 128⟩]) ⟨⟨0, 0, 0, 1⟩, 128⟩ = true ∧
      clientExist (clientAfter Host.x86
        [.getMask (MaskCall.plain ⟨0, 0, 0, 1⟩ [⟨1, 6, 9, ⟨4, 4⟩⟩] 1),
          .add ⟨⟨0, 0, 0, 1⟩, 128⟩, .delete ⟨⟨0, 0, 0, 1⟩, 128⟩])
        ⟨⟨0, 0, 0, 1⟩, 128⟩ = true ∧
      ¬MembershipFollows Host.x86 [.add ⟨⟨0, 0, 0, 1⟩, 128⟩, .add ⟨⟨0, 0, 0, 1⟩, 128⟩,
        .delete ⟨⟨0, 0, 0, 1⟩, 128⟩] ⟨⟨0, 0, 0, 1⟩, 128⟩ := by
  refine ⟨by decide, by decide, ?_⟩
  intro h
  have habsent := h.deleted [.add ⟨⟨0, 0, 0, 1⟩, 128⟩, .add ⟨⟨0, 0, 0, 1⟩, 128⟩] [] rfl
  exact absurd habsent (by decide)

end MaskPool
