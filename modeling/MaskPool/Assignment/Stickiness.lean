import MaskPool.Assignment.Isolation

/-!
# Dynamic assignment over runs

Every call extends the database at its tail by at most the /128 entry of its own source,
and only while `client_addr_exist` does not know that source. So entries stay put, no
source is appended twice, and a position that once exists is final. The mask a source
gets is final too, as long as its domain is written at all: `pool4_count` promises masks
that reversed ranges do not have, and behind the last mask the domain keeps whatever the
stack held.
-/

namespace MaskPool

open Blocks BlockScan Runs

variable {host : Host} {client : Client} {cpool : Pool4} {m : Word} {calls : List MaskCall}

def registers (host : Host) (e : Client × MaskCall) : Bool :=
  !e.2.cpool.isEmpty && !clientAddrExist host e.1 e.2.saddr

def newcomers (host : Host) (client : Client) (calls : List MaskCall) : List In6Addr :=
  ((trace (stepServed host) client calls).filter (registers host)).map fun e => e.2.saddr

def fullEntry (saddr : In6Addr) : Ipv6Prefix := { address := saddr, len := 128 }

theorem stepServed_eq (host : Host) (client : Client) (call : MaskCall) :
    stepServed host client call =
      if registers host (client, call) then client ++ [fullEntry call.saddr] else client := by
  unfold stepServed registers
  rw [after_eq]
  by_cases hpool : call.cpool = []
  · simp [hpool]
  cases hexist : clientAddrExist host client call.saddr with
  | true => simp [hpool, registered_known hexist]
  | false => simp [hpool, registered_unknown hexist, fullEntry]

theorem prefix_stepServed (host : Host) (client : Client) (call : MaskCall) :
    client <+: stepServed host client call := by
  rw [stepServed_eq]
  split_ifs
  · exact List.prefix_append _ _
  · exact List.prefix_refl _

theorem prefix_run (host : Host) (client : Client) (calls : List MaskCall) :
    client <+: run (stepServed host) client calls :=
  run_related (stepServed host) List.prefix_refl List.IsPrefix.trans
    (prefix_stepServed host) client calls

theorem prefix_trace (host : Host) (client : Client) (calls : List MaskCall) :
    (∀ e ∈ trace (stepServed host) client calls, client <+: e.1) ∧
      (trace (stepServed host) client calls).Pairwise fun e later =>
        stepServed host e.1 e.2 <+: later.1 :=
  trace_pairwise (stepServed host) List.prefix_refl List.IsPrefix.trans
    (prefix_stepServed host) client calls

theorem newcomers_cons (call : MaskCall) :
    newcomers host client (call :: calls) =
      if registers host (client, call) then
        call.saddr :: newcomers host (stepServed host client call) calls
      else newcomers host (stepServed host client call) calls := by
  rw [newcomers, trace, List.filter_cons]
  split_ifs <;> rfl

theorem run_eq_append (host : Host) (client : Client) (calls : List MaskCall) :
    run (stepServed host) client calls =
      client ++ (newcomers host client calls).map fullEntry := by
  induction calls generalizing client with
  | nil => simp [newcomers, trace]
  | cons call calls ih =>
    rw [run_cons, ih, newcomers_cons, stepServed_eq]
    split_ifs with h
    · rw [List.map_cons, List.append_assoc, List.singleton_append]
    · rfl

theorem clientAddrExist_of_prefix {later : Client} {saddr : In6Addr}
    (hgrow : client <+: later) (h : clientAddrExist host client saddr = true) :
    clientAddrExist host later saddr = true := by
  obtain ⟨listed, hmem, henum⟩ := clientAddrExist_iff.mp h
  exact clientAddrExist_iff.mpr ⟨listed, hgrow.subset hmem, henum⟩

theorem unknown_of_mem_newcomers {saddr : In6Addr}
    (h : saddr ∈ newcomers host client calls) : clientAddrExist host client saddr = false := by
  obtain ⟨e, he, rfl⟩ := List.mem_map.mp h
  obtain ⟨htrace, hregisters⟩ := List.mem_filter.mp he
  have hgrow := (prefix_trace host client calls).1 e htrace
  rw [registers, Bool.and_eq_true, Bool.not_eq_true', Bool.not_eq_true'] at hregisters
  by_contra hknown
  have hlater := clientAddrExist_of_prefix hgrow (Bool.eq_true_of_not_eq_false hknown)
  rw [hregisters.2] at hlater
  cases hlater

theorem newcomers_nodup (host : Host) (client : Client) (calls : List MaskCall) :
    (newcomers host client calls).Nodup := by
  induction calls generalizing client with
  | nil => exact List.nodup_nil
  | cons call calls ih =>
    rw [newcomers_cons]
    split_ifs with h
    · apply List.nodup_cons.mpr
      refine ⟨?_, ih _⟩
      intro hagain
      have hunknown := unknown_of_mem_newcomers hagain
      have hknown : clientAddrExist host (stepServed host client call) call.saddr = true := by
        rw [stepServed_eq, if_pos h]
        exact clientAddrExist_iff.mpr ⟨fullEntry call.saddr, by simp,
          (enumerates_full rfl).mpr rfl⟩
      rw [hknown] at hunknown
      cases hunknown
    · exact ih _

theorem position_of_prefix {later : Client} {saddr : In6Addr} {p : ℕ}
    (hgrow : client <+: later) (h : position host client saddr = some p) :
    position host later saddr = some p := by
  obtain ⟨more, rfl⟩ := hgrow
  exact FirstMatch.append_of_some h more

/-- Unless the call is refused for `masks_per_client` or by the capacity check, the pool has
a mask at the start of the block of the source's position. -/
def StartInPool (host : Host) (e : Client × MaskCall) : Prop :=
  e.2.masksPerClient ≠ 0 →
    WithinCapacity host (registered host true e.1 e.2.saddr) e.2.cpool →
      ∀ p, e.2.position host e.1 = some p →
        ((p * e.2.masksPerClient.toNat : ℕ) : ℤ) < (pool4Count e.2.cpool).toInt →
          p * e.2.masksPerClient.toNat < (poolMasks e.2.cpool).length

/-- With the bounds of every range in order, `pool4_count` promises no mask that the
pool lacks. -/
theorem startInPool_of_ordered {e : Client × MaskCall} (h : OrderedRanges e.2.cpool) :
    StartInPool host e := by
  intro _ _ p _ hcount
  have htrue := pool4Count_toInt_le h
  omega

theorem serve_result {call : MaskCall} {p : ℕ} (hpool : call.cpool ≠ [])
    (hzero : (call.serve host true client).1 = 0)
    (hp : call.position host client = some p)
    (hcount : ((p * call.masksPerClient.toNat : ℕ) : ℤ) < (pool4Count call.cpool).toInt)
    (hstart : p * call.masksPerClient.toNat < (poolMasks call.cpool).length) :
    (call.serve host true client).2.2 =
      (domainStart call.cpool (BitVec.ofNat 32 p) call.masksPerClient).elim spoolMask
        (offered call.cpool) := by
  have hlookup := lookup_of_serve hpool hzero
  obtain ⟨-, -, hm⟩ := clientGetMaskDomain_succeeds.mp hlookup
  have hword := BitVec.toInt_lt (x := pool4Count call.cpool)
  have hlow : p * call.masksPerClient.toNat < 2 ^ 32 := by omega
  have hp32 : p < 2 ^ 32 := position_lt hm hlow
  obtain ⟨x, hx⟩ := domainStart_isSome hm hp32 hlow hstart
  rw [serve_of_start hpool hlookup hp hx, hx]
  rfl

def BothServed (host : Host) (e e' : Client × MaskCall) : Prop :=
  e.2.saddr = e'.2.saddr ∧ (e.2.serve host true e.1).1 = 0 ∧
    (e'.2.serve host true e'.1).1 = 0

theorem BothServed.symm {e e' : Client × MaskCall} (h : BothServed host e e') :
    BothServed host e' e := ⟨h.1.symm, h.2.2, h.2.1⟩

theorem position_eq_of_stepServed {e e' : Client × MaskCall} (hpool : e.2.cpool ≠ [])
    (hlater : stepServed host e.1 e.2 <+: e'.1) (h : BothServed host e e') :
    e.2.position host e.1 = e'.2.position host e'.1 := by
  obtain ⟨hsaddr, hzero, -⟩ := h
  obtain ⟨-, hlisted, -⟩ := clientGetMaskDomain_succeeds.mp (lookup_of_serve hpool hzero)
  obtain ⟨p, hp⟩ := Option.isSome_iff_exists.mp hlisted
  have hstep : stepServed host e.1 e.2 = registered host true e.1 e.2.saddr := by
    rw [stepServed, after_eq, if_neg hpool]
  have hregister : e'.1 <+: registered host true e'.1 e'.2.saddr := by
    unfold registered
    split_ifs with hexist
    · exact List.prefix_refl _
    · exact List.prefix_append _ _
    · exact List.prefix_refl _
  rw [hstep] at hlater
  have hp' := position_of_prefix (hlater.trans hregister) hp
  rw [hsaddr] at hp'
  rw [MaskCall.position, MaskCall.position, hp, hp']

theorem position_sticky (hpool : cpool ≠ []) (hcalls : SharePool cpool m calls) :
    ∀ e ∈ trace (stepServed host) client calls,
      ∀ e' ∈ trace (stepServed host) client calls, BothServed host e e' →
        e.2.position host e.1 = e'.2.position host e'.1 := by
  have hordered : (trace (stepServed host) client calls).Pairwise fun e e' =>
      BothServed host e e' → e.2.position host e.1 = e'.2.position host e'.1 := by
    apply (prefix_trace host client calls).2.imp_of_mem
    intro e e' he _ hlater
    apply position_eq_of_stepServed _ hlater
    rw [(hcalls.of_mem_trace he).1]
    exact hpool
  have hflipped : (trace (stepServed host) client calls).Pairwise fun e' e =>
      BothServed host e e' → e.2.position host e.1 = e'.2.position host e'.1 :=
    hordered.imp fun hsame hboth => (hsame hboth.symm).symm
  intro e he e' he'
  exact hordered.forall_of_forall_of_flip (fun _ _ _ => rfl) hflipped he he'

/-- Assignment is idempotent and sticky along every run: entries stay, sources are
appended once and only while unknown, positions are final. Two successful calls for one
source give one mask, when each call's position starts inside the pool. -/
theorem assignment_sticky (host : Host) (client : Client) (hcalls : SharePool cpool m calls) :
    (run (stepServed host) client calls =
        client ++ (newcomers host client calls).map fullEntry ∧
      (newcomers host client calls).Nodup ∧
      ∀ saddr ∈ newcomers host client calls, clientAddrExist host client saddr = false) ∧
    (∀ e ∈ trace (stepServed host) client calls,
      stepServed host e.1 e.2 = e.1 ∨
        clientAddrExist host e.1 e.2.saddr = false ∧
          stepServed host e.1 e.2 = e.1 ++ [fullEntry e.2.saddr]) ∧
    (∀ before after, calls = before ++ after → ∀ saddr p,
      position host (run (stepServed host) client before) saddr = some p →
        position host (run (stepServed host) client calls) saddr = some p) ∧
    ((∀ e ∈ trace (stepServed host) client calls, StartInPool host e) →
      ∀ e ∈ trace (stepServed host) client calls,
        ∀ e' ∈ trace (stepServed host) client calls, BothServed host e e' →
          ∀ p, e.2.position host e.1 = some p →
            ((p * m.toNat : ℕ) : ℤ) < (pool4Count cpool).toInt →
              (e.2.serve host true e.1).2.2 = (e'.2.serve host true e'.1).2.2) := by
  refine ⟨⟨run_eq_append host client calls, newcomers_nodup host client calls,
    fun _ h => unknown_of_mem_newcomers h⟩, ?_, ?_, ?_⟩
  · intro e _
    rw [stepServed_eq]
    split_ifs with h
    · rw [registers, Bool.and_eq_true, Bool.not_eq_true', Bool.not_eq_true'] at h
      exact Or.inr ⟨h.2, rfl⟩
    · exact Or.inl rfl
  · rintro before after rfl saddr p hp
    rw [run_append]
    exact position_of_prefix (prefix_run host _ after) hp
  · intro hstart e he e' he' hboth p hp hcount
    obtain ⟨rfl, rfl⟩ := hcalls.of_mem_trace he
    obtain ⟨hpool', hmasks'⟩ := hcalls.of_mem_trace he'
    have hpool : e.2.cpool ≠ [] := by
      intro hempty
      rw [hempty] at hcount
      change ((p * _ : ℕ) : ℤ) < 0 at hcount
      omega
    have hp' := position_sticky hpool hcalls e he e' he' hboth
    rw [hp] at hp'
    obtain ⟨hcap, -, hm⟩ := clientGetMaskDomain_succeeds.mp (lookup_of_serve hpool hboth.2.1)
    have hlt := hstart e he hm hcap p hp hcount
    rw [serve_result hpool hboth.2.1 hp hcount hlt]
    rw [← hpool'] at hpool hcount hlt ⊢
    rw [← hmasks'] at hcount hlt ⊢
    exact (serve_result hpool hboth.2.2 hp'.symm hcount hlt).symm

theorem assignment_sticky_newcomer :
    (MaskCall.serve Host.x86 true [⟨⟨0, 0, 0, 1⟩, 128⟩]
        (MaskCall.plain ⟨0, 0, 0, 2⟩ [⟨1, 6, 9, ⟨4, 7⟩⟩] 2)).2.2 =
      (MaskCall.serve Host.x86 true [⟨⟨0, 0, 0, 1⟩, 128⟩, ⟨⟨0, 0, 0, 2⟩, 128⟩]
        { MaskCall.plain ⟨0, 0, 0, 2⟩ [⟨1, 6, 9, ⟨4, 7⟩⟩] 2 with
          maskDomain := ⟨⟨9, 4⟩, 1, 1⟩ }).2.2 :=
  (assignment_sticky Host.x86 [⟨⟨0, 0, 0, 1⟩, 128⟩]
    (by decide : SharePool [⟨1, 6, 9, ⟨4, 7⟩⟩] 2
      [MaskCall.plain ⟨0, 0, 0, 2⟩ [⟨1, 6, 9, ⟨4, 7⟩⟩] 2,
        { MaskCall.plain ⟨0, 0, 0, 2⟩ [⟨1, 6, 9, ⟨4, 7⟩⟩] 2 with
          maskDomain := ⟨⟨9, 4⟩, 1, 1⟩ }])).2.2.2
    (fun e he => startInPool_of_ordered (by
      revert e he
      decide)) _ List.mem_cons_self _ (List.mem_cons_of_mem _ List.mem_cons_self)
    ⟨rfl, by decide, by decide⟩ 1 (by decide) (by decide)

/-- 32770 ranges whose bounds are reversed, and one port. Each reversed range subtracts
65534 from `pool4_count`, which wraps around to 2147418117. -/
def reversedPool : Pool4 :=
  List.replicate 32770 ⟨0, 6, 9, ⟨65535, 0⟩⟩ ++ [⟨0, 6, 9, ⟨2, 2⟩⟩]

def pairOfClients : Client := [fullEntry ⟨0, 0, 0, 1⟩, fullEntry ⟨0, 0, 0, 2⟩]

def callOver (stack : Ipv4TransportAddr) : MaskCall :=
  { MaskCall.plain ⟨0, 0, 0, 2⟩ reversedPool 1 with maskDomain := ⟨stack, 1, 1⟩ }

theorem pool4Count_reversedPool : pool4Count reversedPool = 2147418117 := by
  rw [reversedPool, pool4Count_replicate]
  rfl

theorem poolMasks_reversedPool : poolMasks reversedPool = [⟨9, 2⟩] := by
  rw [reversedPool, poolMasks_replicate (by decide)]
  rfl

theorem serve_callOver (stack : Ipv4TransportAddr) :
    (callOver stack).serve Host.x86 true pairOfClients =
      (0, pairOfClients, offered reversedPool stack) := by
  have hpool : (callOver stack).cpool ≠ [] := by
    intro h
    have hmasks := poolMasks_reversedPool
    rw [show reversedPool = [] from h] at hmasks
    cases hmasks
  have hexist : clientAddrExist Host.x86 pairOfClients (callOver stack).saddr = true := by
    change clientAddrExist Host.x86 pairOfClients ⟨0, 0, 0, 2⟩ = true
    decide
  have hcap : WithinCapacity Host.x86 pairOfClients reversedPool := by
    rw [WithinCapacity, pool4Count_reversedPool]
    decide
  have hp : position Host.x86 pairOfClients (callOver stack).saddr = some 1 := by
    change position Host.x86 pairOfClients ⟨0, 0, 0, 2⟩ = some 1
    decide
  have hnone : domainStart reversedPool (BitVec.ofNat 32 1) 1 = none := by
    rw [domainStart_eq (by decide) (by rw [poolMasks_reversedPool]; decide) (by decide),
      poolMasks_reversedPool]
    rfl
  have hlookup : (callOver stack).lookup Host.x86 true pairOfClients =
      (0, (callOver stack).maskDomain) := by
    rw [MaskCall.lookup, registered_known hexist]
    change clientGetMaskDomain _ _ reversedPool _ _ 1 = _
    rw [clientGetMaskDomain_listed hcap hp (by decide), hnone]
    rfl
  rw [serve_eq hpool, hlookup, registered_known hexist, if_neg (not_not.mpr rfl)]
  rfl

/-- Position 1 passes the proviso, its domain is never written, and two calls in a row
get what the stack happens to suggest. -/
theorem unwrittenDomain_unstuck :
    SharePool reversedPool 1 [callOver ⟨9, 2⟩, callOver ⟨0, 0⟩] ∧
      LengthsWithin 98 128 pairOfClients ∧
      trace (stepServed Host.x86) pairOfClients [callOver ⟨9, 2⟩, callOver ⟨0, 0⟩] =
        [(pairOfClients, callOver ⟨9, 2⟩), (pairOfClients, callOver ⟨0, 0⟩)] ∧
      (callOver ⟨9, 2⟩).position Host.x86 pairOfClients = some 1 ∧
      ((1 * (1 : Word).toNat : ℕ) : ℤ) < (pool4Count reversedPool).toInt ∧
      (callOver ⟨9, 2⟩).serve Host.x86 true pairOfClients = (0, pairOfClients, ⟨9, 2⟩) ∧
      (callOver ⟨0, 0⟩).serve Host.x86 true pairOfClients = (0, pairOfClients, ⟨0, 0⟩) := by
  have hafter (stack : Ipv4TransportAddr) :
      stepServed Host.x86 pairOfClients (callOver stack) = pairOfClients := by
    rw [stepServed, MaskCall.after, serve_callOver]
  have hresult (stack x : Ipv4TransportAddr)
      (h : (if stack ∈ [(⟨9, 2⟩ : Ipv4TransportAddr)] ∧ bibdbContains4 stack = false
        then stack else spoolMask) = x) : offered reversedPool stack = x := by
    simpa only [offered, poolMasks_reversedPool] using h
  refine ⟨?_, by decide, ?_, ?_, ?_, ?_, ?_⟩
  · intro call hcall
    rcases List.mem_pair.mp hcall with rfl | rfl
    · exact ⟨rfl, rfl⟩
    · exact ⟨rfl, rfl⟩
  · rw [trace, trace, trace, hafter]
  · change position _ (registered _ _ pairOfClients ⟨0, 0, 0, 2⟩) ⟨0, 0, 0, 2⟩ = _
    decide
  · rw [pool4Count_reversedPool]
    decide
  · rw [serve_callOver, hresult _ ⟨9, 2⟩ (by decide)]
  · rw [serve_callOver, hresult _ ⟨0, 0⟩ (by decide)]

end MaskPool
