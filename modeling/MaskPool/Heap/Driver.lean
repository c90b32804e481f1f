import MaskPool.Clients.Addresses
import MaskPool.Foundations.FirstMatch
import MaskPool.Heap.Lifecycle
import MaskPool.Model.Driver

/-!
# The tests do not see each other

`init` succeeds exactly when each of its fourteen requests for memory does. Then the test
function runs on the databases `init` fills from nothing, and `end` gives everything back;
so what comes of a test is a matter of that test alone. Behind an `init` that fails the
entries it has added stay allocated.
-/

namespace MaskPool

open Rings RingStore

variable {κ σ : Type} {host : Host}

theorem map_fill {α β : Type} (f : κ → β) {request : α → κ → List (Call κ σ)}
    {request' : α → β → List (Call β σ)}
    (hrequest : ∀ x answer, (request x answer).map (Call.map f) = request' x (f answer))
    (kmalloc : ℕ → κ) (k : ℕ) (xs : List α) :
    (fill request kmalloc k xs).map (Call.map f) = fill request' (f ∘ kmalloc) k xs := by
  induction xs generalizing k with
  | nil => rfl
  | cons x rest ih =>
    rw [fill, fill, List.map_append, hrequest, ih]
    rfl

/-- The entries of the three databases. -/
def System.listed (sys : System) : ℕ := sys.cpool.length + sys.spool.length + sys.client.length

/-- The checks of a request pass exactly when memory is granted, and then one entry more is
listed. -/
def AddsOne (host : Host) (request : List (Call Bool σ)) (granted : Bool) : Prop :=
  ∀ sys : System, (sys.runCalls host request).1.all Answer.asserted = granted ∧
    (sys.runCalls host request).2.listed = sys.listed + if granted then 1 else 0

theorem runCalls_fill {α : Type} {request : α → Bool → List (Call Bool σ)} {xs : List α}
    (hrequest : ∀ x ∈ xs, ∀ granted, AddsOne host (request x granted) granted)
    (kmalloc : ℕ → Bool) (k : ℕ) (sys : System) :
    let filled := sys.runCalls host (fill request kmalloc k xs)
    filled.1.all Answer.asserted = (List.range' k xs.length).all kmalloc ∧
      filled.2.listed = sys.listed + (List.range' k xs.length).countP kmalloc := by
  induction xs generalizing k sys with
  | nil => exact ⟨rfl, rfl⟩
  | cons x rest ih =>
    obtain ⟨hfirst, hrest⟩ := List.forall_mem_cons.mp hrequest
    obtain ⟨hall, hlisted⟩ := hfirst (kmalloc k) sys
    obtain ⟨hall', hlisted'⟩ := ih hrest (k + 1) (sys.runCalls host (request x (kmalloc k))).2
    rw [fill, System.runCalls_append, List.length_cons, List.range'_succ]
    constructor
    · rw [List.all_append, List.all_cons, hall, hall']
    · rw [hlisted', hlisted, List.countP_cons, Nat.add_assoc, Nat.add_comm (ite _ _ _)]

theorem addEntry_addsOne (host : Host) (entry : Pool4Entry) (granted : Bool) :
    AddsOne host (addEntry entry granted : List (Call Bool σ)) granted := by
  intro sys
  cases granted with
  | false => exact ⟨rfl, rfl⟩
  | true =>
    have hcontains : pool4Contains (sys.cpool ++ [entry]) entry.mark entry.proto entry.addr
        entry.range = true := by
      rw [pool4Contains, List.any_append]
      simp [pool4Compare]
    have hrun : sys.runCalls host (addEntry entry true : List (Call Bool σ)) =
        ([.code 0, .truth (pool4Contains (sys.cpool ++ [entry]) entry.mark entry.proto entry.addr
          entry.range)], { sys with cpool := sys.cpool ++ [entry] }) := rfl
    rw [hrun, hcontains]
    refine ⟨rfl, ?_⟩
    simp only [System.listed, List.length_append, List.length_singleton, if_true]
    omega

theorem addPrefix_addsOne (host : Host) {prefix6 : Ipv6Prefix} (hlo : 97 ≤ prefix6.len.toNat)
    (hhi : prefix6.len.toNat ≤ 128) (granted : Bool) :
    AddsOne host (addPrefix prefix6 granted : List (Call Bool σ)) granted := by
  intro sys
  cases granted with
  | false => exact ⟨rfl, rfl⟩
  | true =>
    have hexist : clientAddrExist host (sys.client ++ [prefix6]) prefix6.address = true := by
      refine clientAddrExist_iff.mpr ⟨prefix6, by simp, enumerates_iff.mpr ⟨rfl, le_rfl, ?_⟩⟩
      rw [getAddr6Count_toNat (by omega) hhi]
      exact Nat.lt_add_of_pos_right (Nat.two_pow_pos _)
    have hrun : sys.runCalls host (addPrefix prefix6 true : List (Call Bool σ)) =
        ([.code 0, .truth (clientAddrExist host (sys.client ++ [prefix6]) prefix6.address)],
          { sys with client := sys.client ++ [prefix6] }) := rfl
    rw [hrun, hexist]
    refine ⟨rfl, ?_⟩
    simp only [System.listed, List.length_append, List.length_singleton, if_true]
    omega

theorem lengths_prefixes (host : Host) : LengthsWithin 97 128 (prefixes host) := by
  have hlens : (prefixes host).map Ipv6Prefix.len = [128, 122, 127, 126, 127, 128, 128] := rfl
  have hbounds : ∀ len ∈ ([128, 122, 127, 126, 127, 128, 128] : List (BitVec 8)),
      97 ≤ len.toNat ∧ len.toNat ≤ 128 := by decide
  intro listed hlisted
  exact hbounds _ (hlens ▸ List.mem_map_of_mem hlisted)

/-- `init` succeeds exactly when none of its requests is refused, and lists as many entries
as are granted. -/
theorem runCalls_init (host : Host) (kmalloc : ℕ → Bool) :
    let filled := System.empty.runCalls host (init host kmalloc : List (Call Bool σ))
    filled.1.all Answer.asserted = (List.range 14).all kmalloc ∧
      filled.2.listed = (List.range 14).countP kmalloc := by
  let entries : List (Call Bool σ) := fill addEntry kmalloc 0 (nodes host)
  let clients : List (Call Bool σ) := fill addPrefix kmalloc 7 (prefixes host)
  obtain ⟨hentries, hlisted⟩ := runCalls_fill (σ := σ)
    (fun entry (_ : entry ∈ nodes host) => addEntry_addsOne host entry) kmalloc 0 System.empty
  obtain ⟨hclients, hlisted'⟩ := runCalls_fill (σ := σ)
    (fun listed (hlisted : listed ∈ prefixes host) =>
      addPrefix_addsOne host (lengths_prefixes host listed hlisted).1
        (lengths_prefixes host listed hlisted).2)
    kmalloc 7 (System.empty.runCalls host entries).2
  have hrange : List.range 14 = List.range' 0 7 ++ List.range' 7 7 := rfl
  have hrun : System.empty.runCalls host (init host kmalloc : List (Call Bool σ)) =
      (.code 0 :: .code 0 :: .code 0 :: (System.empty.runCalls host (entries ++ clients)).1,
        (System.empty.runCalls host (entries ++ clients)).2) := rfl
  rw [hrun, System.runCalls_append, hrange, List.all_append, List.countP_append]
  constructor
  · rw [List.all_cons, List.all_cons, List.all_cons, List.all_append, hentries, hclients]
    rfl
  · rw [hlisted', hlisted]
    exact Nat.zero_add _ ▸ rfl

def Round.map {β : Type} (f : κ → β) (round : Round κ σ) : Round β σ where
  kmalloc := f ∘ round.kmalloc
  calls := round.calls.map (Call.map f)
  success := round.success

/-- What comes of a test on databases that are lists and start out empty. -/
def Round.alone (host : Host) (round : Round Bool σ) : Verdict :=
  let (answers, sys) := System.empty.runCalls host (init host round.kmalloc : List (Call Bool σ))
  if !answers.all Answer.asserted then .refused
  else
    let (answers, _) := sys.runCalls host round.calls
    if answers.any Answer.isFault then .killed else .called (round.success answers)

theorem Round.alone_eq (host : Host) (round : Round Bool σ) :
    let filled := System.empty.runCalls host (init host round.kmalloc : List (Call Bool σ))
    let tested := filled.2.runCalls host round.calls
    round.alone host =
      if !filled.1.all Answer.asserted then .refused
      else if tested.1.any Answer.isFault then .killed else .called (round.success tested.1) := rfl

/-- How the driver ends when its tests come out like this. -/
def ending : List Verdict → ℕ → ℕ → Ending
  | [], testCounter, failureCounter =>
    .returned (if 0 < failureCounter then -EINVAL else 0) testCounter failureCounter
  | .refused :: _, testCounter, failureCounter =>
    .returned (-EINVAL) testCounter failureCounter
  | .killed :: _, _, _ => .killed
  | .called success :: rest, testCounter, failureCounter =>
    ending rest (testCounter + 1) (if success then failureCounter else failureCounter + 1)

theorem Round.alone_refused_iff {round : Round Bool σ} :
    round.alone host = .refused ↔ ∃ k < 14, round.kmalloc k = false := by
  have hall : (List.range 14).all round.kmalloc = false ↔ ∃ k < 14, round.kmalloc k = false := by
    simp
  rw [← hall, ← (runCalls_init (σ := σ) host round.kmalloc).1, alone_eq]
  split_ifs with hrefused hkilled <;> simpa using hrefused

theorem Round.map_refused_iff (host : Host) (round : Round (Option κ) σ) :
    (round.map Option.isSome).alone host = .refused ↔ ∃ k < 14, round.kmalloc k = none := by
  simp [alone_refused_iff, Round.map]

theorem Call.losses_map (f : κ → Bool) {calls : List (Call κ σ)}
    (hinits : ∀ c ∈ calls, c.initialises = false) (host : Host) (sys : System) :
    losses host sys (calls.map (Call.map f)) = 0 := by
  refine losses_eq_zero (fun c hc => ?_) host sys
  obtain ⟨c', hc', rfl⟩ := List.mem_map.mp hc
  rw [initialises_map, hinits c' hc']

namespace Heap

variable {Ptr : Type} {ops : Ops.{0, 0} Ptr} {laws : Laws ops} {heads : Database → Ptr}
  {mem mem' : Memory ops Object} {sys : System} {lost fuel : ℕ} [DecidableEq Ptr]

/-- Throughout the round `kmalloc` answers with addresses that are not in use. -/
def roundFresh (host : Host) (heads : Database → Ptr) (fuel : ℕ) (mem : Memory ops Object)
    (round : Round (Option Ptr) σ) : Bool :=
  fresh host heads fuel mem (init host round.kmalloc : List (Call (Option Ptr) σ)) &&
    match runCalls host heads fuel mem
        (init host round.kmalloc : List (Call (Option Ptr) σ)) with
    | .ok (answers, mem) =>
      !answers.all Answer.asserted || fresh host heads fuel mem round.calls
    | .error _ => true

def driverFresh (host : Host) (heads : Database → Ptr) (fuel : ℕ) :
    List (Round (Option Ptr) σ) → Memory ops Object → Bool
  | [], _ => true
  | round :: rounds, mem =>
    roundFresh host heads fuel mem round &&
      match initCallEnd host heads fuel round mem with
      | .ok (.called _, mem) => driverFresh host heads fuel rounds mem
      | _ => true

theorem runCalls_init_represents (host : Host) (laws : Laws ops)
    (hheads : Function.Injective heads) (hbare : Bare heads mem) (kmalloc : ℕ → Option Ptr)
    (hfuel : 28 < fuel)
    (hfresh : fresh host heads fuel mem (init host kmalloc : List (Call (Option Ptr) σ))) :
    ∃ mem', runCalls host heads fuel mem (init host kmalloc : List (Call (Option Ptr) σ)) =
        .ok ((System.empty.runCalls host (init host (Option.isSome ∘ kmalloc))).1, mem') ∧
      Represents laws heads mem' (System.empty.runCalls host
        (init host (Option.isSome ∘ kmalloc) : List (Call Bool σ))).2 0 := by
  let filling : List (Call (Option Ptr) σ) :=
    fill addEntry kmalloc 0 (nodes host) ++ fill addPrefix kmalloc 7 (prefixes host)
  have hlength : filling.length = 28 := rfl
  have hmap : filling.map (Call.map Option.isSome) =
      fill addEntry (Option.isSome ∘ kmalloc) 0 (nodes host) ++
        fill addPrefix (Option.isSome ∘ kmalloc) 7 (prefixes host) := by
    rw [List.map_append]
    exact congrArg₂ (· ++ ·) (map_fill Option.isSome (fun _ _ => rfl) kmalloc 0 (nodes host))
      (map_fill Option.isSome (fun _ _ => rfl) kmalloc 7 (prefixes host))
  have hlosses : Call.losses host System.empty (filling.map (Call.map Option.isSome)) = 0 := by
    have hnone : filling.map Call.initialises = List.replicate 28 false := rfl
    exact Call.losses_map _ (fun c hc =>
      List.eq_of_mem_replicate (hnone ▸ List.mem_map_of_mem hc)) host System.empty
  obtain ⟨mem', hrun, h'⟩ :=
    runCalls_initCalls laws hheads hbare filling (hlength ▸ hfuel) hfresh
  rw [hlosses] at h'
  rw [hmap] at hrun h'
  exact ⟨mem', hrun, h'⟩

theorem length_runCalls_le (host : Host) (sys : System) (calls : List (Call Bool σ))
    (d : Database) :
    ((sys.runCalls host calls).2.contents d).length ≤ (sys.contents d).length + calls.length := by
  induction calls generalizing sys with
  | nil => exact le_rfl
  | cons c calls ih =>
    have hstep := length_call_le host sys c d
    have hrest := ih (sys.call host c).2
    rw [List.length_cons]
    exact hrest.trans (by omega)

theorem fresh_of_kmalloc_none {calls : List (Call (Option Ptr) σ)}
    (h : ∀ c ∈ calls, c.kmalloc = none) (mem : Memory ops Object) :
    fresh host heads fuel mem calls := by
  induction calls generalizing mem with
  | nil => rfl
  | cons c calls ih =>
    rw [fresh, freshAnswer, h c List.mem_cons_self]
    cases call host heads fuel mem c with
    | error fault => rfl
    | ok first => exact ih (fun c' hc' => h c' (List.mem_cons_of_mem _ hc')) first.2

theorem runCalls_endCalls (h : Represents laws heads mem sys 0)
    (hsmall : ∀ d, (sys.contents d).length ≤ 31) {calls : List (Call (Option Ptr) σ)}
    (hinits : ∀ c ∈ calls, c.initialises = false) (hfuel : calls.length + 34 < fuel)
    (hfresh : fresh host heads fuel mem calls) :
    ∃ mem1 answers mem2, runCalls host heads fuel mem calls =
        .ok ((sys.runCalls host (calls.map (Call.map Option.isSome))).1, mem1) ∧
      runCalls host heads fuel mem1 (endCalls : List (Call (Option Ptr) σ)) =
        .ok (answers, mem2) ∧ Bare heads mem2 := by
  have hroom (d : Database) : (sys.contents d).length + calls.length < fuel := by
    have hle := hsmall d
    omega
  obtain ⟨mem1, hrun, h1⟩ := runCalls_refines h calls hroom hfresh
  rw [Call.losses_map _ hinits] at h1
  have hroom' (d : Database) : ((sys.runCalls host (calls.map (Call.map Option.isSome))).2.contents
      d).length + (endCalls : List (Call (Option Ptr) σ)).length < fuel := by
    have hle := hsmall d
    have hgrown := length_runCalls_le host sys (calls.map (Call.map Option.isSome)) d
    rw [List.length_map] at hgrown
    have hend : (endCalls : List (Call (Option Ptr) σ)).length = 3 := rfl
    omega
  have hend : fresh host heads fuel mem1 (endCalls : List (Call (Option Ptr) σ)) :=
    fresh_of_kmalloc_none (by simp [endCalls, Call.kmalloc]) mem1
  obtain ⟨mem2, hflushed, h2⟩ := runCalls_refines h1 endCalls hroom' hend
  exact ⟨mem1, _, mem2, hrun, hflushed, bare_of_represents_empty h2⟩

theorem initCallEnd_refines (laws : Laws ops) (hheads : Function.Injective heads)
    (hbare : Bare heads mem) (round : Round (Option Ptr) σ)
    (hinits : ∀ c ∈ round.calls, c.initialises = false) (hfuel : round.calls.length + 34 < fuel)
    (hfresh : roundFresh host heads fuel mem round) :
    ∃ mem', initCallEnd host heads fuel round mem =
        .ok ((round.map Option.isSome).alone host, mem') ∧
      (∀ success, (round.map Option.isSome).alone host = .called success → Bare heads mem') ∧
      ((round.map Option.isSome).alone host = .refused →
        {p | (mem'.objects p).isSome}.ncard =
          3 + (List.range 14).countP fun k => (round.kmalloc k).isSome) := by
  let list := round.map Option.isSome
  let filled := System.empty.runCalls host (init host list.kmalloc : List (Call Bool σ))
  have halone := list.alone_eq host
  obtain ⟨hinit, hrest⟩ := Bool.and_eq_true_iff.mp hfresh
  obtain ⟨mem1, hrun1, h1⟩ := runCalls_init_represents host laws hheads hbare
    round.kmalloc (by omega) hinit
  have hsmall (d : Database) : (filled.2.contents d).length ≤ 31 := by
    have hle := length_runCalls_le host System.empty
      (init host list.kmalloc : List (Call Bool σ)) d
    cases d <;> exact hle
  change runCalls host heads fuel mem _ = .ok (filled.1, mem1) at hrun1
  change Represents laws heads mem1 filled.2 0 at h1
  rw [hrun1] at hrest
  cases hasserted : filled.1.all Answer.asserted with
  | false =>
    have hrefused : (round.map Option.isSome).alone host = .refused :=
      halone.trans (if_pos (by rw [hasserted]; rfl))
    rw [hrefused]
    refine ⟨mem1, ?_, ?_, ?_⟩
    · simp only [initCallEnd, hrun1, bind, Except.bind, hasserted]
      rfl
    · intro success hcalled
      cases hcalled
    · intro _
      rw [ncard_of_represents h1, Nat.add_zero]
      exact congrArg (3 + ·) (runCalls_init host list.kmalloc).2
  | true =>
    have hpassed : ¬(!filled.1.all Answer.asserted) = true := by simp [hasserted]
    have hcalls : fresh host heads fuel mem1 round.calls := by simpa [hasserted] using hrest
    obtain ⟨mem2, answers, mem3, htest, hend, hbare'⟩ :=
      runCalls_endCalls h1 hsmall hinits hfuel hcalls
    cases hkilled : (filled.2.runCalls host
        (round.calls.map (Call.map Option.isSome))).1.any Answer.isFault with
    | true =>
      have hverdict : (round.map Option.isSome).alone host = .killed :=
        halone.trans ((if_neg hpassed).trans (if_pos hkilled))
      rw [hverdict]
      refine ⟨mem2, ?_, ?_, ?_⟩
      · simp only [initCallEnd, hrun1, htest, bind, Except.bind, hasserted, hkilled]
        rfl
      · intro success hcalled
        cases hcalled
      · intro hrefused
        cases hrefused
    | false =>
      have hverdict : (round.map Option.isSome).alone host = .called _ :=
        halone.trans ((if_neg hpassed).trans (if_neg (Bool.eq_false_iff.mp hkilled)))
      rw [hverdict]
      refine ⟨mem3, ?_, fun _ _ => hbare', ?_⟩
      · simp only [initCallEnd, hrun1, htest, hend, bind, Except.bind, hasserted, hkilled]
        rfl
      · intro hrefused
        cases hrefused

/-- `nat64_init` with any number of tests of any content: what comes of a test is what comes
of it alone. Behind the last test nothing but the heads is allocated; behind an `init` that
fails the entries stay that it has got memory for. -/
theorem tests_isolated (laws : Laws ops) (hheads : Function.Injective heads)
    (hbare : Bare heads mem) (rounds : List (Round (Option Ptr) σ))
    (hinits : ∀ round ∈ rounds, ∀ c ∈ round.calls, c.initialises = false)
    (hfuel : ∀ round ∈ rounds, round.calls.length + 34 < fuel)
    (hfresh : driverFresh host heads fuel rounds mem) (testCounter failureCounter : ℕ) :
    let alone (round : Round (Option Ptr) σ) : Verdict := (round.map Option.isSome).alone host
    (∀ round, alone round = .refused ↔ ∃ k < 14, round.kmalloc k = none) ∧
    ∃ mem', nat64Init host heads fuel rounds testCounter failureCounter mem =
        .ok (ending (rounds.map alone) testCounter failureCounter, mem') ∧
      ((∀ round ∈ rounds, ∃ success, alone round = .called success) → Bare heads mem') ∧
      ∀ before round after, rounds = before ++ round :: after →
        (∀ earlier ∈ before, ∃ success, alone earlier = .called success) →
          alone round = .refused →
            {p | (mem'.objects p).isSome}.ncard =
              3 + (List.range 14).countP fun k => (round.kmalloc k).isSome := by
  refine ⟨Round.map_refused_iff host, ?_⟩
  dsimp only
  induction rounds generalizing mem testCounter failureCounter with
  | nil =>
    refine ⟨mem, rfl, fun _ => hbare, ?_⟩
    intro before round after hsplit
    simp at hsplit
  | cons round rounds ih =>
    obtain ⟨hinit, hinits⟩ := List.forall_mem_cons.mp hinits
    obtain ⟨hroom, hfuel⟩ := List.forall_mem_cons.mp hfuel
    obtain ⟨hfirst, hrest⟩ := Bool.and_eq_true_iff.mp hfresh
    obtain ⟨mem1, hround, hcalled, hrefused⟩ :=
      initCallEnd_refines laws hheads hbare round hinit hroom hfirst
    rw [hround] at hrest
    rw [List.map_cons]
    cases hverdict : (round.map Option.isSome).alone host with
    | refused =>
      have huncalled : ¬∃ success, (round.map Option.isSome).alone host = .called success := by
        simp [hverdict]
      refine ⟨mem1, ?_, ?_, ?_⟩
      · simp only [nat64Init, hround, hverdict, bind, Except.bind]
        rfl
      · intro hall
        exact absurd (hall round List.mem_cons_self) huncalled
      · intro before round' after hsplit hbefore _
        obtain rfl := FirstMatch.eq_head_of_split hbefore hsplit huncalled
        exact hrefused hverdict
    | killed =>
      have huncalled : ¬∃ success, (round.map Option.isSome).alone host = .called success := by
        simp [hverdict]
      refine ⟨mem1, ?_, ?_, ?_⟩
      · simp only [nat64Init, hround, hverdict, bind, Except.bind]
        rfl
      · intro hall
        exact absurd (hall round List.mem_cons_self) huncalled
      · intro before round' after hsplit hbefore hlast
        obtain rfl := FirstMatch.eq_head_of_split hbefore hsplit huncalled
        cases hverdict.symm.trans hlast
    | called success =>
      rw [hverdict] at hrest
      obtain ⟨mem', hrun, hbare', hkept⟩ := ih (hcalled success hverdict) hinits hfuel hrest
        (testCounter + 1) (if success then failureCounter else failureCounter + 1)
      refine ⟨mem', ?_, ?_, ?_⟩
      · simp only [nat64Init, hround, hverdict, bind, Except.bind]
        exact hrun
      · intro hall
        exact hbare' fun later hlater => hall later (List.mem_cons_of_mem _ hlater)
      · intro before round' after hsplit hbefore hlast
        cases before with
        | nil =>
          obtain ⟨rfl, -⟩ := List.cons.inj hsplit
          cases hverdict.symm.trans hlast
        | cons first before =>
          have htail : rounds = before ++ round' :: after := (List.cons.inj hsplit).2
          exact hkept before round' after htail
            (fun earlier hearlier => hbefore earlier (List.mem_cons_of_mem _ hearlier)) hlast

/-- In the second of these tests the fourth request of `init` gets no memory. -/
def smallRounds : List (Round (Option ℕ) Unit) :=
  [{ kmalloc := fun k => some (10 + k), calls := smallCalls, success := fun _ => true },
    { kmalloc := fun k => if k = 3 then none else some (10 + k), calls := smallCalls,
      success := fun _ => true }]

theorem tests_isolated_smallRounds :
    ∃ mem', nat64Init Host.x86 smallHeads 40 smallRounds 0 0 smallMemory =
        .ok (.returned (-22) 1 0, mem') ∧
      {p | (mem'.objects p).isSome}.ncard = 3 + 13 := by
  have hfresh : driverFresh Host.x86 smallHeads 40 smallRounds smallMemory := by decide +kernel
  obtain ⟨-, mem', hrun, -, hkept⟩ :=
    tests_isolated (Links.laws 100) smallHeads_injective smallMemory_bare smallRounds
      (by decide) (by decide) hfresh 0 0
  have hverdicts : smallRounds.map (fun round => (round.map Option.isSome).alone Host.x86) =
      [.called true, .refused] := by decide +kernel
  rw [hverdicts] at hrun
  refine ⟨mem', hrun, ?_⟩
  have hcalled : ∃ success,
      (smallRounds[0].map Option.isSome).alone Host.x86 = .called success :=
    ⟨true, by decide +kernel⟩
  exact hkept [smallRounds[0]] smallRounds[1] [] rfl (List.forall_mem_singleton.mpr hcalled)
    (by decide +kernel)

end Heap

end MaskPool
