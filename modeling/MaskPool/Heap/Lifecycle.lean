import MaskPool.Heap.Refinement

/-!
# From `init` to `end`

`init` makes three static heads hold empty databases. From there on nothing faults, what
is allocated are the heads, the entries listed and the entries lost, and `end` gives
everything back.
-/

namespace MaskPool

open Rings RingStore

variable {κ σ : Type}

theorem System.runCalls_append (host : Host) (sys : System) (calls more : List (Call Bool σ)) :
    sys.runCalls host (calls ++ more) =
      ((sys.runCalls host calls).1 ++ ((sys.runCalls host calls).2.runCalls host more).1,
        ((sys.runCalls host calls).2.runCalls host more).2) := by
  induction calls generalizing sys with
  | nil => rfl
  | cons c calls ih =>
    simp only [List.cons_append, System.runCalls]
    rw [ih]

def Call.initialises : Call κ σ → Bool
  | .pool4Init _ => true
  | .clientInit => true
  | _ => false

@[simp] theorem Call.initialises_map {β : Type} (f : κ → β) (c : Call κ σ) :
    (c.map f).initialises = c.initialises := by
  cases c <;> rfl

theorem Call.loses_eq_zero {c : Call κ σ} (h : c.initialises = false) (sys : System) :
    c.loses sys = 0 := by
  cases c with
  | pool4Init name => cases h
  | clientInit => cases h
  | _ => rfl

theorem Call.losses_eq_zero {calls : List (Call Bool σ)}
    (h : ∀ c ∈ calls, c.initialises = false) (host : Host) (sys : System) :
    losses host sys calls = 0 := by
  induction calls generalizing sys with
  | nil => rfl
  | cons c calls ih =>
    rw [losses, loses_eq_zero (h c List.mem_cons_self),
      ih fun c' hc' => h c' (List.mem_cons_of_mem _ hc')]

namespace Heap

variable {Ptr : Type} {ops : Ops.{0, 0} Ptr} {laws : Laws ops} {heads : Database → Ptr}
  {mem mem' : Memory ops Object} {sys : System} {lost fuel : ℕ} {host : Host}

/-- Nothing but the three static heads is allocated; their hooks may be anything. -/
def Bare (heads : Database → Ptr) (mem : Memory ops Object) : Prop :=
  ∀ p, (mem.objects p).isSome ↔ ∃ d, p = heads d

theorem bare_of_represents_empty (h : Represents laws heads mem System.empty 0) :
    Bare heads mem := by
  obtain ⟨cells, leaked, hintact, hcells, hfinite, hlost⟩ := h
  have hleaked : leaked = ∅ := (Set.ncard_eq_zero hfinite).mp hlost
  have hnil (d : Database) : cells d = [] := by
    have hnone := hcells d
    cases d <;> simpa [System.contents, System.empty] using hnone
  intro p
  rw [hintact.accounted p, hleaked]
  simp [footprint, hnil]

variable [DecidableEq Ptr]

theorem ncard_of_represents (h : Represents laws heads mem sys lost) :
    {p | (mem.objects p).isSome}.ncard =
      3 + (sys.cpool.length + sys.spool.length + sys.client.length) + lost := by
  have huniv : (Finset.univ : Finset Database) = {.cpool, .spool, .client} := rfl
  have hcard : Fintype.card Database = 3 := rfl
  have hcount := h.ncard_allocated
  simpa [huniv, hcard, System.contents, Nat.add_assoc] using hcount

theorem runCalls_cons_eq_ok {c : Call (Option Ptr) σ} {calls : List (Call (Option Ptr) σ)}
    {answers : List (Answer σ)}
    (h : runCalls host heads fuel mem (c :: calls) = .ok (answers, mem')) :
    ∃ answer mem1 rest, call host heads fuel mem c = .ok (answer, mem1) ∧
      runCalls host heads fuel mem1 calls = .ok (rest, mem') ∧ answers = answer :: rest := by
  rw [runCalls] at h
  cases hcall : call host heads fuel mem c with
  | error fault => simp [hcall, bind, Except.bind] at h
  | ok first =>
    cases hrest : runCalls host heads fuel first.2 calls with
    | error fault => simp [hcall, bind, Except.bind, hrest] at h
    | ok rest =>
      obtain ⟨rfl, rfl⟩ : first.1 :: rest.1 = answers ∧ rest.2 = mem' := by
        simpa [hcall, bind, Except.bind, hrest, pure, Except.pure] using h
      exact ⟨first.1, first.2, rest.1, rfl, hrest, rfl⟩

theorem runCalls_append {calls more : List (Call (Option Ptr) σ)}
    {answers answers' : List (Answer σ)} {mem'' : Memory ops Object}
    (hcalls : runCalls host heads fuel mem calls = .ok (answers, mem'))
    (hmore : runCalls host heads fuel mem' more = .ok (answers', mem'')) :
    runCalls host heads fuel mem (calls ++ more) = .ok (answers ++ answers', mem'') := by
  induction calls generalizing mem answers with
  | nil =>
    obtain ⟨rfl, rfl⟩ : [] = answers ∧ mem = mem' := by simpa [runCalls] using hcalls
    exact hmore
  | cons c calls ih =>
    obtain ⟨answer, mem1, rest, hcall, hrest, rfl⟩ := runCalls_cons_eq_ok hcalls
    simp only [List.cons_append, runCalls, hcall, bind, Except.bind, ih hrest]
    rfl

theorem fresh_append {calls more : List (Call (Option Ptr) σ)} {answers : List (Answer σ)}
    (hcalls : runCalls host heads fuel mem calls = .ok (answers, mem')) :
    fresh host heads fuel mem (calls ++ more) =
      (fresh host heads fuel mem calls && fresh host heads fuel mem' more) := by
  induction calls generalizing mem answers with
  | nil =>
    obtain ⟨-, rfl⟩ : [] = answers ∧ mem = mem' := by simpa [runCalls] using hcalls
    rfl
  | cons c calls ih =>
    obtain ⟨answer, mem1, rest, hcall, hrest, rfl⟩ := runCalls_cons_eq_ok hcalls
    simp only [List.cons_append, fresh, hcall, ih hrest, Bool.and_assoc]

theorem initCalls_represents (host : Host) (fuel : ℕ) (laws : Laws ops)
    (hheads : Function.Injective heads) (hbare : Bare heads mem) :
    ∃ mem', runCalls host heads fuel mem (initCalls : List (Call (Option Ptr) σ)) =
          .ok ([.code 0, .code 0, .code 0], mem') ∧
      Represents laws heads mem' System.empty 0 := by
  let hooks1 := ops.initListHead (heads .cpool) mem.hooks
  let hooks2 := ops.initListHead (heads .spool) hooks1
  let hooks3 := ops.initListHead (heads .client) hooks2
  have hother {d d' : Database} (hd : d ≠ d') : heads d ∉ [heads d'] := by
    simpa using fun heq => hd (hheads heq)
  have hring (d : Database) : laws.Ring hooks3 (heads d) [] := by
    cases d with
    | cpool =>
      have hring1 : laws.Ring hooks1 (heads .cpool) [] := laws.init mem.hooks (heads .cpool)
      exact laws.init_other (laws.init_other hring1 (hother (by decide))) (hother (by decide))
    | spool => exact laws.init_other (laws.init hooks1 (heads .spool)) (hother (by decide))
    | client => exact laws.init hooks2 (heads .client)
  have hinit (d : Database) (hooks : ops.Hooks) :
      (⟨hooks, mem.objects⟩ : Memory ops Object).initHead (heads d) =
        .ok ⟨ops.initListHead (heads d) hooks, mem.objects⟩ :=
    if_pos ((hbare (heads d)).mpr ⟨d, rfl⟩)
  have hfirst : mem.initHead (heads .cpool) = .ok ⟨hooks1, mem.objects⟩ :=
    hinit .cpool mem.hooks
  refine ⟨⟨hooks3, mem.objects⟩, ?_, fun _ => [], ∅, ⟨hring, ?_, ?_, ?_, ?_⟩, ?_,
    Set.finite_empty, Set.ncard_empty Ptr⟩
  · simp only [initCalls, runCalls, call, pool4Init, clientInit, PoolName.database, bind,
      Except.bind, pure, Except.pure, hfirst, hinit]
    rfl
  · simp
  · intro d d' hd p hp hp'
    exact hother hd (List.mem_singleton.mp hp ▸ hp')
  · simp
  · intro p
    rw [hbare p]
    simp [footprint]
  · intro d
    cases d <;> rfl

theorem runCalls_initCalls (laws : Laws ops) (hheads : Function.Injective heads)
    (hbare : Bare heads mem) (calls : List (Call (Option Ptr) σ)) (hfuel : calls.length < fuel)
    (hfresh : fresh host heads fuel mem (initCalls ++ calls)) :
    ∃ mem', runCalls host heads fuel mem (initCalls ++ calls) =
        .ok ((System.empty.runCalls host
          (initCalls ++ calls.map (Call.map Option.isSome))).1, mem') ∧
      Represents laws heads mem'
        (System.empty.runCalls host (calls.map (Call.map Option.isSome))).2
        (Call.losses host System.empty (calls.map (Call.map Option.isSome))) := by
  obtain ⟨mem1, hinit, h1⟩ := initCalls_represents (σ := σ) host fuel laws hheads hbare
  rw [fresh_append hinit] at hfresh
  have hroom (d : Database) : (System.empty.contents d).length + calls.length < fuel := by
    cases d <;> simpa [System.contents, System.empty] using hfuel
  obtain ⟨mem', hrun, h'⟩ :=
    runCalls_refines h1 calls hroom (Bool.and_eq_true_iff.mp hfresh).2
  refine ⟨mem', ?_, by simpa using h'⟩
  rw [runCalls_append hinit hrun, System.runCalls_append]
  rfl

/-- The three heads of a doubly linked memory with addresses below 100. -/
def smallHeads : Database → ℕ
  | .cpool => 0
  | .spool => 1
  | .client => 2

def smallMemory : Memory (Links.listOps (100 : ℕ)) Object where
  hooks := { next := fun _ => 100, prev := fun _ => 100 }
  objects p := if p < 3 then some .listHead else none

/-- An entry, a registration, a failed allocation, and the entry's address used again. -/
def smallCalls : List (Call (Option ℕ) Unit) :=
  [.pool4Add .cpool 1 1 9 { min := 4, max := 5 } (some 7),
    .getMask { hdr := { saddr := { word0 := 1, word1 := 2, word2 := 3, word3 := 4 } } }
      { l3 := 0, l4 := 0 } 1 (some 8) { first := { l3 := 0, l4 := 0 }, step := 0, count := 0 },
    .pool4Add .cpool 1 1 9 { min := 4, max := 5 } none,
    .pool4Rm .cpool 1 1 9 { min := 4, max := 5 },
    .pool4Add .spool 1 1 9 { min := 4, max := 5 } (some 7)]

theorem smallHeads_injective : Function.Injective smallHeads := by
  intro d d' h
  cases d <;> cases d' <;> first | rfl | cases h

theorem smallMemory_bare : Bare smallHeads smallMemory := by
  intro p
  constructor
  · intro h
    have hlt : p < 3 := by
      by_contra hge
      simp [smallMemory, hge] at h
    interval_cases p
    · exact ⟨.cpool, rfl⟩
    · exact ⟨.spool, rfl⟩
    · exact ⟨.client, rfl⟩
  · rintro ⟨d, rfl⟩
    cases d <;> rfl

/-- The linked databases refine the lists: after `init` any sequence of calls runs without
a fault, with the answers it has on lists, into a memory that holds the lists it leads to. -/
theorem calls_refine_lists (laws : Laws ops) (hheads : Function.Injective heads)
    (hbare : Bare heads mem) (calls : List (Call (Option Ptr) σ)) (hfuel : calls.length < fuel)
    (hfresh : fresh host heads fuel mem (initCalls ++ calls)) :
    ∃ mem' lost, runCalls host heads fuel mem (initCalls ++ calls) =
        .ok ((System.empty.runCalls host
          (initCalls ++ calls.map (Call.map Option.isSome))).1, mem') ∧
      Represents laws heads mem'
        (System.empty.runCalls host (calls.map (Call.map Option.isSome))).2 lost := by
  obtain ⟨mem', hrun, h'⟩ := runCalls_initCalls laws hheads hbare calls hfuel hfresh
  exact ⟨mem', _, hrun, h'⟩

theorem calls_refine_lists_smallCalls :
    ∃ mem' lost, runCalls Host.x86 smallHeads 6 smallMemory (initCalls ++ smallCalls) =
        .ok ((System.empty.runCalls Host.x86
          (initCalls ++ smallCalls.map (Call.map Option.isSome))).1, mem') ∧
      Represents (Links.laws 100) smallHeads mem'
        (System.empty.runCalls Host.x86 (smallCalls.map (Call.map Option.isSome))).2 lost :=
  calls_refine_lists (Links.laws 100) smallHeads_injective smallMemory_bare smallCalls
    (by decide) (by decide)

/-- What is allocated after a run: three heads, the entries listed, and what the calls that
initialised a head once more found on it. -/
theorem allocations_accounted (laws : Laws ops) (hheads : Function.Injective heads)
    (hbare : Bare heads mem) (calls : List (Call (Option Ptr) σ)) (hfuel : calls.length < fuel)
    (hfresh : fresh host heads fuel mem (initCalls ++ calls)) :
    ∃ answers mem', runCalls host heads fuel mem (initCalls ++ calls) = .ok (answers, mem') ∧
      let sys := (System.empty.runCalls host (calls.map (Call.map Option.isSome))).2
      {p | (mem'.objects p).isSome}.ncard =
        3 + (sys.cpool.length + sys.spool.length + sys.client.length) +
          Call.losses host System.empty (calls.map (Call.map Option.isSome)) := by
  obtain ⟨mem', hrun, h'⟩ := runCalls_initCalls laws hheads hbare calls hfuel hfresh
  exact ⟨_, mem', hrun, ncard_of_represents h'⟩

theorem allocations_accounted_smallCalls :
    ∃ answers mem', runCalls Host.x86 smallHeads 6 smallMemory (initCalls ++ smallCalls) =
        .ok (answers, mem') ∧
      let sys := (System.empty.runCalls Host.x86 (smallCalls.map (Call.map Option.isSome))).2
      {p | (mem'.objects p).isSome}.ncard =
        3 + (sys.cpool.length + sys.spool.length + sys.client.length) +
          Call.losses Host.x86 System.empty (smallCalls.map (Call.map Option.isSome)) :=
  allocations_accounted (Links.laws 100) smallHeads_injective smallMemory_bare smallCalls
    (by decide) (by decide)

end Heap

end MaskPool
