import MaskPool.Foundations.RingLoops

/-!
# What the rings of a memory hold

The contents of an intact memory without its addresses: every operation of `RingStore`
as a change to the lists of objects on the rings, and the number of objects allocated.
-/

namespace MaskPool.RingStore

open Rings

variable {Ptr : Type} {ops : Ops.{0, 0} Ptr} {Obj α τ ρ δ : Type} {laws : Laws ops}
  {heads : δ → Ptr} {mem : Memory ops Obj}

/-- The contents of each ring, whatever the addresses, and how many objects have leaked. -/
def Holds (laws : Laws ops) (heads : δ → Ptr) (mem : Memory ops Obj) (contents : δ → List Obj)
    (lost : ℕ) : Prop :=
  ∃ cells leaked, Intact laws heads mem cells leaked ∧
    (∀ d, (cells d).map Prod.snd = contents d) ∧ leaked.Finite ∧ leaked.ncard = lost

namespace Holds

variable {contents contents' : δ → List Obj} {lost fuel : ℕ} {d : δ} {read : Obj → Option α}
  {make : α → Obj} {xs : List α} {s : τ}

theorem length_eq {cells : δ → List (Ptr × Obj)} (hcells : (cells d).map Prod.snd = contents d)
    (hxs : contents d = xs.map make) : (cells d).length = xs.length := by
  have hlength := congrArg List.length (hcells.trans hxs)
  simpa using hlength

theorem map_read {cells : δ → List (Ptr × Obj)} (hcells : (cells d).map Prod.snd = contents d)
    (hxs : contents d = xs.map make) (hread : ∀ a, read (make a) = some a) :
    (cells d).map (fun c => read c.2) = xs.map some := by
  have hmap := congrArg (List.map read) (hcells.trans hxs)
  rw [List.map_map, List.map_map] at hmap
  rw [show (fun c : Ptr × Obj => read c.2) = read ∘ Prod.snd from rfl, hmap]
  exact List.map_congr_left fun a _ => hread a

theorem isSome_read {cells : δ → List (Ptr × Obj)}
    (hcells : (cells d).map Prod.snd = contents d) (hxs : contents d = xs.map make)
    (hread : ∀ a, read (make a) = some a) : ∀ c ∈ cells d, (read c.2).isSome := by
  intro c hc
  have hmem : c.2 ∈ xs.map make := by
    rw [← hxs, ← hcells]
    exact List.mem_map_of_mem hc
  obtain ⟨a, -, ha⟩ := List.mem_map.mp hmem
  rw [← ha, hread]
  rfl

theorem update [DecidableEq δ] {cells : δ → List (Ptr × Obj)} {ys : List (Ptr × Obj)} {zs : List Obj}
    (hcells : ∀ d, (cells d).map Prod.snd = contents d) (hys : ys.map Prod.snd = zs)
    (hcontents : contents' = Function.update contents d zs) (d' : δ) :
    (Function.update cells d ys d').map Prod.snd = contents' d' := by
  subst hcontents
  by_cases hd : d' = d
  · subst hd
    rw [Function.update_self, Function.update_self, hys]
  · rw [Function.update_of_ne hd, Function.update_of_ne hd, hcells]

variable [DecidableEq Ptr]

theorem forEach_eq (h : Holds laws heads mem contents lost) (hxs : contents d = xs.map make)
    (hread : ∀ a, read (make a) = some a) (body : τ → α → Except ρ τ)
    (hfuel : xs.length < fuel) :
    mem.forEach read body (heads d) fuel s = .ok (xs.foldlM body s) := by
  obtain ⟨cells, leaked, hintact, hcells, -⟩ := h
  exact RingStore.forEach_eq hintact body (map_read (hcells d) hxs hread) hfuel

theorem fold_eq (h : Holds laws heads mem contents lost) (hxs : contents d = xs.map make)
    (hread : ∀ a, read (make a) = some a) (f : τ → α → τ) (hfuel : xs.length < fuel) :
    mem.fold read f (heads d) fuel s = .ok (xs.foldl f s) := by
  obtain ⟨cells, leaked, hintact, hcells, -⟩ := h
  exact RingStore.fold_eq hintact f (map_read (hcells d) hxs hread) hfuel

theorem search_eq (h : Holds laws heads mem contents lost) (hxs : contents d = xs.map make)
    (hread : ∀ a, read (make a) = some a) (test : α → Bool) (hfuel : xs.length < fuel) :
    mem.search read test (heads d) fuel = .ok (xs.any test) := by
  obtain ⟨cells, leaked, hintact, hcells, -⟩ := h
  exact RingStore.search_eq hintact test (map_read (hcells d) hxs hread) hfuel

theorem isEmpty_eq (h : Holds laws heads mem contents lost) (d : δ) :
    mem.isEmpty (heads d) = .ok (contents d).isEmpty := by
  obtain ⟨cells, leaked, hintact, hcells, -⟩ := h
  rw [RingStore.isEmpty_eq hintact, ← hcells d, List.isEmpty_map]

variable [DecidableEq δ]

theorem insert (h : Holds laws heads mem contents lost) {new : Ptr} {obj : Obj}
    (hnew : mem.objects new = none)
    (hcontents : contents' = Function.update contents d (contents d ++ [obj])) :
    ∃ mem', mem.insert (heads d) new obj = .ok mem' ∧
      Holds laws heads mem' contents' lost := by
  obtain ⟨cells, leaked, hintact, hcells, hlost⟩ := h
  obtain ⟨mem', hinsert, hintact'⟩ := hintact.insert hnew d obj
  have hys : (cells d ++ [(new, obj)]).map Prod.snd = contents d ++ [obj] := by
    rw [List.map_append, hcells]
    rfl
  exact ⟨mem', hinsert, _, leaked, hintact', update hcells hys hcontents, hlost⟩

theorem initHead (h : Holds laws heads mem contents lost)
    (hcontents : contents' = Function.update contents d []) :
    ∃ mem', mem.initHead (heads d) = .ok mem' ∧
      Holds laws heads mem' contents' (lost + (contents d).length) := by
  obtain ⟨cells, leaked, hintact, hcells, hfinite, hlost⟩ := h
  obtain ⟨mem', hinit, -, hintact'⟩ := hintact.initHead d
  have hforgot : {p | p ∈ (cells d).map Prod.fst} = ((cells d).map Prod.fst).toFinset := by
    ext p
    simp
  have hnodup := (List.nodup_cons.mp (laws.nodup (hintact.ring d))).2
  refine ⟨mem', hinit, _, _, hintact', update hcells rfl hcontents, ?_, ?_⟩
  · rw [hforgot]
    exact hfinite.union (Finset.finite_toSet _)
  · have hdisjoint : Disjoint leaked {p | p ∈ (cells d).map Prod.fst} := by
      rw [Set.disjoint_left]
      intro p hleaked hp
      exact hintact.lost d p (List.mem_cons_of_mem _ hp) hleaked
    rw [hforgot] at hdisjoint ⊢
    rw [Set.ncard_union_eq hdisjoint hfinite (Finset.finite_toSet _), hlost,
      Set.ncard_coe_finset, List.toFinset_card_of_nodup hnodup, List.length_map,
      ← hcells, List.length_map]

theorem removeFirst (h : Holds laws heads mem contents lost) (hxs : contents d = xs.map make)
    (hread : ∀ a, read (make a) = some a) (test : α → Bool) (hfuel : xs.length < fuel)
    (hcontents : contents' = Function.update contents d ((xs.eraseP test).map make)) :
    ∃ mem', mem.removeFirst read test (heads d) fuel = .ok mem' ∧
      Holds laws heads mem' contents' lost := by
  obtain ⟨cells, leaked, hintact, hcells, hlost⟩ := h
  have hfuel' : (cells d).length < fuel := by rwa [length_eq (hcells d) hxs]
  obtain ⟨mem', hremove, hintact'⟩ :=
    RingStore.removeFirst_eq hintact test (isSome_read (hcells d) hxs hread) hfuel'
  refine ⟨mem', hremove, _, leaked, hintact', update hcells ?_ hcontents, hlost⟩
  have haccepts : accepts read test = (fun obj => (read obj).any test) ∘ Prod.snd :=
    (rfl : (accepts read test : Ptr × Obj → Bool) = _)
  have hmake : (fun obj => (read obj).any test) ∘ make = test := by
    funext a
    simp [hread]
  rw [haccepts, ← List.eraseP_map, hcells, hxs, List.eraseP_map, hmake]

theorem sweep (h : Holds laws heads mem contents lost) (hxs : contents d = xs.map make)
    (hread : ∀ a, read (make a) = some a) (body : α → Decision ρ) (hfuel : xs.length < fuel)
    (hcontents : contents' = Function.update contents d ((swept body xs).2.map make)) :
    ∃ mem', mem.sweep read body (heads d) fuel = .ok ((swept body xs).1, mem') ∧
      Holds laws heads mem' contents' lost := by
  obtain ⟨cells, leaked, hintact, hcells, hlost⟩ := h
  have hfuel' : (cells d).length < fuel := by rwa [length_eq (hcells d) hxs]
  obtain ⟨mem', hsweep, hintact'⟩ :=
    RingStore.sweep_eq hintact body (isSome_read (hcells d) hxs hread) hfuel'
  have hmake : onObject read body ∘ make = body := by
    funext a
    simp [onObject, hread]
  -- the same sweep over the cells, over their objects, and over what the objects stand for
  have hswept := swept_map Prod.snd (onObject read body) (cells d)
  rw [hcells, hxs, swept_map, hmake, Prod.mk.injEq] at hswept
  rw [← hswept.1] at hsweep
  exact ⟨mem', hsweep, _, leaked, hintact', update hcells hswept.2.symm hcontents, hlost⟩

omit [DecidableEq δ] in
/-- What is allocated: the heads, what the rings hold, and what has leaked. -/
theorem ncard_allocated [Fintype δ] (h : Holds laws heads mem contents lost) :
    {p | (mem.objects p).isSome}.ncard =
      Fintype.card δ + ∑ d, (contents d).length + lost := by
  obtain ⟨cells, leaked, hintact, hcells, hfinite, hlost⟩ := h
  let owned : Finset Ptr :=
    Finset.univ.biUnion fun d => (footprint (heads d) (cells d)).toFinset
  have hallocated : {p | (mem.objects p).isSome} = ↑owned ∪ leaked := by
    ext p
    simp [owned, hintact.accounted p]
  have hdisjoint : Disjoint (owned : Set Ptr) leaked := by
    rw [Set.disjoint_left]
    intro p hp hleaked
    obtain ⟨d, hd⟩ : ∃ d, p ∈ footprint (heads d) (cells d) := by simpa [owned] using hp
    exact hintact.lost d p hd hleaked
  have hcard : owned.card = ∑ d, (1 + (contents d).length) := by
    rw [Finset.card_biUnion]
    · apply Finset.sum_congr rfl
      intro d _
      have hnodup : (footprint (heads d) (cells d)).Nodup := laws.nodup (hintact.ring d)
      rw [List.toFinset_card_of_nodup hnodup, ← hcells d, footprint]
      simp [Nat.add_comm]
    · intro d _ d' _ hd
      rw [Function.onFun, List.disjoint_toFinset_iff_disjoint]
      exact hintact.apart d d' hd
  rw [hallocated, Set.ncard_union_eq hdisjoint (Finset.finite_toSet _) hfinite, hlost,
    Set.ncard_coe_finset, hcard, Finset.sum_add_distrib]
  simp

end Holds

end MaskPool.RingStore
