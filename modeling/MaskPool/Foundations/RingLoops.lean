import MaskPool.Foundations.RingStore

/-!
# Loops over intact memories

On an intact memory a loop with enough rounds never faults: reading loops are folds over
what the cells hold, removing loops take the cells they accept off the ring.
-/

namespace MaskPool.RingStore

open Rings

variable {Ptr : Type} {ops : Ops.{0, 0} Ptr} {Obj α τ ρ δ : Type} {laws : Laws ops}
  {heads : δ → Ptr} {mem : Memory ops Obj} {cells : δ → List (Ptr × Obj)} {leaked : Set Ptr}

variable [DecidableEq Ptr] {read : Obj → Option α} {d : δ} {s : τ}

theorem forEachFrom_eq (h : Intact laws heads mem cells leaked) (body : τ → α → Except ρ τ)
    (before rest : List (Ptr × Obj)) (xs : List α) (fuel : ℕ) (hsplit : cells d = before ++ rest)
    (hread : rest.map (fun c => read c.2) = xs.map some) (hfuel : rest.length < fuel) :
    mem.forEachFrom read body (heads d) fuel (cursor (heads d) rest) s =
      .ok (xs.foldlM body s) := by
  induction rest generalizing before xs fuel s with
  | nil =>
    obtain ⟨fuel, rfl⟩ : ∃ n, fuel = n + 1 := Nat.exists_eq_succ_of_ne_zero (by omega)
    obtain rfl : xs = [] := by simpa using hread.symm
    simp only [Memory.forEachFrom, cursor_nil, if_true]
    rfl
  | cons c rest ih =>
    obtain ⟨fuel, rfl⟩ : ∃ n, fuel = n + 1 := Nat.exists_eq_succ_of_ne_zero (by omega)
    obtain ⟨x, xs, rfl⟩ : ∃ x xs', xs = x :: xs' := by
      cases xs with
      | nil => simp at hread
      | cons x xs => exact ⟨x, xs, rfl⟩
    simp only [List.map_cons, List.cons.injEq] at hread
    have hmem : c ∈ cells d := by simp [hsplit]
    simp only [Memory.forEachFrom, cursor_cons, if_neg (h.cell_ne_head hmem),
      h.load_eq hmem hread.1, List.foldlM_cons]
    cases hbody : body s x with
    | error returned => simp [hbody, bind, Except.bind]
    | ok s' =>
      simp only [hbody, bind, Except.bind, h.next_cell hsplit]
      exact ih (before ++ [c]) xs fuel (by simp [hsplit]) hread.2
        (by simpa using hfuel)

/-- A loop over an intact ring is a fold over what its cells hold. -/
theorem forEach_eq (h : Intact laws heads mem cells leaked) (body : τ → α → Except ρ τ)
    {xs : List α} {fuel : ℕ} (hread : (cells d).map (fun c => read c.2) = xs.map some)
    (hfuel : xs.length < fuel) :
    mem.forEach read body (heads d) fuel s = .ok (xs.foldlM body s) := by
  have hlength := congrArg List.length hread
  rw [List.length_map, List.length_map] at hlength
  simp only [Memory.forEach, h.next_head d, bind, Except.bind]
  exact forEachFrom_eq h body [] (cells d) xs fuel rfl hread (by omega)

theorem fold_eq (h : Intact laws heads mem cells leaked) (f : τ → α → τ) {xs : List α}
    {fuel : ℕ} (hread : (cells d).map (fun c => read c.2) = xs.map some)
    (hfuel : xs.length < fuel) :
    mem.fold read f (heads d) fuel s = .ok (xs.foldl f s) := by
  have hfold : xs.foldlM (fun s a => (.ok (f s a) : Except Empty τ)) s = .ok (xs.foldl f s) :=
    List.foldlM_pure
  simp only [Memory.fold, forEach_eq h _ hread hfuel, hfold, bind, Except.bind, pure,
    Except.pure]

theorem search_eq (h : Intact laws heads mem cells leaked) (test : α → Bool) {xs : List α}
    {fuel : ℕ} (hread : (cells d).map (fun c => read c.2) = xs.map some)
    (hfuel : xs.length < fuel) :
    mem.search read test (heads d) fuel = .ok (xs.any test) := by
  have hsearch : xs.foldlM
      (fun (_ : Unit) a => if test a then (.error () : Except Unit Unit) else .ok ()) () =
      if xs.any test then .error () else .ok () := by
    clear hread hfuel
    induction xs with
    | nil => rfl
    | cons a xs ih =>
      rw [List.foldlM_cons, List.any_cons]
      cases test a with
      | true => rfl
      | false =>
        rw [Bool.false_or]
        exact ih
  simp only [Memory.search, forEach_eq h _ hread hfuel, hsearch, bind, Except.bind]
  cases xs.any test <;> rfl

theorem isEmpty_eq (h : Intact laws heads mem cells leaked) :
    mem.isEmpty (heads d) = .ok (cells d).isEmpty := by
  simp only [Memory.isEmpty, h.next_head d, bind, Except.bind]
  cases hcells : cells d with
  | nil => simp [pure, Except.pure]
  | cons c rest =>
    have hne : c.1 ≠ heads d := h.cell_ne_head (by simp [hcells])
    simp [pure, Except.pure, hne]

variable [DecidableEq δ]

/-- What a program makes of an object it may not be able to read. -/
def accepts (read : Obj → Option α) (test : α → Bool) (c : Ptr × Obj) : Bool :=
  (read c.2).any test

theorem removeFirstFrom_eq (h : Intact laws heads mem cells leaked) (test : α → Bool)
    (before rest : List (Ptr × Obj)) (fuel : ℕ) (hsplit : cells d = before ++ rest)
    (hread : ∀ c ∈ rest, (read c.2).isSome) (hfuel : rest.length < fuel) :
    ∃ mem', mem.removeFirstFrom read test (heads d) fuel (cursor (heads d) rest) = .ok mem' ∧
      Intact laws heads mem'
        (Function.update cells d (before ++ rest.eraseP (accepts read test))) leaked := by
  induction rest generalizing before fuel with
  | nil =>
    obtain ⟨fuel, rfl⟩ : ∃ n, fuel = n + 1 := Nat.exists_eq_succ_of_ne_zero (by omega)
    refine ⟨mem, by simp [Memory.removeFirstFrom], ?_⟩
    rw [List.eraseP_nil, ← hsplit, Function.update_eq_self]
    exact h
  | cons c rest ih =>
    obtain ⟨fuel, rfl⟩ : ∃ n, fuel = n + 1 := Nat.exists_eq_succ_of_ne_zero (by omega)
    have hmem : c ∈ cells d := by simp [hsplit]
    obtain ⟨a, ha⟩ := Option.isSome_iff_exists.mp (hread c List.mem_cons_self)
    have haccepts : accepts read test c = test a := by simp [accepts, ha]
    simp only [Memory.removeFirstFrom, cursor_cons, if_neg (h.cell_ne_head hmem),
      h.load_eq hmem ha, bind, Except.bind, List.eraseP_cons, haccepts]
    cases test a with
    | true => simpa using h.remove hsplit
    | false =>
      simp only [Bool.false_eq_true, if_false, h.next_cell hsplit]
      have hrest := ih (before ++ [c]) fuel (by simp [hsplit])
        (fun c' hc' => hread c' (List.mem_cons_of_mem _ hc')) (by simpa using hfuel)
      simpa using hrest

theorem removeFirst_eq (h : Intact laws heads mem cells leaked) (test : α → Bool) {fuel : ℕ}
    (hread : ∀ c ∈ cells d, (read c.2).isSome) (hfuel : (cells d).length < fuel) :
    ∃ mem', mem.removeFirst read test (heads d) fuel = .ok mem' ∧
      Intact laws heads mem'
        (Function.update cells d ((cells d).eraseP (accepts read test))) leaked := by
  simp only [Memory.removeFirst, h.next_head d, bind, Except.bind]
  exact removeFirstFrom_eq h test [] (cells d) fuel rfl hread hfuel

def swept (body : α → Decision ρ) : List α → Option ρ × List α
  | [] => (none, [])
  | a :: rest =>
    match body a with
    | .stop returned => (some returned, a :: rest)
    | .keep => ((swept body rest).1, a :: (swept body rest).2)
    | .remove => swept body rest

theorem swept_remove (test : α → Bool) (xs : List α) :
    swept (fun a => if test a then (.remove : Decision ρ) else .keep) xs =
      (none, xs.filter fun a => !test a) := by
  induction xs with
  | nil => rfl
  | cons a xs ih =>
    rw [swept, List.filter_cons]
    cases test a <;> simp [ih]

theorem swept_all (xs : List α) :
    swept (fun _ => (.remove : Decision ρ)) xs = (none, []) := by
  simpa using swept_remove (fun _ => true) xs

theorem swept_search (test : α → Bool) (returned : ρ) (xs : List α) :
    swept (fun a => if test a then .stop returned else .keep) xs =
      (if xs.any test then some returned else none, xs) := by
  induction xs with
  | nil => rfl
  | cons a xs ih =>
    rw [swept, List.any_cons]
    cases test a <;> simp [ih]

theorem swept_map {β : Type} (f : β → α) (body : α → Decision ρ) (xs : List β) :
    swept body (xs.map f) =
      ((swept (body ∘ f) xs).1, (swept (body ∘ f) xs).2.map f) := by
  induction xs with
  | nil => rfl
  | cons b xs ih =>
    rw [List.map_cons, swept, swept, Function.comp_apply]
    cases body (f b) <;> simp [ih]

def onObject (read : Obj → Option α) (body : α → Decision ρ) (obj : Obj) : Decision ρ :=
  match read obj with
  | some a => body a
  | none => .keep

/-- `kept` is behind the loop; `n` already points past the first cell of `rest`. -/
theorem sweepFrom_eq (h : Intact laws heads mem cells leaked) (body : α → Decision ρ)
    (kept rest : List (Ptr × Obj)) (fuel : ℕ) (n : Ptr) (hsplit : cells d = kept ++ rest)
    (hn : rest ≠ [] → n = cursor (heads d) rest.tail)
    (hread : ∀ c ∈ rest, (read c.2).isSome) (hfuel : rest.length < fuel) :
    ∃ mem', Memory.sweepFrom read body (heads d) fuel (cursor (heads d) rest) n mem =
        .ok ((swept (onObject read body ∘ Prod.snd) rest).1, mem') ∧
      Intact laws heads mem' (Function.update cells d
        (kept ++ (swept (onObject read body ∘ Prod.snd) rest).2)) leaked := by
  induction rest generalizing kept fuel n mem cells with
  | nil =>
    obtain ⟨fuel, rfl⟩ : ∃ n, fuel = n + 1 := Nat.exists_eq_succ_of_ne_zero (by omega)
    refine ⟨mem, by simp [Memory.sweepFrom, swept], ?_⟩
    rw [swept, ← hsplit, Function.update_eq_self]
    exact h
  | cons c rest ih =>
    obtain ⟨fuel, rfl⟩ : ∃ n, fuel = n + 1 := Nat.exists_eq_succ_of_ne_zero (by omega)
    obtain rfl : n = cursor (heads d) rest := hn (List.cons_ne_nil c rest)
    have hmem : c ∈ cells d := by simp [hsplit]
    have hreadrest : ∀ c' ∈ rest, (read c'.2).isSome := fun c' hc' =>
      hread c' (List.mem_cons_of_mem _ hc')
    have hfuelrest : rest.length < fuel := by simpa using hfuel
    obtain ⟨a, ha⟩ := Option.isSome_iff_exists.mp (hread c List.mem_cons_self)
    have hdecision : onObject read body c.2 = body a := by simp [onObject, ha]
    simp only [Memory.sweepFrom, cursor_cons, if_neg (h.cell_ne_head hmem),
      h.load_eq hmem ha, bind, Except.bind, swept, Function.comp_apply, hdecision]
    cases body a with
    | stop returned =>
      refine ⟨mem, rfl, ?_⟩
      rw [← hsplit, Function.update_eq_self]
      exact h
    | keep =>
      have hsplit' : cells d = kept ++ [c] ++ rest := by simp [hsplit]
      obtain ⟨behind, hbehind, hn'⟩ := h.next_cursor hsplit'
      simp only [hbehind]
      have hrest := ih h (kept ++ [c]) fuel behind hsplit' hn' hreadrest hfuelrest
      simpa using hrest
    | remove =>
      obtain ⟨mem', hremove, h'⟩ := h.remove hsplit
      have hsplit' : Function.update cells d (kept ++ rest) d = kept ++ rest :=
        Function.update_self d _ cells
      obtain ⟨behind, hbehind, hn'⟩ := h'.next_cursor hsplit'
      simp only [hremove, hbehind]
      have hrest := ih h' kept fuel behind hsplit' hn' hreadrest hfuelrest
      simpa using hrest

/-- A sweep frees the cells it decides to remove and nothing else. -/
theorem sweep_eq (h : Intact laws heads mem cells leaked) (body : α → Decision ρ) {fuel : ℕ}
    (hread : ∀ c ∈ cells d, (read c.2).isSome) (hfuel : (cells d).length < fuel) :
    ∃ mem', mem.sweep read body (heads d) fuel =
        .ok ((swept (onObject read body ∘ Prod.snd) (cells d)).1, mem') ∧
      Intact laws heads mem' (Function.update cells d
        (swept (onObject read body ∘ Prod.snd) (cells d)).2) leaked := by
  have hsplit : cells d = [] ++ cells d := rfl
  obtain ⟨behind, hbehind, hn⟩ := h.next_cursor hsplit
  simp only [Memory.sweep, h.next_head d, bind, Except.bind, hbehind]
  exact sweepFrom_eq h body [] (cells d) fuel behind hsplit hn hread hfuel

end MaskPool.RingStore
