import Mathlib.Tactic

/-!
# Rings of list hooks

A ring is a head and the nodes behind it, linked in a circle. `Ops` is what a program
calls, `Laws` is what it may rely on: where the `next` pointers lead, what insertion at
the tail and removal do to one ring, and that they leave disjoint rings alone. The
doubly linked realization at the end has these laws.
-/

namespace MaskPool.Rings

universe u v

variable {Ptr : Type u}

/-- The operations on hooks, named as the list header names them. -/
structure Ops (Ptr : Type u) where
  Hooks : Type v
  next : Hooks → Ptr → Ptr
  initListHead : Ptr → Hooks → Hooks
  /-- The new node comes first, then the head it is put in front of. -/
  listAddTail : Ptr → Ptr → Hooks → Hooks
  listDel : Ptr → Hooks → Hooks

/-- What the operations promise, in terms of the nodes on the ring of a head. -/
structure Laws (ops : Ops.{u, v} Ptr) where
  Ring : ops.Hooks → Ptr → List Ptr → Prop
  nodup : ∀ {h head xs}, Ring h head xs → (head :: xs).Nodup
  walk : ∀ {h head xs}, Ring h head xs → (head :: xs).map (ops.next h) = xs ++ [head]
  init : ∀ h head, Ring (ops.initListHead head h) head []
  addTail : ∀ {h head xs new}, Ring h head xs → new ∉ head :: xs →
    Ring (ops.listAddTail new head h) head (xs ++ [new])
  del : ∀ {h head xs x ys}, Ring h head (xs ++ x :: ys) →
    Ring (ops.listDel x h) head (xs ++ ys)
  init_other : ∀ {h head xs other}, Ring h head xs → other ∉ head :: xs →
    Ring (ops.initListHead other h) head xs
  addTail_other : ∀ {h head xs other ys new}, Ring h head xs → Ring h other ys →
    List.Disjoint (head :: xs) (other :: ys) → new ∉ head :: xs →
    Ring (ops.listAddTail new other h) head xs
  del_other : ∀ {h head xs other ys}, Ring h head xs → Ring h other ys →
    List.Disjoint (head :: xs) (other :: ys) → ∀ y ∈ ys, Ring (ops.listDel y h) head xs

variable {ops : Ops.{u, v} Ptr} {h : ops.Hooks} {head x : Ptr} {xs ys : List Ptr}

theorem Laws.next_head (laws : Laws ops) (hring : laws.Ring h head xs) :
    ops.next h head = xs.headD head := by
  have hwalk := laws.walk hring
  cases xs with
  | nil => exact List.head_eq_of_cons_eq hwalk
  | cons x xs => exact List.head_eq_of_cons_eq hwalk

theorem Laws.next_node (laws : Laws ops) (hring : laws.Ring h head (xs ++ x :: ys)) :
    ops.next h x = ys.headD head := by
  have hwalk := laws.walk hring
  have hleft : (head :: (xs ++ x :: ys)).map (ops.next h) =
      (head :: xs).map (ops.next h) ++ ops.next h x :: ys.map (ops.next h) := by simp
  have hright : xs ++ x :: ys ++ [head] = (xs ++ [x]) ++ (ys ++ [head]) := by simp
  rw [hleft, hright] at hwalk
  have hrest := (List.append_inj hwalk (by simp)).2
  cases ys with
  | nil => exact List.head_eq_of_cons_eq hrest
  | cons y ys => exact List.head_eq_of_cons_eq hrest

theorem Laws.ne_head (laws : Laws ops) (hring : laws.Ring h head xs) (hx : x ∈ xs) :
    x ≠ head := by
  have hnodup := List.nodup_cons.mp (laws.nodup hring)
  exact ne_of_mem_of_not_mem hx hnodup.1

structure Links (Ptr : Type u) where
  next : Ptr → Ptr
  prev : Ptr → Ptr

namespace Links

/-- Both circles of pointers, in opposite directions. -/
structure IsRing (h : Links Ptr) (head : Ptr) (xs : List Ptr) : Prop where
  nodup : (head :: xs).Nodup
  forth : (head :: xs).map h.next = xs ++ [head]
  back : (xs ++ [head]).map h.prev = head :: xs

theorem IsRing.congr {h h' : Links Ptr} {head : Ptr} {xs : List Ptr} (hring : IsRing h head xs)
    (hnext : ∀ x ∈ head :: xs, h'.next x = h.next x)
    (hprev : ∀ x ∈ head :: xs, h'.prev x = h.prev x) : IsRing h' head xs where
  nodup := hring.nodup
  forth := by
    rw [List.map_congr_left hnext]
    exact hring.forth
  back := by
    rw [← hring.back]
    apply List.map_congr_left
    intro x hx
    apply hprev
    simpa [or_comm] using hx

theorem IsRing.next_mem {h : Links Ptr} {head x : Ptr} {xs : List Ptr}
    (hring : IsRing h head xs) (hx : x ∈ head :: xs) : h.next x ∈ head :: xs := by
  have hmem : h.next x ∈ (head :: xs).map h.next := List.mem_map_of_mem hx
  rw [hring.forth] at hmem
  simpa [or_comm] using hmem

theorem IsRing.prev_mem {h : Links Ptr} {head x : Ptr} {xs : List Ptr}
    (hring : IsRing h head xs) (hx : x ∈ head :: xs) : h.prev x ∈ head :: xs := by
  have hmem : h.prev x ∈ (xs ++ [head]).map h.prev := by
    apply List.mem_map_of_mem
    simpa [or_comm] using hx
  rwa [hring.back] at hmem

theorem pair_of_nodup {a b : Ptr} {l r : List Ptr} (h : (l ++ a :: b :: r).Nodup) :
    (a ∉ l ∧ a ≠ b ∧ a ∉ r) ∧ b ∉ l ∧ b ∉ r := by
  obtain ⟨ha, hrest⟩ := List.nodup_cons.mp (List.nodup_middle.mp h)
  obtain ⟨hb, -⟩ := List.nodup_cons.mp (List.nodup_middle.mp hrest)
  simp only [List.mem_append, List.mem_cons, not_or] at ha hb
  exact ⟨⟨ha.1, ha.2.1, ha.2.2⟩, hb⟩

variable [DecidableEq Ptr]

def add (new before behind : Ptr) (h : Links Ptr) : Links Ptr where
  next := Function.update (Function.update h.next new behind) before new
  prev := Function.update (Function.update h.prev new before) behind new

/-- The two neighbours joined, the removed hook poisoned. -/
def del (poison x : Ptr) (h : Links Ptr) : Links Ptr where
  next := Function.update (Function.update h.next (h.prev x) (h.next x)) x poison
  prev := Function.update (Function.update h.prev (h.next x) (h.prev x)) x poison

def init (head : Ptr) (h : Links Ptr) : Links Ptr where
  next := Function.update h.next head head
  prev := Function.update h.prev head head

def listOps (poison : Ptr) : Ops Ptr where
  Hooks := Links Ptr
  next := Links.next
  initListHead := init
  listAddTail new head h := add new (h.prev head) head h
  listDel x h := del poison x h

theorem map_update {β : Type*} {f : Ptr → β} {x : Ptr} {b : β} {l : List Ptr} (hx : x ∉ l) :
    l.map (Function.update f x b) = l.map f := by
  apply List.map_congr_left
  intro y hy
  exact Function.update_of_ne (ne_of_mem_of_not_mem hy hx) b f

theorem isRing_init (h : Links Ptr) (head : Ptr) : IsRing (init head h) head [] where
  nodup := List.nodup_singleton head
  forth := by simp [init]
  back := by simp [init]

theorem IsRing.addTail {h : Links Ptr} {head new : Ptr} {xs : List Ptr}
    (hring : IsRing h head xs) (hnew : new ∉ head :: xs) :
    IsRing (add new (h.prev head) head h) head (xs ++ [new]) := by
  obtain ⟨hnodup, hforth, hback⟩ := hring
  obtain ⟨hnewhead, hnewxs⟩ := not_or.mp (List.mem_cons.not.mp hnew)
  obtain ⟨hhead, hxs⟩ := List.nodup_cons.mp hnodup
  -- the last element in front of the head, by either pointer
  obtain ⟨before, last, hlast⟩ : ∃ before last, head :: xs = before ++ [last] :=
    ⟨_, _, (List.dropLast_append_getLast (List.cons_ne_nil head xs)).symm⟩
  rw [List.map_append, hlast] at hback
  obtain ⟨hbackxs, hbackhead⟩ := List.append_inj' hback rfl
  have hprev : h.prev head = last := by simpa using hbackhead
  rw [hlast, List.map_append] at hforth
  obtain ⟨hforthxs, hforthlast⟩ := List.append_inj' hforth rfl
  have hnodup' := hnodup
  rw [hlast] at hnodup'
  have hbefore : last ∉ before := by
    have hdisjoint := (List.nodup_append.mp hnodup').2.2
    exact fun hmem => hdisjoint last hmem last (by simp) rfl
  have hnewbefore : new ∉ before ∧ new ≠ last := by
    rw [hlast, List.mem_append, List.mem_singleton] at hnew
    exact not_or.mp hnew
  rw [hprev]
  constructor
  · have hswap : (head :: (xs ++ [new])).Perm (new :: head :: xs) :=
      (List.perm_append_singleton new (head :: xs))
    exact hswap.nodup_iff.mpr (List.nodup_cons.mpr ⟨hnew, hnodup⟩)
  · have hring : head :: (xs ++ [new]) = before ++ [last, new] := by
      rw [← List.cons_append, hlast, List.append_assoc]
      rfl
    rw [hring, List.map_append]
    simp only [add]
    rw [map_update hbefore, map_update hnewbefore.1, hforthxs]
    simp [Function.update_of_ne hnewbefore.2]
  · simp only [add, List.map_append]
    rw [map_update hhead, map_update hnewxs, hbackxs]
    simp [Function.update_of_ne hnewhead, ← List.cons_append, hlast]

theorem IsRing.del {h : Links Ptr} {head x : Ptr} {xs ys : List Ptr} (poison : Ptr)
    (hring : IsRing h head (xs ++ x :: ys)) : IsRing (del poison x h) head (xs ++ ys) := by
  obtain ⟨hnodup, hforth, hback⟩ := hring
  obtain ⟨before, last, hlast⟩ : ∃ before last, head :: xs = before ++ [last] :=
    ⟨_, _, (List.dropLast_append_getLast (List.cons_ne_nil head xs)).symm⟩
  obtain ⟨first, behind, hfirst⟩ : ∃ first behind, ys ++ [head] = first :: behind :=
    List.exists_cons_of_ne_nil (by simp)
  have hlength : before.length = xs.length := by
    have hcount := congrArg List.length hlast
    simp only [List.length_cons, List.length_append, List.length_nil] at hcount
    omega
  have hcircle : head :: (xs ++ x :: ys) = before ++ last :: x :: ys := by
    rw [← List.cons_append, hlast, List.append_assoc]
    rfl
  have hturned : xs ++ x :: ys ++ [head] = xs ++ x :: first :: behind := by
    rw [List.append_assoc, List.cons_append, hfirst]
  have hnodup' : (xs ++ x :: first :: behind).Nodup := by
    rw [← hturned]
    exact (List.perm_append_singleton head (xs ++ x :: ys)).nodup_iff.mpr hnodup
  rw [hcircle] at hnodup hback
  rw [hcircle, hturned] at hforth
  rw [hturned] at hback
  -- the pointers around the removed node, in either direction
  rw [List.map_append] at hforth hback
  obtain ⟨hforthbefore, hforthrest⟩ := List.append_inj hforth (by simpa using hlength)
  obtain ⟨hbackbefore, hbackrest⟩ := List.append_inj hback (by simpa using hlength.symm)
  simp only [List.map_cons, List.cons.injEq] at hforthrest hbackrest
  obtain ⟨-, hnext, hforthys⟩ := hforthrest
  obtain ⟨hprev, -, hbackys⟩ := hbackrest
  obtain ⟨⟨hlastbefore, hlastx, hlastys⟩, hxbefore, hxys⟩ := pair_of_nodup hnodup
  obtain ⟨⟨hxxs, hxfirst, hxbehind⟩, hfirstxs, hfirstbehind⟩ := pair_of_nodup hnodup'
  have hring : head :: (xs ++ ys) = before ++ last :: ys := by
    rw [← List.cons_append, hlast, List.append_assoc]
    rfl
  constructor
  · rw [hring]
    exact hnodup.sublist (((List.sublist_cons_self x ys).cons_cons last).append_left before)
  · rw [hring, List.append_assoc, hfirst]
    simp only [Links.del, hnext, hprev, List.map_append, List.map_cons]
    rw [map_update hxbefore, map_update hlastbefore, map_update hxys, map_update hlastys,
      hforthbefore, hforthys, Function.update_of_ne hlastx, Function.update_self]
  · rw [hring, List.append_assoc, hfirst]
    simp only [Links.del, hnext, hprev, List.map_append, List.map_cons]
    rw [map_update hxxs, map_update hfirstxs, map_update hxbehind, map_update hfirstbehind,
      hbackbefore, hbackys, Function.update_of_ne hxfirst.symm, Function.update_self]

def laws (poison : Ptr) : Laws (listOps poison) where
  Ring := IsRing
  nodup hring := hring.nodup
  walk hring := hring.forth
  init := isRing_init
  addTail := IsRing.addTail
  del := IsRing.del poison
  init_other := by
    intro h head xs other hring hother
    apply hring.congr <;>
    · intro x hx
      exact Function.update_of_ne (ne_of_mem_of_not_mem hx hother) _ _
  addTail_other := by
    intro h head xs other ys new hring hring' hdisjoint hnew
    have hprev : h.prev other ∈ other :: ys := hring'.prev_mem List.mem_cons_self
    apply hring.congr
    · intro x hx
      have hnotnew : x ≠ new := ne_of_mem_of_not_mem hx hnew
      have hoff : x ≠ h.prev other := fun heq => hdisjoint hx (heq ▸ hprev)
      simp only [listOps, add, Function.update_of_ne hoff, Function.update_of_ne hnotnew]
    · intro x hx
      have hnotnew : x ≠ new := ne_of_mem_of_not_mem hx hnew
      have hoff : x ≠ other := fun heq => hdisjoint hx (heq ▸ List.mem_cons_self)
      simp only [listOps, add, Function.update_of_ne hoff, Function.update_of_ne hnotnew]
  del_other := by
    intro h head xs other ys hring hring' hdisjoint y hy
    have hmem : y ∈ other :: ys := List.mem_cons_of_mem _ hy
    have hnext := hring'.next_mem hmem
    have hprev := hring'.prev_mem hmem
    apply hring.congr
    · intro x hx
      have hself : x ≠ y := fun heq => hdisjoint hx (heq ▸ hmem)
      have hoff : x ≠ h.prev y := fun heq => hdisjoint hx (heq ▸ hprev)
      simp only [listOps, del, Function.update_of_ne hself, Function.update_of_ne hoff]
    · intro x hx
      have hself : x ≠ y := fun heq => hdisjoint hx (heq ▸ hmem)
      have hoff : x ≠ h.next y := fun heq => hdisjoint hx (heq ▸ hnext)
      simp only [listOps, del, Function.update_of_ne hself, Function.update_of_ne hoff]

end Links

end MaskPool.Rings
