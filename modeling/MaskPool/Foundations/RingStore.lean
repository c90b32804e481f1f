import MaskPool.Foundations.RingMemory

/-!
# Intact memories

Which objects are on which ring of a memory, that rings are disjoint, and that nothing
else is allocated but what has leaked. Insertion, removal and reinitialisation keep a
memory intact.
-/

namespace MaskPool.RingStore

open Rings

variable {Ptr : Type} {ops : Ops.{0, 0} Ptr} {Obj α δ : Type} {heads : δ → Ptr} {mem : Memory ops Obj}
  {cells : δ → List (Ptr × Obj)} {leaked : Set Ptr}

def footprint (head : Ptr) (cells : List (Ptr × Obj)) : List Ptr :=
  head :: cells.map Prod.fst

/-- Each ring links its cells in their order, the cells hold their objects, the rings are
disjoint, and what is allocated is on a ring or leaked. -/
structure Intact (laws : Laws ops) (heads : δ → Ptr) (mem : Memory ops Obj)
    (cells : δ → List (Ptr × Obj)) (leaked : Set Ptr) : Prop where
  ring : ∀ d, laws.Ring mem.hooks (heads d) ((cells d).map Prod.fst)
  object : ∀ d, ∀ c ∈ cells d, mem.objects c.1 = some c.2
  apart : ∀ d d', d ≠ d' →
    List.Disjoint (footprint (heads d) (cells d)) (footprint (heads d') (cells d'))
  lost : ∀ d, ∀ p ∈ footprint (heads d) (cells d), p ∉ leaked
  accounted : ∀ p, (mem.objects p).isSome ↔
    (∃ d, p ∈ footprint (heads d) (cells d)) ∨ p ∈ leaked

variable {laws : Laws ops}

theorem mem_footprint {head : Ptr} {c : Ptr × Obj} {xs : List (Ptr × Obj)} (hc : c ∈ xs) :
    c.1 ∈ footprint head xs :=
  List.mem_cons_of_mem _ (List.mem_map_of_mem hc)

theorem head_mem_footprint (head : Ptr) (xs : List (Ptr × Obj)) : head ∈ footprint head xs :=
  List.mem_cons_self

/-- Where a loop stands when the cells of `rest` are still ahead of it. -/
def cursor (head : Ptr) (rest : List (Ptr × Obj)) : Ptr := (rest.map Prod.fst).headD head

@[simp] theorem cursor_nil (head : Ptr) : cursor head ([] : List (Ptr × Obj)) = head := rfl

@[simp] theorem cursor_cons (head : Ptr) (c : Ptr × Obj) (rest : List (Ptr × Obj)) :
    cursor head (c :: rest) = c.1 := rfl

namespace Intact

theorem isSome (h : Intact laws heads mem cells leaked) {d : δ} {p : Ptr}
    (hp : p ∈ footprint (heads d) (cells d)) : (mem.objects p).isSome :=
  (h.accounted p).mpr (Or.inl ⟨d, hp⟩)

theorem next_head (h : Intact laws heads mem cells leaked) (d : δ) :
    mem.next (heads d) = .ok (cursor (heads d) (cells d)) := by
  rw [Memory.next, if_pos (h.isSome (head_mem_footprint (heads d) (cells d))),
    laws.next_head (h.ring d), cursor]

theorem next_cell (h : Intact laws heads mem cells leaked) {d : δ} {c : Ptr × Obj}
    {before rest : List (Ptr × Obj)} (hsplit : cells d = before ++ c :: rest) :
    mem.next c.1 = .ok (cursor (heads d) rest) := by
  have hring := h.ring d
  rw [hsplit, List.map_append, List.map_cons] at hring
  have hmem : c ∈ cells d := by simp [hsplit]
  rw [Memory.next, if_pos (h.isSome (mem_footprint hmem)), laws.next_node hring, cursor]

theorem next_cursor (h : Intact laws heads mem cells leaked) {d : δ}
    {before rest : List (Ptr × Obj)} (hsplit : cells d = before ++ rest) :
    ∃ behind, mem.next (cursor (heads d) rest) = .ok behind ∧
      (rest ≠ [] → behind = cursor (heads d) rest.tail) := by
  cases rest with
  | nil => exact ⟨_, h.next_head d, fun hne => absurd rfl hne⟩
  | cons c rest => exact ⟨_, h.next_cell hsplit, fun _ => rfl⟩

theorem load_eq (h : Intact laws heads mem cells leaked) {d : δ} {c : Ptr × Obj}
    (hc : c ∈ cells d) {read : Obj → Option α} {a : α} (ha : read c.2 = some a) :
    mem.load read c.1 = .ok a := by
  rw [Memory.load, h.object d c hc, Option.bind_some, ha]

theorem cell_ne_head (h : Intact laws heads mem cells leaked) {d : δ} {c : Ptr × Obj}
    (hc : c ∈ cells d) : c.1 ≠ heads d :=
  laws.ne_head (h.ring d) (List.mem_map_of_mem hc)

theorem fresh (h : Intact laws heads mem cells leaked) {new : Ptr}
    (hnew : mem.objects new = none) :
    (∀ d, new ∉ footprint (heads d) (cells d)) ∧ new ∉ leaked := by
  have hnone := (h.accounted new).not.mp (by rw [hnew]; simp)
  rw [not_or, not_exists] at hnone
  exact hnone

-- What a change does to the footprints comes first: that the rings stay apart, that nothing
-- on them is lost and what is allocated all follow from it.

variable [DecidableEq δ]

theorem mem_footprint_insert (cells : δ → List (Ptr × Obj)) (d d' : δ) (new p : Ptr)
    (obj : Obj) :
    p ∈ footprint (heads d') (Function.update cells d (cells d ++ [(new, obj)]) d') ↔
      p ∈ footprint (heads d') (cells d') ∨ d' = d ∧ p = new := by
  by_cases hd : d' = d
  · subst hd
    simp [footprint, or_assoc]
  · simp [hd]

theorem mem_footprint_remove (h : Intact laws heads mem cells leaked) {d : δ} {c : Ptr × Obj}
    {before rest : List (Ptr × Obj)} (hsplit : cells d = before ++ c :: rest) (d' : δ) (p : Ptr) :
    p ∈ footprint (heads d') (Function.update cells d (before ++ rest) d') ↔
      p ∈ footprint (heads d') (cells d') ∧ p ≠ c.1 := by
  by_cases hd : d' = d
  · subst hd
    have hnodup := laws.nodup (h.ring d')
    rw [hsplit, List.map_append, List.map_cons, ← List.cons_append] at hnodup
    have hnot := (List.nodup_cons.mp (List.nodup_middle.mp hnodup)).1
    rw [Function.update_self, footprint, footprint, hsplit, List.map_append, List.map_append,
      List.map_cons]
    constructor
    · intro hp
      refine ⟨?_, fun heq => hnot (heq ▸ by simpa using hp)⟩
      simp only [List.mem_cons, List.mem_append] at hp ⊢
      tauto
    · rintro ⟨hp, hne⟩
      simp only [List.mem_cons, List.mem_append] at hp ⊢
      tauto
  · have hmem : c ∈ cells d := by simp [hsplit]
    rw [Function.update_of_ne hd]
    refine ⟨fun hp => ⟨hp, ?_⟩, And.left⟩
    rintro rfl
    exact h.apart d' d hd hp (mem_footprint hmem)

theorem mem_footprint_initHead (h : Intact laws heads mem cells leaked) (d d' : δ) (p : Ptr) :
    p ∈ footprint (heads d') (Function.update cells d [] d') ↔
      p ∈ footprint (heads d') (cells d') ∧ p ∉ (cells d).map Prod.fst := by
  by_cases hd : d' = d
  · subst hd
    have hnot := (List.nodup_cons.mp (laws.nodup (h.ring d'))).1
    rw [Function.update_self, footprint, footprint, List.map_nil, List.mem_singleton,
      List.mem_cons]
    constructor
    · rintro rfl
      exact ⟨Or.inl rfl, hnot⟩
    · tauto
  · rw [Function.update_of_ne hd]
    refine ⟨fun hp => ⟨hp, fun hforgot => ?_⟩, And.left⟩
    exact h.apart d' d hd hp (List.mem_cons_of_mem _ hforgot)

variable [DecidableEq Ptr]

theorem insert (h : Intact laws heads mem cells leaked) {new : Ptr}
    (hnew : mem.objects new = none) (d : δ) (obj : Obj) :
    ∃ mem', mem.insert (heads d) new obj = .ok mem' ∧
      Intact laws heads mem' (Function.update cells d (cells d ++ [(new, obj)])) leaked := by
  obtain ⟨hfresh, hkept⟩ := h.fresh hnew
  have hold (d' : δ) (c : Ptr × Obj) (hc : c ∈ cells d') :
      Function.update mem.objects new (some obj) c.1 = some c.2 := by
    have hne : c.1 ≠ new := fun heq => hfresh d' (heq ▸ mem_footprint hc)
    rw [Function.update_of_ne hne, h.object d' c hc]
  refine ⟨_, if_pos (h.isSome (head_mem_footprint (heads d) (cells d))), ?_, ?_, ?_, ?_, ?_⟩
  · refine (Function.forall_update_iff cells fun d' xs =>
      laws.Ring _ (heads d') (xs.map Prod.fst)).mpr ⟨?_, fun d' hd => ?_⟩
    · rw [List.map_append]
      exact laws.addTail (h.ring d) (hfresh d)
    · exact laws.addTail_other (h.ring d') (h.ring d) (h.apart d' d hd) (hfresh d')
  · refine (Function.forall_update_iff cells fun _ xs =>
      ∀ c ∈ xs, Function.update mem.objects new (some obj) c.1 = some c.2).mpr
        ⟨fun c hc => ?_, fun d' _ => hold d'⟩
    rcases List.mem_append.mp hc with hc | hc
    · exact hold d c hc
    · rw [List.mem_singleton.mp hc, Function.update_self]
  · intro d1 d2 hd p hp1 hp2
    rw [mem_footprint_insert] at hp1 hp2
    rcases hp1 with hp1 | ⟨rfl, rfl⟩
    · rcases hp2 with hp2 | ⟨-, rfl⟩
      · exact h.apart d1 d2 hd hp1 hp2
      · exact hfresh d1 hp1
    · rcases hp2 with hp2 | ⟨rfl, -⟩
      · exact hfresh d2 hp2
      · exact hd rfl
  · intro d' p hp
    rcases (mem_footprint_insert cells d d' new p obj).mp hp with hp | ⟨-, rfl⟩
    · exact h.lost d' p hp
    · exact hkept
  · intro p
    simp only [mem_footprint_insert, exists_or]
    by_cases hp : p = new
    · subst hp
      simp
    · simp [h.accounted p, hp]

theorem remove (h : Intact laws heads mem cells leaked) {d : δ} {c : Ptr × Obj}
    {before rest : List (Ptr × Obj)} (hsplit : cells d = before ++ c :: rest) :
    ∃ mem', mem.remove c.1 = .ok mem' ∧
      Intact laws heads mem' (Function.update cells d (before ++ rest)) leaked := by
  have hmem : c ∈ cells d := by simp [hsplit]
  have hfoot : c.1 ∈ footprint (heads d) (cells d) := mem_footprint hmem
  have hshrunk := h.mem_footprint_remove hsplit
  have hold (d' : δ) (c' : Ptr × Obj)
      (hc' : c' ∈ Function.update cells d (before ++ rest) d') : c' ∈ cells d' := by
    by_cases hd : d' = d
    · subst hd
      rw [Function.update_self, List.mem_append] at hc'
      rw [hsplit, List.mem_append, List.mem_cons]
      tauto
    · rwa [Function.update_of_ne hd] at hc'
  refine ⟨_, if_pos (h.isSome hfoot), ?_, ?_, ?_, ?_, ?_⟩
  · refine (Function.forall_update_iff cells fun d' xs =>
      laws.Ring _ (heads d') (xs.map Prod.fst)).mpr ⟨?_, fun d' hd => ?_⟩
    · have hring := h.ring d
      rw [hsplit, List.map_append, List.map_cons] at hring
      rw [List.map_append]
      exact laws.del hring
    · exact laws.del_other (h.ring d') (h.ring d) (h.apart d' d hd) c.1
        (List.mem_map_of_mem hmem)
  · intro d' c' hc'
    have hne : c'.1 ≠ c.1 := ((hshrunk d' c'.1).mp (mem_footprint hc')).2
    simp only [Function.update_of_ne hne, h.object d' c' (hold d' c' hc')]
  · intro d1 d2 hd p hp1 hp2
    exact h.apart d1 d2 hd ((hshrunk d1 p).mp hp1).1 ((hshrunk d2 p).mp hp2).1
  · intro d' p hp
    exact h.lost d' p ((hshrunk d' p).mp hp).1
  · intro p
    simp only [hshrunk, exists_and_right]
    by_cases hp : p = c.1
    · subst hp
      simp [h.lost d c.1 hfoot]
    · simp [h.accounted p, hp]

/-- Reinitialising a head forgets the cells of its ring: they stay allocated. -/
theorem initHead (h : Intact laws heads mem cells leaked) (d : δ) :
    ∃ mem', mem.initHead (heads d) = .ok mem' ∧ mem'.objects = mem.objects ∧
      Intact laws heads mem' (Function.update cells d [])
        (leaked ∪ {p | p ∈ (cells d).map Prod.fst}) := by
  have hhead := head_mem_footprint (heads d) (cells d)
  have hshrunk := h.mem_footprint_initHead d
  refine ⟨_, if_pos (h.isSome hhead), rfl, ?_, ?_, ?_, ?_, ?_⟩
  · refine (Function.forall_update_iff cells fun d' xs =>
      laws.Ring _ (heads d') (xs.map Prod.fst)).mpr
        ⟨laws.init mem.hooks (heads d), fun d' hd => ?_⟩
    exact laws.init_other (h.ring d') fun hp => h.apart d' d hd hp hhead
  · refine (Function.forall_update_iff cells fun _ xs =>
      ∀ c ∈ xs, mem.objects c.1 = some c.2).mpr
        ⟨fun c hc => absurd hc List.not_mem_nil, fun d' _ => h.object d'⟩
  · intro d1 d2 hd p hp1 hp2
    exact h.apart d1 d2 hd ((hshrunk d1 p).mp hp1).1 ((hshrunk d2 p).mp hp2).1
  · intro d' p hp
    obtain ⟨hold, hkept⟩ := (hshrunk d' p).mp hp
    rintro (hleaked | hforgot)
    · exact h.lost d' p hold hleaked
    · exact hkept hforgot
  · intro p
    simp only [hshrunk, exists_and_right, Set.mem_union, Set.mem_ofPred_eq, h.accounted p]
    by_cases hp : p ∈ (cells d).map Prod.fst
    · simp only [hp, not_true, and_false, or_true, iff_true]
      exact Or.inl ⟨d, List.mem_cons_of_mem _ hp⟩
    · simp only [hp, not_false_iff, and_true, or_false]

end Intact

end MaskPool.RingStore
