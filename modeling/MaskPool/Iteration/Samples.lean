import MaskPool.Clients.Addresses
import MaskPool.Foundations.Paging
import MaskPool.Model.Iteration
import MaskPool.Pool.Membership

/-!
# Pages of `pool4_foreach_sample` and `client_for_eachsample`

Both functions share one loop, with the comparison of their own entries. The offset is
the loop's state: while it is set the entries are skipped, and if it is still set at the
end it was not listed. Everything else is a traversal of what lies behind it.
-/

namespace MaskPool

open Traversal Paging

variable {α : Type} {σ : Type*} {equals : α → α → Bool} {xs : List α}

theorem foreachSample_null (cb : α → σ → ℤ × σ) (xs : List α) (arg : σ) :
    foreachSample equals cb xs none 0 arg = untilStop cb xs arg := by
  induction xs generalizing arg with
  | nil => rfl
  | cons tmp rest ih =>
    have hround : foreachSample equals cb (tmp :: rest) none 0 arg =
        if (cb tmp arg).1 ≠ 0 then cb tmp arg
        else foreachSample equals cb rest none (cb tmp arg).1 (cb tmp arg).2 := rfl
    rw [hround, untilStop_cons]
    by_cases hstop : (cb tmp arg).1 = 0
    · rw [if_neg (not_not.mpr hstop), if_neg (not_not.mpr hstop), hstop]
      exact ih _
    · rw [if_pos hstop, if_pos hstop]

/-- With a comparison that is equality, the function traverses what lies behind the
offset, and reports an offset that is not listed. -/
theorem foreachSample_eq [DecidableEq α] (hequals : ∀ x y, equals x y = true ↔ x = y)
    (cb : α → σ → ℤ × σ) (xs : List α) (offset : Option α) (arg : σ) :
    foreachSample equals cb xs offset 0 arg =
      (behind xs offset).elim (-ESRCH, arg) (untilStop cb · arg) := by
  cases offset with
  | none => exact foreachSample_null cb xs arg
  | some x =>
    induction xs with
    | nil => rfl
    | cons tmp rest ih =>
      unfold foreachSample
      by_cases h : x = tmp
      · subst h
        rw [if_pos ((hequals x x).mpr rfl), foreachSample_null]
        simp [behind]
      · rw [if_neg (mt (hequals x tmp).mp h), ih]
        simp [behind, h, Ne.symm h]

/-- Successive calls, each with the last entry visited as its offset, visit every entry
once and in order, and every single call is told apart by its code. -/
structure PagesOnce [DecidableEq α] (xs : List α)
    (call : (τ : Type) → Option α → (α → τ → ℤ × τ) → τ → ℤ × τ) : Prop where
  /-- A call with a listed offset hands out the entries behind it up to the one it is
  stopped at; its code is the callback's, or 0 at the end of the list. -/
  resumes : ∀ τ, Resumes xs (call τ)
  /-- The not-found code comes without a callback exactly for an unlisted offset. -/
  notFound : ∀ (τ : Type) offset (cb : α → τ → ℤ × τ) s,
    (call (τ × List α) offset (recording cb) (s, [])).1 = -ESRCH ∧
        (call (τ × List α) offset (recording cb) (s, [])).2.2 = [] ↔
      ∃ x, offset = some x ∧ x ∉ xs
  cuts : ∀ (τ : Type) (cbs : List (α → τ → ℤ × τ)) s,
    pages (call (τ × List α)) cbs none s = cut cbs xs s
  inOrder : ∀ (τ : Type) (cbs : List (α → τ → ℤ × τ)) s,
    ((pages (call (τ × List α)) cbs none s).map Prod.fst).flatten <+: xs
  complete : ∀ (τ : Type) (cbs : List (α → τ → ℤ × τ)) s,
    (∃ page ∈ pages (call (τ × List α)) cbs none s, page.2 = 0) →
      ((pages (call (τ × List α)) cbs none s).map Prod.fst).flatten = xs
  ends : ∀ (τ : Type) (cbs : List (α → τ → ℤ × τ)) s, xs.length < cbs.length →
    ∃ page ∈ pages (call (τ × List α)) cbs none s, page.2 = 0

theorem foreachSample_notFound_iff [DecidableEq α]
    (hequals : ∀ x y, equals x y = true ↔ x = y) (offset : Option α) (cb : α → σ → ℤ × σ)
    (s : σ) :
    (foreachSample equals (recording cb) xs offset 0 (s, [])).1 = -ESRCH ∧
        (foreachSample equals (recording cb) xs offset 0 (s, [])).2.2 = [] ↔
      ∃ x, offset = some x ∧ x ∉ xs := by
  rw [← behind_eq_none, foreachSample_eq hequals]
  cases hbehind : behind xs offset with
  | none => exact iff_of_true ⟨rfl, rfl⟩ rfl
  | some rest =>
    -- a callback that returns the same code has been called
    rw [Option.elim_some, untilStop_recording, List.nil_append]
    apply iff_of_false
    · intro h
      obtain ⟨hcode, hnone⟩ := h
      have hne : (untilStop cb rest s).1 ≠ 0 := by
        rw [hcode]
        decide
      exact visited_ne_nil hne hnone
    · exact Option.some_ne_none rest

theorem foreachSample_pagesOnce [DecidableEq α] (hequals : ∀ x y, equals x y = true ↔ x = y)
    (hdistinct : xs.Nodup) :
    PagesOnce xs fun _ offset cb arg => foreachSample equals cb xs offset 0 arg := by
  have hresumes (τ : Type) : Resumes xs fun offset (cb : α → τ → ℤ × τ) arg =>
      foreachSample equals cb xs offset 0 arg := by
    intro offset rest cb arg hrest
    have hall := foreachSample_eq hequals cb xs offset arg
    rw [hrest] at hall
    exact hall
  have hcuts (τ : Type) (cbs : List (α → τ → ℤ × τ)) (s : τ) :
      pages (fun offset cb arg => foreachSample equals cb xs offset 0 arg) cbs none s =
        cut cbs xs s :=
    pages_eq_cut (hresumes _) hdistinct cbs rfl s
  refine ⟨hresumes, fun _ => foreachSample_notFound_iff hequals, hcuts, ?_, ?_, ?_⟩
  · intro τ cbs s
    rw [hcuts]
    exact flatten_cut_prefix cbs xs s
  · intro τ cbs s
    rw [hcuts]
    exact flatten_cut_eq cbs xs s
  · intro τ cbs s
    rw [hcuts]
    exact exists_end_of_length_lt cbs xs s

/-- Paged iteration visits every entry of either database exactly once. -/
theorem samples_pagesOnce {pool4 : Pool4} {client : Client}
    (hpool : pool4.Pairwise fun one two => pool4Equals one two = false)
    (hclient : client.Pairwise fun one two => prefix6Equals one two = false) :
    PagesOnce pool4 (fun _ offset cb arg => pool4ForeachSample pool4 cb arg offset) ∧
      PagesOnce client (fun _ offset func arg =>
        clientForEachsample client func arg offset) := by
  have hentries : pool4.Nodup := by
    apply hpool.imp
    intro one two hdiffer heq
    rw [← Bool.not_eq_true, pool4Equals_iff] at hdiffer
    exact hdiffer heq
  have hprefixes : client.Nodup := by
    apply hclient.imp
    intro one two hdiffer heq
    rw [← Bool.not_eq_true, prefix6Equals_iff] at hdiffer
    exact hdiffer heq
  exact ⟨foreachSample_pagesOnce (fun _ _ => pool4Equals_iff) hentries,
    foreachSample_pagesOnce (fun _ _ => prefix6Equals_iff) hprefixes⟩

theorem samples_pagesOnce_twoEach :
    PagesOnce [⟨1, 6, 9, ⟨5, 6⟩⟩, ⟨1, 6, 9, ⟨8, 8⟩⟩] (fun _ offset cb arg =>
        pool4ForeachSample [⟨1, 6, 9, ⟨5, 6⟩⟩, ⟨1, 6, 9, ⟨8, 8⟩⟩] cb arg offset) ∧
      PagesOnce [⟨⟨1, 0, 0, 0⟩, 127⟩, ⟨⟨1, 0, 0, 0⟩, 128⟩] (fun _ offset func arg =>
        clientForEachsample [⟨⟨1, 0, 0, 0⟩, 127⟩, ⟨⟨1, 0, 0, 0⟩, 128⟩] func arg offset) :=
  samples_pagesOnce (by decide) (by decide)

end MaskPool
