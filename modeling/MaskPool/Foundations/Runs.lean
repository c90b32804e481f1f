import Mathlib.Tactic

/-!
# Runs of a deterministic system and the history they leave

A run folds a step function over a list of operations; its trace keeps each operation
together with the state it was executed in. `Live` reads a history of events the way
a membership law is stated: some event adds, and no later one clears.
-/

namespace MaskPool.Runs

variable {σ ι ε : Type*}

section Trace

variable (step : σ → ι → σ)

def run (s : σ) (ops : List ι) : σ := ops.foldl step s

def trace : σ → List ι → List (σ × ι)
  | _, [] => []
  | s, op :: ops => (s, op) :: trace (step s op) ops

@[simp] theorem run_nil (s : σ) : run step s [] = s := rfl

@[simp] theorem run_cons (s : σ) (op : ι) (ops : List ι) :
    run step s (op :: ops) = run step (step s op) ops := rfl

theorem run_append (s : σ) (ops more : List ι) :
    run step s (ops ++ more) = run step (run step s ops) more := List.foldl_append

theorem trace_append (s : σ) (ops more : List ι) :
    trace step s (ops ++ more) = trace step s ops ++ trace step (run step s ops) more := by
  induction ops generalizing s with
  | nil => rfl
  | cons op ops ih => rw [List.cons_append, trace, trace, ih, List.cons_append, run_cons]

@[simp] theorem map_snd_trace (s : σ) (ops : List ι) :
    (trace step s ops).map Prod.snd = ops := by
  induction ops generalizing s with
  | nil => rfl
  | cons op ops ih => rw [trace, List.map_cons, ih]

theorem exists_split_of_mem_trace {s : σ} {ops : List ι} {e : σ × ι}
    (he : e ∈ trace step s ops) :
    ∃ before after, ops = before ++ e.2 :: after ∧ e.1 = run step s before := by
  induction ops generalizing s with
  | nil => cases he
  | cons op ops ih =>
    rcases List.mem_cons.mp he with rfl | he
    · exact ⟨[], ops, rfl, rfl⟩
    · obtain ⟨before, after, hsplit, hstate⟩ := ih he
      exact ⟨op :: before, after, by rw [hsplit, List.cons_append], hstate⟩

/-- A relation every step respects links each state of the trace to all later ones. -/
theorem trace_pairwise {R : σ → σ → Prop} (hrefl : ∀ s, R s s)
    (htrans : ∀ {a b c}, R a b → R b c → R a c) (hstep : ∀ s op, R s (step s op))
    (s : σ) (ops : List ι) :
    (∀ e ∈ trace step s ops, R s e.1) ∧
      (trace step s ops).Pairwise fun e later => R (step e.1 e.2) later.1 := by
  induction ops generalizing s with
  | nil => exact ⟨by simp [trace], List.Pairwise.nil⟩
  | cons op ops ih =>
    obtain ⟨hfrom, hpair⟩ := ih (step s op)
    refine ⟨?_, List.pairwise_cons.mpr ⟨hfrom, hpair⟩⟩
    intro e he
    rcases List.mem_cons.mp he with rfl | he
    · exact hrefl s
    · exact htrans (hstep s op) (hfrom e he)

theorem run_related {R : σ → σ → Prop} (hrefl : ∀ s, R s s)
    (htrans : ∀ {a b c}, R a b → R b c → R a c) (hstep : ∀ s op, R s (step s op))
    (s : σ) (ops : List ι) : R s (run step s ops) := by
  induction ops generalizing s with
  | nil => exact hrefl s
  | cons op ops ih => exact htrans (hstep s op) (ih (step s op))

/-- For a run that keeps to some operations it is enough that these respect the relation. -/
theorem run_related_of_mem {R : σ → σ → Prop} (hrefl : ∀ s, R s s)
    (htrans : ∀ {a b c}, R a b → R b c → R a c) {ops : List ι}
    (hstep : ∀ s, ∀ op ∈ ops, R s (step s op)) (s : σ) : R s (run step s ops) := by
  induction ops generalizing s with
  | nil => exact hrefl s
  | cons op ops ih =>
    have hrest : R (step s op) (run step (step s op) ops) :=
      ih (fun s' op' hop' => hstep s' op' (List.mem_cons_of_mem _ hop')) (step s op)
    exact htrans (hstep s op List.mem_cons_self) hrest

/-- An operation that leaves the state alone in every state of the trace can be
dropped from the run altogether. -/
theorem run_eq_self {s : σ} {ops : List ι}
    (h : ∀ e ∈ trace step s ops, step e.1 e.2 = e.1) : run step s ops = s := by
  induction ops generalizing s with
  | nil => rfl
  | cons op ops ih =>
    have hstep : step s op = s := h (s, op) List.mem_cons_self
    rw [run_cons, hstep]
    apply ih
    intro e he
    exact h e (List.mem_cons_of_mem _ (by rwa [hstep]))

end Trace

variable (adds clears : ε → Prop)

/-- Some event adds, and none after it clears. -/
def Live (history : List ε) : Prop :=
  ∃ before e after, history = before ++ e :: after ∧ adds e ∧ ∀ e' ∈ after, ¬clears e'

theorem not_live_nil : ¬Live adds clears [] := by
  intro h
  obtain ⟨before, e, after, h, -⟩ := h
  simp at h

theorem live_append_singleton {history : List ε} {e : ε} :
    Live adds clears (history ++ [e]) ↔ adds e ∨ Live adds clears history ∧ ¬clears e := by
  constructor
  · intro h
    obtain ⟨before, added, after, heq, hadds, hafter⟩ := h
    rcases List.eq_nil_or_concat after with rfl | ⟨after, last, rfl⟩
    · obtain ⟨-, hlast⟩ := List.append_inj' heq rfl
      obtain rfl : e = added := by simpa using hlast
      exact Or.inl hadds
    · have hsplit : history ++ [e] = (before ++ added :: after) ++ [last] := by simp [heq]
      obtain ⟨hhistory, hlast⟩ := List.append_inj' hsplit rfl
      obtain rfl : e = last := by simpa using hlast
      refine Or.inr ⟨⟨before, added, after, hhistory, hadds, ?_⟩, hafter e (by simp)⟩
      intro e' he'
      exact hafter e' (by simp [he'])
  · rintro (hadds | ⟨⟨before, added, after, rfl, hadds, hafter⟩, hclear⟩)
    · exact ⟨history, e, [], rfl, hadds, by simp⟩
    · refine ⟨before, added, after ++ [e], by simp, hadds, ?_⟩
      intro e' he'
      rcases List.mem_append.mp he' with he' | he'
      · exact hafter e' he'
      · obtain rfl : e' = e := by simpa using he'
        exact hclear

theorem live_map {δ : Type*} (f : δ → ε) (history : List δ) :
    Live adds clears (history.map f) ↔ Live (adds ∘ f) (clears ∘ f) history := by
  induction history using List.reverseRecOn with
  | nil => simp [not_live_nil]
  | append_singleton history e ih =>
    rw [List.map_append, List.map_singleton, live_append_singleton, live_append_singleton, ih]
    rfl

/-- A state predicate that each executed step switches on when it adds and off when it
clears holds at the end of a run exactly when the history leaves it live. -/
theorem holds_iff_live {step : σ → ι → σ} {P : σ → Prop} {adds clears : σ × ι → Prop}
    {s : σ} (hinit : ¬P s) (ops : List ι)
    (hstep : ∀ e ∈ trace step s ops,
      (P (step e.1 e.2) ↔ adds e ∨ P e.1 ∧ ¬clears e)) :
    P (run step s ops) ↔ Live adds clears (trace step s ops) := by
  induction ops using List.reverseRecOn with
  | nil => simp [trace, hinit, not_live_nil]
  | append_singleton ops op ih =>
    rw [trace_append] at hstep
    have hlast := hstep (run step s ops, op) (by simp [trace])
    have hprior := ih fun e he => hstep e (List.mem_append_left _ he)
    rw [run_append, run_cons, run_nil, hlast, hprior, trace_append]
    exact (live_append_singleton adds clears).symm

end MaskPool.Runs
