import Mathlib.Algebra.GroupWithZero.Nat
import Mathlib.Data.Int.Notation
import Mathlib.Data.List.Basic

set_option relaxedAutoImplicit false
set_option autoImplicit false

/-!
# Machines with inputs and outputs

A machine has a state, reacts to an input by moving to a new state or by refusing the input,
and emits outputs as it moves. A concurrent program fits this shape when the input says which
of its enabled actions the scheduler or the environment picks next: a run is then one
interleaving, and a statement about every run is a statement about every interleaving.

Runs carry the list of outputs produced so far, so that a property may speak about history
without the state recording it. They also carry a *guard*, a condition that every step of the
run meets in the state it is taken from; `fun _ _ _ => True` gives all runs.

## Main definitions

* `Machine` — an initial state and a partial step function with outputs.
* `Machine.Run` — the runs whose steps meet a guard.
* `Machine.exec` — the run along a given list of inputs, computed.

## Main results

* `Machine.Run.invariant` — the invariant rule.
* `Machine.run_iff_reach` — the guarded runs are those with a property that shows the guard.
* `Machine.Run.simulate` — a step-by-step simulation maps runs to runs.
* `Machine.Run.refine` — the same for a relation between the states, with the same outputs.
* `Machine.run_of_exec` — a computed run is a run.
* `Machine.Run.exec_invariant` — the invariant rule for the rest of a run.
* `Machine.length_le_of_budget`, `Machine.length_le_of_exec` — a budget, or a decreasing measure,
  bounds the length of every run.
* `Machine.exists_exec_of_measure` — with a decreasing measure a run can come to rest.
-/

/-- A machine: its initial state and its step function, which answers an input with the next
state and the outputs of the step, or refuses it. -/
structure Machine (σ ι ω : Type*) where
  init : σ
  step : σ → ι → Option (σ × List ω)

namespace Machine

variable {σ ι ω : Type*} (M : Machine σ ι ω)

/-- `M.Run G tr s`: some run of `M` ends in `s` with outputs `tr`, and every step of it met
the guard `G` in the history and state it was taken from. -/
inductive Run (G : List ω → σ → ι → Prop) : List ω → σ → Prop
  | nil : Run G [] M.init
  | snoc {tr : List ω} {s : σ} {e : ι} {s' : σ} {out : List ω} :
      Run G tr s → G tr s e → M.step s e = some (s', out) → Run G (tr ++ out) s'

/-- The runs with no condition on their steps. -/
abbrev Reach : List ω → σ → Prop := M.Run fun _ _ _ => True

variable {M} {G G' : List ω → σ → ι → Prop} {tr : List ω} {s : σ}

/-- **The invariant rule.** What holds initially and is kept by every guarded step from a
state where it holds, holds at the end of every guarded run. -/
theorem Run.invariant (P : List ω → σ → Prop) (hinit : P [] M.init)
    (hstep : ∀ tr s e s' out, M.Run G tr s → P tr s → G tr s e →
      M.step s e = some (s', out) → P (tr ++ out) s')
    (h : M.Run G tr s) : P tr s := by
  induction h with
  | nil => exact hinit
  | snoc hrun hg hs ih => exact hstep _ _ _ _ _ hrun ih hg hs

/-- A weaker guard allows more runs. -/
theorem Run.mono (hG : ∀ tr s e, G tr s e → G' tr s e) (h : M.Run G tr s) : M.Run G' tr s := by
  induction h with
  | nil => exact .nil
  | snoc _ hg hs ih => exact .snoc ih (hG _ _ _ hg) hs

/-- Forgetting the guard. -/
theorem Run.reach (h : M.Run G tr s) : M.Reach tr s := h.mono fun _ _ _ _ => trivial

/-- **Guards that show.** If every step of a run keeps a property of the run exactly when it meets
the guard, the guarded runs are those with the property. -/
theorem run_iff_reach (P : List ω → σ → Prop) (hinit : P [] M.init)
    (hstep : ∀ tr s e s' out, M.Reach tr s → M.step s e = some (s', out) →
      (P (tr ++ out) s' ↔ P tr s ∧ G tr s e)) : M.Run G tr s ↔ M.Reach tr s ∧ P tr s := by
  constructor
  · refine fun h => ⟨h.reach, h.invariant P hinit fun tr s e s' out hrun hP hg hs => ?_⟩
    exact (hstep tr s e s' out hrun.reach hs).mpr ⟨hP, hg⟩
  · rintro ⟨hreach, hP⟩
    induction hreach with
    | nil => exact .nil
    | snoc hrun _ hs ih =>
      obtain ⟨hP, hg⟩ := (hstep _ _ _ _ _ hrun hs).mp hP
      exact .snoc (ih hP) hg hs

/-- **Simulation.** If `f` maps the initial state of `M` to that of `N` and every guarded step
of `M` either is invisible to `f` and `g` or is a guarded step of `N` with the outputs `g`
keeps, then guarded runs of `M` map to guarded runs of `N`. -/
theorem Run.simulate {σ' ι' ω' : Type*} {N : Machine σ' ι' ω'}
    {H : List ω' → σ' → ι' → Prop} (f : σ → σ') (g : ω → Option ω') (hinit : f M.init = N.init)
    (hstep : ∀ tr s e s' out, M.Run G tr s → G tr s e → M.step s e = some (s', out) →
      (f s' = f s ∧ out.filterMap g = []) ∨
        ∃ e', H (tr.filterMap g) (f s) e' ∧
          N.step (f s) e' = some (f s', out.filterMap g))
    (h : M.Run G tr s) : N.Run H (tr.filterMap g) (f s) := by
  induction h with
  | nil => rw [hinit]; exact .nil
  | snoc hrun hg hs ih =>
    rw [List.filterMap_append]
    rcases hstep _ _ _ _ _ hrun hg hs with ⟨hf, ho⟩ | ⟨e', hH, hN⟩
    · rwa [hf, ho, List.append_nil]
    · exact .snoc ih hH hN

/-- **Refinement.** If every guarded step of `M`, from a state that is related to one which `N`
reaches with the same outputs, is matched by a run of `N` to a related state, then every guarded
run of `M` is a guarded run of `N` with the same outputs. -/
theorem Run.refine {σ' ι' : Type*} {N : Machine σ' ι' ω} {H : List ω → σ' → ι' → Prop}
    (R : σ → σ' → Prop) (hinit : R M.init N.init)
    (hstep : ∀ tr s e s' out t, R s t → N.Run H tr t → G tr s e → M.step s e = some (s', out) →
      ∃ t', R s' t' ∧ N.Run H (tr ++ out) t')
    (h : M.Run G tr s) : ∃ t, R s t ∧ N.Run H tr t := by
  induction h with
  | nil => exact ⟨_, hinit, .nil⟩
  | snoc _ hg hs ih =>
    obtain ⟨t, hR, ht⟩ := ih
    exact hstep _ _ _ _ _ t hR ht hg hs

/-! ## Computed runs -/

variable (M) in
/-- The run along a list of inputs from a given history and state, if `M` takes every one of
them and the test `ok` accepts every step. -/
def exec (ok : List ω → σ → ι → Bool) : List ω → σ → List ι → Option (List ω × σ)
  | tr, s, [] => some (tr, s)
  | tr, s, e :: es =>
    match ok tr s e, M.step s e with
    | true, some (s', out) => exec ok (tr ++ out) s' es
    | _, _ => none

/-- One step of a computed run. -/
lemma exec_cons {ok : List ω → σ → ι → Bool} {e : ι} {es : List ι} {r : List ω × σ}
    (h : M.exec ok tr s (e :: es) = some r) :
    ∃ s' out, ok tr s e = true ∧ M.step s e = some (s', out) ∧
      M.exec ok (tr ++ out) s' es = some r := by
  rw [exec] at h
  split at h
  · exact ⟨_, _, ‹_›, ‹_›, h⟩
  · cases h

/-- A computed run that continues a run is a run. -/
theorem Run.exec {ok : List ω → σ → ι → Bool} {es : List ι} {r : List ω × σ}
    (hok : ∀ tr s e, ok tr s e = true → G tr s e) (hrun : M.Run G tr s)
    (h : M.exec ok tr s es = some r) : M.Run G r.1 r.2 := by
  induction es generalizing tr s with
  | nil => cases h; exact hrun
  | cons e es ih =>
    obtain ⟨s', out, he, hs, h'⟩ := exec_cons h
    exact ih (.snoc hrun (hok _ _ _ he) hs) h'

/-- A computed run from the initial state is a run. -/
theorem run_of_exec {ok : List ω → σ → ι → Bool} {es : List ι} {r : List ω × σ}
    (hok : ∀ tr s e, ok tr s e = true → G tr s e)
    (h : M.exec ok [] M.init es = some r) : M.Run G r.1 r.2 :=
  Run.exec hok .nil h

/-- The invariant rule for the rest of a run: what holds where a computed run goes on and is kept
by every step that the test accepts, holds where it ends. -/
theorem Run.exec_invariant {ok : List ω → σ → ι → Bool} {es : List ι} {r : List ω × σ}
    (P : List ω → σ → Prop) (hok : ∀ tr s e, ok tr s e = true → G tr s e)
    (hstep : ∀ tr s e s' out, M.Run G tr s → P tr s → ok tr s e = true →
      M.step s e = some (s', out) → P (tr ++ out) s')
    (hrun : M.Run G tr s) (hP : P tr s) (h : M.exec ok tr s es = some r) : P r.1 r.2 := by
  induction es generalizing tr s with
  | nil => cases h; exact hP
  | cons e es ih =>
    obtain ⟨s', out, he, hs, h'⟩ := exec_cons h
    exact ih (.snoc hrun (hok _ _ _ he) hs) (hstep _ _ _ _ _ hrun hP he hs) h'

/-- **Budgets.** If every step that the test accepts costs at least one, where an input may add its
gain to what there is, then a run goes on with no more steps than what there is at its start and the
gains of its inputs allow, less what is left at its end. -/
theorem length_le_of_budget {ok : List ω → σ → ι → Bool} (μ : List ω → σ → ℤ) (gain : ι → ℕ)
    (hok : ∀ tr s e, ok tr s e = true → G tr s e)
    (hμ : ∀ tr s e s' out, M.Run G tr s → ok tr s e = true → M.step s e = some (s', out) →
      μ (tr ++ out) s' + 1 ≤ μ tr s + gain e)
    {es : List ι} {r : List ω × σ} (hrun : M.Run G tr s) (h : M.exec ok tr s es = some r) :
    es.length + μ r.1 r.2 ≤ μ tr s + (es.map gain).sum := by
  induction es generalizing tr s with
  | nil => cases h; simp
  | cons e es ih =>
    obtain ⟨s', out, he, hs, h'⟩ := exec_cons h
    have h1 := hμ _ _ _ _ _ hrun he hs
    have h2 := ih (.snoc hrun (hok _ _ _ he) hs) h'
    simp only [List.length_cons, List.map_cons, List.sum_cons]
    omega

/-- **Coming to rest.** If every step that the test accepts lowers a measure that never gets
negative, a run can go on until the test accepts no step any more. -/
theorem exists_exec_of_measure (ok : List ω → σ → ι → Bool) (μ : List ω → σ → ℤ)
    (hok : ∀ tr s e, ok tr s e = true → G tr s e) (hnonneg : ∀ tr s, M.Run G tr s → 0 ≤ μ tr s)
    (hμ : ∀ tr s e s' out, M.Run G tr s → ok tr s e = true → M.step s e = some (s', out) →
      μ (tr ++ out) s' < μ tr s) (hrun : M.Run G tr s) :
    ∃ es r, M.exec ok tr s es = some r ∧ ∀ e, ok r.1 r.2 e = true → M.step r.2 e = none := by
  induction hn : (μ tr s).toNat using Nat.strongRecOn generalizing tr s with
  | ind n ih =>
    by_cases hrest : ∀ e, ok tr s e = true → M.step s e = none
    · exact ⟨[], (tr, s), rfl, hrest⟩
    · push Not at hrest
      obtain ⟨e, he, hne⟩ := hrest
      obtain ⟨⟨s', out⟩, hs⟩ := Option.ne_none_iff_exists'.mp hne
      have hlt := hμ _ _ _ _ _ hrun he hs
      have hnext : M.Run G (tr ++ out) s' := .snoc hrun (hok _ _ _ he) hs
      have hpos := hnonneg _ _ hnext
      obtain ⟨es, r, hexec, hend⟩ := ih _ (by omega) hnext rfl
      refine ⟨e :: es, r, ?_, hend⟩
      rw [Machine.exec, he, hs]
      exact hexec

/-- **Termination.** If every step that the test accepts lowers a measure, the measure of a state
bounds the number of such steps that a run goes on with from there. -/
theorem length_le_of_exec {ok : List ω → σ → ι → Bool} (μ : σ → ℕ)
    (hok : ∀ tr s e, ok tr s e = true → G tr s e)
    (hμ : ∀ tr s e s' out, M.Run G tr s → ok tr s e = true → M.step s e = some (s', out) →
      μ s' < μ s)
    {es : List ι} {r : List ω × σ} (hrun : M.Run G tr s) (h : M.exec ok tr s es = some r) :
    es.length + μ r.2 ≤ μ s := by
  have hbudget := length_le_of_budget (fun _ s => (μ s : ℤ)) (fun _ => 0) hok
    (fun tr s e s' out hrun he hs => by
      have hlt := hμ tr s e s' out hrun he hs
      omega) hrun h
  rw [List.map_const', List.sum_replicate_nat, Nat.mul_zero] at hbudget
  omega

end Machine
