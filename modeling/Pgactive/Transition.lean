import Mathlib.Order.Basic

/-!
# Runs of a partial transition function

A run may be restricted by a condition on the state before each step and the action taken there,
which is part of the notion of reachability, so that "every run whose steps all meet the condition"
is a statement about `Reach`. Concrete runs are evaluated by `run`.
-/

namespace Transition

variable {S A : Type*}

/-- Execute a list of actions. The run ends without a result at an action that is
not enabled or does not meet `ok` where it is taken. -/
def run (step : S → A → Option S) (ok : S → A → Prop) [∀ s a, Decidable (ok s a)] :
    S → List A → Option S
  | s, [] => some s
  | s, a :: as => if ok s a then (step s a).bind fun t => run step ok t as else none

/-- The states of the runs that start in an initial state and whose steps all
meet the condition `ok`. -/
inductive Reach (init : S → Prop) (step : S → A → Option S) (ok : S → A → Prop) : S → Prop
  | init {s : S} : init s → Reach init step ok s
  | step {s t : S} {a : A} : Reach init step ok s → ok s a → step s a = some t →
      Reach init step ok t

variable {init : S → Prop} {step : S → A → Option S} {ok ok' : S → A → Prop}

variable {s : S}

/-- Invariant rule: a property of the initial states that each admissible step
preserves from reachable states holds in every reachable state. -/
theorem Reach.invariant {I : S → Prop} (hinit : ∀ s, init s → I s)
    (hstep : ∀ s a t, Reach init step ok s → I s → ok s a → step s a = some t → I t)
    (hs : Reach init step ok s) : I s := by
  induction hs with
  | init h => exact hinit _ h
  | step hr hok hst ih => exact hstep _ _ _ hr ih hok hst

theorem Reach.mono (h : ∀ s a, Reach init step ok s → Reach init step ok' s → ok s a → ok' s a)
    (hs : Reach init step ok s) : Reach init step ok' s := by
  induction hs with
  | init hi => exact .init hi
  | step hr hok hst ih => exact .step ih (h _ _ hr ih hok) hst

theorem Reach.of_run [∀ s a, Decidable (ok s a)] {t : S} {as : List A} (hs : Reach init step ok s)
    (hrun : run step ok s as = some t) : Reach init step ok t := by
  induction as generalizing s with
  | nil =>
    simp only [run, Option.some.injEq] at hrun
    exact hrun ▸ hs
  | cons a as ih =>
    simp only [run] at hrun
    split at hrun
    · next hok =>
      obtain ⟨u, hu, hrest⟩ := Option.bind_eq_some_iff.mp hrun
      exact ih (.step hs hok hu) hrest
    · cases hrun

theorem Reach.exists_of_run [∀ s a, Decidable (ok s a)] (hs : Reach init step ok s) (as : List A)
    (P : S → Prop) [DecidablePred P]
    (hrun : (run step ok s as).any (fun t => decide (P t)) = true) :
    ∃ t, Reach init step ok t ∧ P t := by
  cases ht : run step ok s as with
  | none => simp [ht] at hrun
  | some t => exact ⟨t, hs.of_run ht, by simpa [ht] using hrun⟩

theorem Reach.exists_step_of_run [∀ s a, Decidable (ok s a)] (hs : Reach init step ok s)
    (as : List A) (a : A) (P : S → S → Prop) [DecidableRel P]
    (hrun : (run step ok s as).any (fun t => (step t a).any (fun u => decide (P t u))) = true) :
    ∃ t u, Reach init step ok t ∧ step t a = some u ∧ P t u := by
  cases ht : run step ok s as with
  | none => simp [ht] at hrun
  | some t =>
    cases hu : step t a with
    | none => simp [ht, hu] at hrun
    | some u => exact ⟨t, u, hs.of_run ht, hu, by simpa [ht, hu] using hrun⟩

/-! ### The steps of a run -/

/-- The steps that a list of actions makes, each with the states before and after it. An action
that is not enabled ends the run. -/
def trace (step : S → A → Option S) : S → List A → List (S × A × S)
  | _, [] => []
  | s, a :: as =>
    match step s a with
    | some t => (s, a, t) :: trace step t as
    | none => []

theorem forall_mem_trace_cons {P : S × A × S → Prop} {t : S} {a : A} {as : List A}
    (h : step s a = some t) :
    (∀ x ∈ trace step s (a :: as), P x) ↔ P (s, a, t) ∧ ∀ x ∈ trace step t as, P x := by
  rw [trace, h, List.forall_mem_cons]

theorem trace_cons_of_none {a : A} (h : step s a = none) (as : List A) :
    trace step s (a :: as) = [] := by
  rw [trace, h]

/-- Two properties of steps that agree where an invariant holds, agree on every run from a state in
which it holds, if the steps that have them keep it. -/
theorem forall_trace_iff {I : S → Prop} {P Q : S × A × S → Prop}
    (hiff : ∀ s a t, I s → step s a = some t → (P (s, a, t) ↔ Q (s, a, t)))
    (hkeep : ∀ s a t, I s → step s a = some t → P (s, a, t) → I t) (hs : I s) (as : List A) :
    (∀ x ∈ trace step s as, P x) ↔ ∀ x ∈ trace step s as, Q x := by
  induction as generalizing s with
  | nil => simp [trace]
  | cons a as ih =>
    cases hstep : step s a with
    | none => simp [trace_cons_of_none hstep]
    | some t =>
      rw [forall_mem_trace_cons hstep, forall_mem_trace_cons hstep, ← hiff s a t hs hstep]
      exact and_congr_right fun hP => ih (hkeep s a t hs hstep hP)

end Transition
