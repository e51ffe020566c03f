import Mathlib.Tactic.Common

/-!
# Loops that poll

A loop that looks at something, turn after turn, until a turn gives a result. What the loop
sees at its turns is given from outside, so it is a function of the number of the turn. The
loop may go on for ever; it is run for a bounded number of turns here.
-/

namespace Polling

variable {α : Type} {turn : ℕ → Option α} {fuel start n : ℕ} {a : α}

/-- Run at most `fuel` turns, from the turn `start` on: the first turn that gives a result,
with this result. -/
def poll (turn : ℕ → Option α) : ℕ → ℕ → Option (ℕ × α)
  | 0, _ => none
  | fuel + 1, start =>
    match turn start with
    | some a => some (start, a)
    | none => poll turn fuel (start + 1)

theorem poll_eq_none_iff :
    poll turn fuel start = none ↔ ∀ m, start ≤ m → m < start + fuel → turn m = none := by
  induction fuel generalizing start with
  | zero =>
    simp only [poll, true_iff]
    intro m hle hlt
    omega
  | succ fuel ih =>
    cases hturn : turn start with
    | some a =>
      simp only [poll, hturn, reduceCtorEq, false_iff]
      intro hnone
      have hstart := hnone start (Nat.le_refl _) (by omega)
      simp [hturn] at hstart
    | none =>
      simp only [poll, hturn, ih]
      constructor
      · intro hnone m hle hlt
        by_cases hm : m = start
        · rw [hm, hturn]
        · exact hnone m (by omega) (by omega)
      · intro hnone m hle hlt
        exact hnone m (by omega) (by omega)

theorem poll_eq_some_iff :
    poll turn fuel start = some (n, a) ↔ start ≤ n ∧ n < start + fuel ∧ turn n = some a ∧
      ∀ m, start ≤ m → m < n → turn m = none := by
  induction fuel generalizing start with
  | zero =>
    simp only [poll, reduceCtorEq, false_iff]
    rintro ⟨hle, hlt, -⟩
    omega
  | succ fuel ih =>
    cases hturn : turn start with
    | some b =>
      simp only [poll, hturn, Option.some.injEq, Prod.mk.injEq]
      constructor
      · rintro ⟨rfl, rfl⟩
        exact ⟨Nat.le_refl _, by omega, hturn, fun m hle hlt => by omega⟩
      · rintro ⟨hle, -, hn, hbefore⟩
        have heq : n = start := by
          by_contra hne
          have hnone := hbefore start (Nat.le_refl _) (by omega)
          simp [hturn] at hnone
        subst heq
        exact ⟨rfl, Option.some.inj (hturn.symm.trans hn)⟩
    | none =>
      simp only [poll, hturn, ih]
      constructor
      · rintro ⟨hle, hlt, hn, hbefore⟩
        refine ⟨by omega, by omega, hn, fun m hle' hlt' => ?_⟩
        by_cases hm : m = start
        · rw [hm, hturn]
        · exact hbefore m (by omega) hlt'
      · rintro ⟨hle, hlt, hn, hbefore⟩
        have hne : n ≠ start := by
          rintro rfl
          simp [hturn] at hn
        exact ⟨by omega, by omega, hn, fun m hle' hlt' => hbefore m (by omega) hlt'⟩

theorem poll_succ_of_none (h : poll turn n 0 = none) :
    poll turn (n + 1) 0 = (turn n).map fun a => (n, a) := by
  have hbefore := poll_eq_none_iff.mp h
  cases hturn : turn n with
  | none =>
    rw [Option.map_none, poll_eq_none_iff]
    intro m hle hlt
    by_cases hm : m = n
    · rw [hm, hturn]
    · exact hbefore m hle (by omega)
  | some a =>
    rw [Option.map_some, poll_eq_some_iff]
    exact ⟨Nat.zero_le n, by omega, hturn, fun m hle hlt => hbefore m hle (by omega)⟩

theorem poll_eq_none_of_some (h : poll turn fuel 0 = some (n, a)) :
    poll turn n 0 = none ∧ turn n = some a := by
  obtain ⟨-, -, hn, hbefore⟩ := poll_eq_some_iff.mp h
  refine ⟨poll_eq_none_iff.mpr fun m hle hlt => ?_, hn⟩
  exact hbefore m hle (by omega)

end Polling
