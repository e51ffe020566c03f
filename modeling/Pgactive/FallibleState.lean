import Mathlib.Logic.Basic

/-!
# Computations that fail and keep their state

In C an error leaves the current function, but what has been assigned stays assigned. `Keeps inv x`
says that `x` keeps the invariant `inv` whether it returns or fails; there is a rule for each way to
put computations together.
-/

namespace FallibleState

variable {ε σ α β : Type}

variable {b : β} {x : Except ε α}

theorem except_bind_eq_ok {f : α → Except ε β} :
    (x >>= f) = .ok b ↔ ∃ a, x = .ok a ∧ f a = .ok b := by
  cases x with
  | error e => simp [bind, Except.bind]
  | ok a => simp [bind, Except.bind]

theorem except_map_eq_ok {f : α → β} : f <$> x = .ok b ↔ ∃ a, x = .ok a ∧ f a = b := by
  cases x with
  | error e => simp [Functor.map, Except.map]
  | ok a => simp [Functor.map, Except.map]

variable {f : α → β → Except ε α} {a a' : α}

theorem foldlM_cons_eq_ok {bs : List β} :
    (b :: bs).foldlM f a = .ok a' ↔ ∃ a₁, f a b = .ok a₁ ∧ bs.foldlM f a₁ = .ok a' := by
  rw [List.foldlM_cons, except_bind_eq_ok]

theorem foldlM_cons_of_ok (h : f a b = .ok a') (bs : List β) :
    (b :: bs).foldlM f a = bs.foldlM f a' := by
  rw [List.foldlM_cons, h]
  rfl

theorem foldlM_cons_ne_ok (h : ∀ a₁, f a b ≠ .ok a₁) (bs : List β) :
    (b :: bs).foldlM f a ≠ .ok a' := by
  rw [ne_eq, foldlM_cons_eq_ok]
  rintro ⟨a₁, hstep, -⟩
  exact h a₁ hstep

theorem foldlM_append_eq_ok {bs bs' : List β} :
    (bs ++ bs').foldlM f a = .ok a' ↔
      ∃ a₁, bs.foldlM f a = .ok a₁ ∧ bs'.foldlM f a₁ = .ok a' := by
  rw [List.foldlM_append, except_bind_eq_ok]

theorem except_mapError_eq_ok {ε' : Type} {f : ε → ε'} : x.mapError f = .ok a ↔ x = .ok a := by
  cases x with
  | error e => exact ⟨(nomatch ·), (nomatch ·)⟩
  | ok b =>
    constructor
    · rintro ⟨⟩
      rfl
    · rintro ⟨⟩
      rfl

/-- A computation over the state `σ` that returns a value or fails. The state outlives the
error. -/
abbrev Fallible (ε σ α : Type) := ExceptT ε (StateM σ) α

variable {x : Fallible ε σ α} {s s' : σ}

theorem bind_of_ok (h : x s = (.ok a, s')) (f : α → Fallible ε σ β) : (x >>= f) s = f a s' := by
  change (x s >>= fun r => ExceptT.bindCont f r.1 r.2) = _
  rw [h]
  rfl

variable {e : ε}

theorem bind_of_error (h : x s = (.error e, s')) (f : α → Fallible ε σ β) :
    (x >>= f) s = (.error e, s') := by
  change (x s >>= fun r => ExceptT.bindCont f r.1 r.2) = _
  rw [h]
  rfl

theorem bind_eq_ok_iff {f : α → Fallible ε σ β} :
    (x >>= f) s = (.ok b, s') ↔ ∃ a s₁, x s = (.ok a, s₁) ∧ f a s₁ = (.ok b, s') := by
  constructor
  · intro h
    cases hrun : x s with
    | mk r s₁ =>
      cases r with
      | error e =>
        rw [bind_of_error hrun] at h
        cases h
      | ok a =>
        rw [bind_of_ok hrun] at h
        exact ⟨a, s₁, rfl, h⟩
  · rintro ⟨a, s₁, hrun, hrest⟩
    rw [bind_of_ok hrun]
    exact hrest

def stateless (x : Except ε α) : Fallible ε σ α := fun s => (x, s)

theorem stateless_eq_ok_iff {x : Except ε α} :
    stateless x s = (.ok a, s') ↔ x = .ok a ∧ s' = s := by
  constructor
  · intro h
    obtain ⟨hx, hs⟩ := Prod.mk.inj h
    exact ⟨hx, hs.symm⟩
  · rintro ⟨rfl, rfl⟩
    rfl

/-- A step that has no effect when it fails. -/
def attempt (f : σ → Except ε σ) : Fallible ε σ Unit := fun s =>
  match f s with
  | .ok s' => (.ok (), s')
  | .error e => (.error e, s)

def onError (x : Fallible ε σ α) (cleanup : σ → σ) : Fallible ε σ α := fun s =>
  match x s with
  | (.ok a, s') => (.ok a, s')
  | (.error e, s') => (.error e, cleanup s')

/-- An error of `x` ends here. What the state is then depends on the one before `x` and the one
that it left. -/
def caught (x : Fallible ε σ Unit) (undo : σ → σ → σ) : Fallible ε σ Unit := fun s =>
  match x s with
  | (.ok (), s') => (.ok (), s')
  | (.error _, s') => (.ok (), undo s s')

theorem attempt_eq_ok_iff {f : σ → Except ε σ} : attempt f s = (.ok (), s') ↔ f s = .ok s' := by
  unfold attempt
  cases f s with
  | ok s₁ =>
    constructor
    · rintro ⟨⟩
      rfl
    · rintro ⟨⟩
      rfl
  | error e => exact ⟨nofun, nofun⟩

variable {cleanup : σ → σ}

theorem onError_of_error (h : x s = (.error e, s')) :
    onError x cleanup s = (.error e, cleanup s') := by
  unfold onError
  rw [h]

theorem onError_eq_ok_iff : onError x cleanup s = (.ok a, s') ↔ x s = (.ok a, s') := by
  unfold onError
  rcases x s with ⟨e | b, s₁⟩
  · constructor
    · rintro ⟨⟩
    · rintro ⟨⟩
  · rfl

theorem ite_throw_eq_ok_iff {c : Prop} [Decidable c] :
    ((if c then throw e else x : Fallible ε σ α) s).1 = .ok a ↔ ¬c ∧ (x s).1 = .ok a := by
  by_cases h : c
  · rw [if_pos h]
    exact ⟨(nomatch ·), fun heq => absurd h heq.1⟩
  · rw [if_neg h]
    exact ⟨fun heq => ⟨h, heq⟩, fun heq => heq.2⟩

def Keeps (inv : σ → Prop) (x : Fallible ε σ α) : Prop := ∀ s, inv s → inv (x s).2

variable {inv : σ → Prop}

theorem Keeps.pure (a : α) : Keeps inv (Pure.pure a : Fallible ε σ α) := fun _ h => h

theorem Keeps.throw (e : ε) : Keeps inv (MonadExcept.throw e : Fallible ε σ α) := fun _ h => h

theorem Keeps.modify {f : σ → σ} (hf : ∀ s, inv s → inv (f s)) :
    Keeps inv (modify f : Fallible ε σ PUnit) := hf

theorem Keeps.get : Keeps inv (MonadState.get : Fallible ε σ σ) := fun _ h => h

theorem Keeps.bind {f : α → Fallible ε σ β} (hx : Keeps inv x) (hf : ∀ a, Keeps inv (f a)) :
    Keeps inv (x >>= f) := by
  intro s hs
  have hfirst := hx s hs
  cases hrun : x s with
  | mk r s' =>
    rw [hrun] at hfirst
    cases r with
    | error e =>
      rw [bind_of_error hrun]
      exact hfirst
    | ok a =>
      rw [bind_of_ok hrun]
      exact hf a s' hfirst

theorem Keeps.ite {c : Prop} [Decidable c] {y : Fallible ε σ α} (hx : Keeps inv x)
    (hy : Keeps inv y) : Keeps inv (if c then x else y) := by
  split
  · exact hx
  · exact hy

theorem Keeps.attempt {f : σ → Except ε σ} (hf : ∀ s s', inv s → f s = .ok s' → inv s') :
    Keeps inv (attempt f) := by
  intro s hs
  unfold FallibleState.attempt
  cases hrun : f s with
  | ok s' => exact hf s s' hs hrun
  | error e => exact hs

theorem Keeps.onError (hx : Keeps inv x) (hcleanup : ∀ s, inv s → inv (cleanup s)) :
    Keeps inv (onError x cleanup) := by
  intro s hs
  have hkept := hx s hs
  unfold FallibleState.onError
  rcases hrun : x s with ⟨e | a, s'⟩
  · rw [hrun] at hkept
    exact hcleanup s' hkept
  · rw [hrun] at hkept
    exact hkept

theorem Keeps.caught {x : Fallible ε σ Unit} {undo : σ → σ → σ} (hx : Keeps inv x)
    (hundo : ∀ s s', inv s' → inv (undo s s')) : Keeps inv (caught x undo) := by
  intro s hs
  have hkept := hx s hs
  unfold FallibleState.caught
  rcases hrun : x s with ⟨e | a, s'⟩
  · rw [hrun] at hkept
    exact hundo s s' hkept
  · rw [hrun] at hkept
    exact hkept

end FallibleState
