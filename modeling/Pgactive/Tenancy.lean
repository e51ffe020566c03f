import Mathlib.Logic.Function.Basic
import Mathlib.Tactic.SplitIfs

/-!
# Rooms and their tenants

A room that is let has a use. A tenancy is proper when every party finds its room let for its own
use and no room has two tenants. Letting an empty room and giving up a room keep it proper; a room
may be emptied by somebody else when it has no tenant or when its tenant leaves at the same moment.
-/

/-- Rooms `ι` with uses `κ`, and parties `ρ`. -/
structure Tenancy (ρ ι κ : Type*) where
  /-- What a room is let for, if it is let. -/
  room : ι → Option κ
  /-- The room of a party, if it has one, and what it uses it for. -/
  tenant : ρ → Option (ι × κ)

namespace Tenancy

variable {ρ ι κ : Type*} {T T' : Tenancy ρ ι κ}

/-- Every party has its room to itself, for its own use. -/
structure Proper (T : Tenancy ρ ι κ) : Prop where
  let_to : ∀ {w i k}, T.tenant w = some (i, k) → T.room i = some k
  unique : ∀ {w w' i k k'}, T.tenant w = some (i, k) → T.tenant w' = some (i, k') → w = w'

theorem Proper.ne_of_room_eq_none (h : T.Proper) {i : ι} (hi : T.room i = none) (w : ρ) (k : κ) :
    T.tenant w ≠ some (i, k) := by
  intro hw
  have := h.let_to hw
  simp [hi] at this

variable [DecidableEq ρ] [DecidableEq ι]

/-- The moves that keep a tenancy proper. -/
inductive Move (T : Tenancy ρ ι κ) : Tenancy ρ ι κ → Prop
  /-- An empty room is let. -/
  | grant {i : ι} (w : ρ) (k : κ) (hi : T.room i = none) :
      Move T ⟨Function.update T.room i (some k), Function.update T.tenant w (some (i, k))⟩
  /-- Parties give up their rooms, which stay let. -/
  | leave (tenant : ρ → Option (ι × κ))
      (hle : ∀ w, tenant w = T.tenant w ∨ tenant w = none) : Move T ⟨T.room, tenant⟩
  /-- A party gives up its room, and the room is emptied. -/
  | evict {w : ρ} {i : ι} {k : κ} (hw : T.tenant w = some (i, k)) :
      Move T ⟨Function.update T.room i none, Function.update T.tenant w none⟩
  /-- Rooms without a tenant are emptied. -/
  | vacate (room : ι → Option κ)
      (hroom : ∀ i, room i = T.room i ∨ ∀ w k, T.tenant w ≠ some (i, k)) : Move T ⟨room, T.tenant⟩

theorem Move.refl (T : Tenancy ρ ι κ) : Move T T := .leave T.tenant fun _ => .inl rfl

theorem Proper.move (h : T.Proper) (hmove : Move T T') : T'.Proper := by
  cases hmove with
  | @grant i w k hi =>
    have hne := h.ne_of_room_eq_none hi
    constructor
    · intro w' i' k' hw'
      by_cases hww : w' = w
      · subst hww
        simp only [Function.update_self, Option.some.injEq, Prod.mk.injEq] at hw'
        obtain ⟨rfl, rfl⟩ := hw'
        exact Function.update_self ..
      · simp only [Function.update_of_ne hww] at hw'
        have hii : i' ≠ i := fun heq => hne w' k' (heq ▸ hw')
        simpa only [Function.update_of_ne hii] using h.let_to hw'
    · intro w₁ w₂ j k₁ k₂ h₁ h₂
      simp only [Function.update_apply] at h₁ h₂
      split_ifs at h₁ h₂ with hw₁ hw₂ hw₂
      · exact hw₁.trans hw₂.symm
      · simp only [Option.some.injEq, Prod.mk.injEq] at h₁
        exact absurd (h₁.1 ▸ h₂) (hne w₂ k₂)
      · simp only [Option.some.injEq, Prod.mk.injEq] at h₂
        exact absurd (h₂.1 ▸ h₁) (hne w₁ k₁)
      · exact h.unique h₁ h₂
  | leave tenant hle =>
    have hold : ∀ {w p}, tenant w = some p → T.tenant w = some p := by
      intro w p hw
      rcases hle w with heq | hnone
      · exact heq ▸ hw
      · simp [hnone] at hw
    exact ⟨fun hw => h.let_to (hold hw), fun h₁ h₂ => h.unique (hold h₁) (hold h₂)⟩
  | @evict w i k hw =>
    have hold : ∀ {w' p}, Function.update T.tenant w none w' = some p →
        w' ≠ w ∧ T.tenant w' = some p := by
      intro w' p hw'
      by_cases hww : w' = w
      · subst hww
        simp at hw'
      · exact ⟨hww, by rwa [Function.update_of_ne hww] at hw'⟩
    constructor
    · intro w' i' k' hw'
      obtain ⟨hne, hw'⟩ := hold hw'
      have hii : i' ≠ i := fun heq => hne (h.unique (heq ▸ hw') hw)
      simpa only [Function.update_of_ne hii] using h.let_to hw'
    · exact fun h₁ h₂ => h.unique (hold h₁).2 (hold h₂).2
  | vacate room hroom =>
    refine ⟨fun {w i k} hw => ?_, h.unique⟩
    rcases hroom i with heq | hfree
    · exact heq.trans (h.let_to hw)
    · exact absurd hw (hfree w k)

end Tenancy
