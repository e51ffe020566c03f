import Pgactive.NodeIdentifier

/-!
# Slots of the node identifier cache

A process that misses releases the lock, calls the getter function, and takes the first free slot
without another look. So two processes that miss at the same time occupy two slots, and a reset
clears only the first of them.
-/

namespace Pgactive.NodeIdentifier

open Transition

variable {σ : Type} {d nid : ℕ} {nids : List Cell}

theorem length_held_shmemSet (d nid : ℕ) (nids : List Cell) :
    (held d (shmemSet d nid nids)).length =
      (held d nids).length + if nid ≠ 0 ∧ Cell.empty ∈ nids then 1 else 0 := by
  induction nids with
  | nil => simp [shmemSet, held]
  | cons w nids ih =>
    rw [shmemSet]
    by_cases hw : w = .empty
    · subst hw
      rw [if_pos rfl, held_cons, held_cons, empty_holds]
      by_cases hnid : nid = 0
      · simp [Cell.holds, hnid]
      · simp [Cell.holds, hnid]
    · have hmem : Cell.empty ∈ w :: nids ↔ Cell.empty ∈ nids := by
        simp [List.mem_cons, Ne.symm hw]
      rw [if_neg hw, held_cons, held_cons]
      simp only [hmem]
      by_cases hholds : w.holds d = true
      · rw [if_pos hholds, if_pos hholds, List.length_cons, List.length_cons, ih]
        omega
      · rw [if_neg hholds, if_neg hholds, ih]

/-- At most one slot is occupied for each database. -/
def OneEach (nids : List Cell) : Prop := ∀ d, (held d nids).length ≤ 1

theorem OneEach.shmemSet_iff (h : OneEach nids) :
    OneEach (shmemSet d nid nids) ↔ nid = 0 ∨ held d nids = [] ∨ Cell.empty ∉ nids := by
  have hother : ∀ e, e ≠ d → (held e (shmemSet d nid nids)).length ≤ 1 := by
    intro e he
    rw [held_shmemSet_of_ne he]
    exact h e
  have hdb : OneEach (shmemSet d nid nids) ↔ (held d (shmemSet d nid nids)).length ≤ 1 := by
    refine ⟨fun hone => hone d, fun hone e => ?_⟩
    by_cases he : e = d
    · rw [he]
      exact hone
    · exact hother e he
  rw [hdb, length_held_shmemSet, ← List.length_eq_zero_iff]
  have hlength := h d
  by_cases hfree : nid ≠ 0 ∧ Cell.empty ∈ nids
  · rw [if_pos hfree]
    simp only [hfree.1, hfree.2, not_true, or_false, false_or]
    omega
  · rw [if_neg hfree]
    refine iff_of_true (by omega) ?_
    by_cases hnid : nid = 0
    · exact .inl hnid
    · exact .inr (.inr fun hmem => hfree ⟨hnid, hmem⟩)

theorem OneEach.shmemReset (h : OneEach nids) (d : ℕ) :
    OneEach (shmemReset d nids) ∧ held d (shmemReset d nids) = [] := by
  have hcleared : held d (NodeIdentifier.shmemReset d nids) = [] := by
    rw [held_shmemReset, ← List.length_eq_zero_iff, List.length_tail]
    have hlength := h d
    omega
  refine ⟨fun e => ?_, hcleared⟩
  by_cases he : e = d
  · rw [he, hcleared]
    simp
  · rw [held_shmemReset_of_ne he]
    exact h e

/-- The identifier that a step puts into the array, and the session that does it. -/
def inserted (st : State σ) : Action σ → Option (σ × ℕ)
  | .set s =>
    match st.sess s with
    | ⟨.created nid, .idle⟩ => some (s, nid)
    | _ => none
  | .fill s =>
    match (st.sess s).read with
    | .loaded nid => some (s, nid)
    | _ => none
  | _ => none

def nidsAfter (db : σ → ℕ) (st : State σ) (a : Action σ) : List Cell :=
  match inserted st a, a with
  | some (s, nid), _ => shmemSet (db s) nid st.nids
  | none, .reset s => shmemReset (db s) st.nids
  | none, .resetAll => shmemResetAll st.nids
  | none, _ => st.nids

variable {db : σ → ℕ} {st st' : State σ} {a : Action σ}

theorem oneEach_of_initial (h : st.Initial) : OneEach st.nids := by
  obtain ⟨⟨n, hnids⟩, -⟩ := h
  intro e
  rw [hnids, held, List.filter_replicate, empty_holds]
  simp

variable [DecidableEq σ]

theorem nids_of_step (h : step db st a = some st') : st'.nids = nidsAfter db st a := by
  cases a with
  | reset s =>
    simp only [step, Option.ite_none_right_eq_some, Option.some.injEq] at h
    obtain ⟨-, rfl⟩ := h
    rfl
  | create s nid =>
    simp only [step, Option.ite_none_right_eq_some, Option.some.injEq] at h
    obtain ⟨-, rfl⟩ := h
    rfl
  | set s =>
    simp only [step] at h
    split at h
    · next hsess =>
      cases h
      simp [nidsAfter, inserted, hsess, State.setSess]
    · cases h
  | commit s =>
    simp only [step] at h
    split at h
    · cases h
      rfl
    · cases h
  | abort s =>
    cases h
    rfl
  | get s =>
    simp only [step, Option.ite_none_right_eq_some] at h
    obtain ⟨-, h⟩ := h
    split at h
    · cases h
      rfl
    · cases h
      rfl
  | load s =>
    simp only [step] at h
    split at h
    · cases h
      rfl
    · cases h
  | fill s =>
    simp only [step] at h
    split at h
    · next hread =>
      cases h
      simp [nidsAfter, inserted, hread, State.setSess]
    · cases h
  | resetAll =>
    cases h
    rfl

/-- After the step at most one slot is occupied for each database, and none for a database for
which it was a reset. -/
def SlotsRight (db : σ → ℕ) (x : State σ × Action σ × State σ) : Prop :=
  OneEach x.2.2.nids ∧ ∀ s, x.2.1 = .reset s → held (db s) x.2.2.nids = []

/-- If the step puts an identifier into the array, then no slot is occupied for the database, or no
slot is free. -/
def InsertsFirst (db : σ → ℕ) (x : State σ × Action σ × State σ) : Prop :=
  ∀ p ∈ inserted x.1 x.2.1, p.2 = 0 ∨ held (db p.1) x.1.nids = [] ∨ Cell.empty ∉ x.1.nids

instance (x : State σ × Action σ × State σ) : Decidable (InsertsFirst db x) :=
  inferInstanceAs (Decidable (∀ _ ∈ _, _))

theorem slotsRight_iff (h : OneEach st.nids) (hstep : step db st a = some st') :
    SlotsRight db (st, a, st') ↔ InsertsFirst db (st, a, st') := by
  unfold SlotsRight InsertsFirst
  dsimp only
  rw [nids_of_step hstep]
  cases hinserted : inserted st a with
  | some insertion =>
    obtain ⟨s, nid⟩ := insertion
    have hnids : nidsAfter db st a = shmemSet (db s) nid st.nids := by
      unfold nidsAfter
      rw [hinserted]
    have hreset : ∀ t, a ≠ .reset t := by
      rintro t rfl
      cases hinserted
    rw [hnids, h.shmemSet_iff]
    constructor
    · rintro ⟨hfirst, -⟩ p hp
      cases hp
      exact hfirst
    · intro hfirst
      exact ⟨hfirst (s, nid) rfl, fun t ht => absurd ht (hreset t)⟩
  | none =>
    refine iff_of_true ?_ (by simp)
    cases a with
    | reset s =>
      obtain ⟨hone, hcleared⟩ := h.shmemReset (db s)
      refine ⟨hone, fun t ht => ?_⟩
      cases ht
      exact hcleared
    | resetAll => exact ⟨fun e => by simp [nidsAfter, inserted], fun t ht => by cases ht⟩
    | set s | fill s =>
      unfold nidsAfter
      rw [hinserted]
      exact ⟨h, fun t ht => by cases ht⟩
    | create s nid | commit s | abort s | get s | load s => exact ⟨h, fun t ht => by cases ht⟩

/-- For every interleaving of sessions: at most one slot is occupied for each database after every
step, and no slot is occupied for a database after a reset for it, exactly if an identifier is put
into the array only while no slot is occupied for its database, or no slot is free. -/
theorem nidSlots_right (db : σ → ℕ) (st : State σ) (actions : List (Action σ)) (hst : st.Initial) :
    (∀ x ∈ trace (step db) st actions, SlotsRight db x) ↔
      ∀ x ∈ trace (step db) st actions, InsertsFirst db x :=
  forall_trace_iff (I := fun st => OneEach st.nids) (fun _ _ _ h hstep => slotsRight_iff h hstep)
    (fun _ _ _ _ _ hright => hright.1) (oneEach_of_initial hst) actions

/-- A session that misses, reads the identifier and puts it into the array is alone there. -/
theorem nidSlots_right_one :
    five.Initial ∧ (∀ x ∈ trace (step sameDatabase) five [.get 0, .load 0, .fill 0, .reset 0],
      SlotsRight sameDatabase x) := by
  refine ⟨five_initial, (nidSlots_right sameDatabase five _ five_initial).2 ?_⟩
  decide

/-- Two sessions that miss at the same time occupy two slots, and a reset leaves one of them. -/
theorem nidSlots_two :
    five.Initial ∧
      ((run (step sameDatabase) (fun _ _ => True) five
        [.get 0, .get 1, .load 0, .load 1, .fill 0, .fill 1]).map fun st => held 1 st.nids) =
          some [5, 5] ∧
      ((run (step sameDatabase) (fun _ _ => True) five
        [.get 0, .get 1, .load 0, .load 1, .fill 0, .fill 1, .reset 0]).map
          fun st => held 1 st.nids) = some [5] :=
  ⟨five_initial, by decide, by decide⟩

end Pgactive.NodeIdentifier
