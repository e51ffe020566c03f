import Pgactive.Apply
import Pgactive.FallibleState

/-!
# What a change does to the versions of one row

The handlers search the table by key and write at the position found. These lemmas
describe them by the list of live versions with a given key, and describe conflict
resolution without user handlers by one comparison of the stored version with the
replayed transaction.
-/

namespace Pgactive

open FallibleState

variable {ν D : Type}

section Versions

variable [DecidableEq D] {ix : Index D} {key : List (Option D)} {rows : List (StoredTuple ν D)}

def Index.versions (ix : Index D) (key : List (Option D)) (rows : List (StoredTuple ν D)) :
    List (StoredTuple ν D) :=
  rows.filter (ix.selects key)

variable {t : StoredTuple ν D}

theorem Index.selects_iff : ix.selects key t = true ↔ none ∉ key ∧ ix.key t.values = key := by
  simp [selects]

theorem Index.findPkeyTuple_eq_none :
    ix.findPkeyTuple key rows = none ↔ ix.versions key rows = [] := by
  simp [findPkeyTuple, versions, List.filter_eq_nil_iff]

variable {tid : ℕ}

section

variable (h : ix.findPkeyTuple key rows = some (tid, t))
include h

theorem Index.split_of_findPkeyTuple :
    ∃ before after, rows = before ++ t :: after ∧ before.length = tid ∧
      ix.versions key before = [] ∧ ix.selects key t = true := by
  unfold findPkeyTuple at h
  obtain ⟨u, hu, huv⟩ := Option.map_eq_some_iff.mp h
  obtain ⟨htid, rfl⟩ := Prod.mk.inj huv
  obtain ⟨hsel, before, after, hrows, hbefore⟩ := List.find?_eq_some_iff_append.mp hu
  refine ⟨before, after, hrows, ?_, ?_, hsel⟩
  · rw [← htid, hrows, List.findIdx_append]
    have hno : ¬ List.findIdx (ix.selects key) before < before.length := by
      rw [List.findIdx_lt_length]
      rintro ⟨x, hx, hxs⟩
      simpa [hxs] using hbefore x hx
    simp [hno, List.findIdx_cons, hsel]
  · rw [versions, List.filter_eq_nil_iff]
    intro x hx hxs
    simpa [hxs] using hbefore x hx

theorem Index.of_findPkeyTuple : t ∈ rows ∧ none ∉ key ∧ ix.key t.values = key := by
  obtain ⟨before, after, rfl, -, -, hsel⟩ := split_of_findPkeyTuple h
  exact ⟨by simp, selects_iff.mp hsel⟩

theorem Index.versions_of_findPkeyTuple : ∃ rest, ix.versions key rows = t :: rest ∧
      (∀ u, ix.selects key u = true → ix.versions key (rows.set tid u) = u :: rest) ∧
      ix.versions key (rows.eraseIdx tid) = rest := by
  obtain ⟨before, after, rfl, rfl, hbefore, hsel⟩ := split_of_findPkeyTuple h
  have hb : List.filter (ix.selects key) before = [] := hbefore
  refine ⟨ix.versions key after, ?_, ?_, ?_⟩
  · simp [versions, List.filter_append, hb, hsel]
  · intro u hu
    simp [versions, List.filter_append, hb, hu]
  · rw [List.eraseIdx_append_of_length_le (Nat.le_refl _)]
    simp [versions, List.filter_append, hb]

end

theorem Relation.versions_updateTuple {rel : Relation D} {u : StoredTuple ν D}
    {rows' : List (StoredTuple ν D)} (hfind : ix.findPkeyTuple key rows = some (tid, t))
    (hsingle : ix.versions key rows = [t]) (hu : ix.selects key u = true)
    (hupd : rel.updateTuple tid u rows = .ok rows') : ix.versions key rows' = [u] := by
  obtain ⟨rest, hvers, hset, -⟩ := Index.versions_of_findPkeyTuple hfind
  have hrest : rest = [] := by
    rw [hvers] at hsingle
    exact (List.cons.inj hsingle).2
  unfold updateTuple at hupd
  split at hupd
  · cases hupd
  · cases hupd
    rw [hset u hu, hrest]

end Versions

section Resolution

variable [DecidableEq ν] {ss : ApplySession ν} {t : StoredTuple ν D}

def ApplySession.Supersedes (ss : ApplySession ν) (t : StoredTuple ν D) : Prop :=
  t.nodeId = some ss.origin ∨ t.commitTs < ss.originTimestamp ∨
    t.commitTs = ss.originTimestamp ∧ ss.remoteNodeSeqId < ss.localNodeSeqId

instance (ss : ApplySession ν) (t : StoredTuple ν D) : Decidable (ss.Supersedes t) :=
  inferInstanceAs (Decidable (_ ∨ _ ∨ _ ∧ _))

def ApplySession.Keeps (ss : ApplySession ν) (t : StoredTuple ν D) : Prop :=
  t.nodeId ≠ some ss.origin ∧ (ss.originTimestamp < t.commitTs ∨
    t.commitTs = ss.originTimestamp ∧ ss.localNodeSeqId < ss.remoteNodeSeqId)

theorem checkApplyUpdate_noHandlers {type : ConflictType} {row : Row D} {d : Decision D}
    (h : checkApplyUpdate ss noHandlers type t row = .ok d) :
    d.newTuple = none ∧
      (d.performUpdate = true ∧ ss.Supersedes t ∨ d.performUpdate = false ∧ ss.Keeps t) := by
  unfold checkApplyUpdate at h
  split at h
  · next hsame =>
    cases h
    exact ⟨rfl, Or.inl ⟨rfl, Or.inl hsame⟩⟩
  · next hother =>
    simp only [noHandlers, Bool.false_eq_true, if_false] at h
    unfold conflictLastUpdateWins at h
    split_ifs at h with hgt hlt _ _ hseq hseq'
    · cases h
      exact ⟨rfl, Or.inl ⟨rfl, Or.inr (Or.inl hgt)⟩⟩
    · cases h
      exact ⟨rfl, Or.inr ⟨rfl, hother, Or.inl hlt⟩⟩
    · cases h
      exact ⟨rfl, Or.inr ⟨rfl, hother, Or.inr ⟨by omega, hseq⟩⟩⟩
    · cases h
      exact ⟨rfl, Or.inl ⟨rfl, Or.inr (Or.inr ⟨by omega, hseq'⟩)⟩⟩

variable [DecidableEq D] {rel : Relation D} {rows : List (StoredTuple ν D)}

variable {out : Applied ν D}

theorem resolveFound_noHandlers {type : ConflictType} {tid : ℕ} {row : Row D}
    (h : resolveFound ss noHandlers rel type tid t row rows = .ok out) :
    ss.Supersedes t ∧ rel.updateTuple tid (ss.stored row) rows = .ok out.rows ∨
      ss.Keeps t ∧ out.rows = rows := by
  unfold resolveFound at h
  obtain ⟨d, hd, h⟩ := except_bind_eq_ok.mp h
  obtain ⟨hnone, ⟨hperform, hsup⟩ | ⟨hperform, hkeep⟩⟩ := checkApplyUpdate_noHandlers hd
  · rw [if_pos hperform, hnone] at h
    obtain ⟨rows', hrows', h⟩ := except_bind_eq_ok.mp h
    cases h
    exact Or.inl ⟨hsup, hrows'⟩
  · rw [if_neg (by simp [hperform])] at h
    cases h
    exact Or.inr ⟨hkeep, rfl⟩

theorem processRemoteInsert_noHandlers {new : List (ColumnData D)}
    (h : processRemoteInsert ss noHandlers rel new rows = .ok out) :
    ∃ parts, readTuple ss rel new = .ok parts ∧
      (findConflict (heapFormTuple parts) rows none rel.indexes = .ok none ∧
          rel.insertTuple (ss.stored (heapFormTuple parts)) rows = .ok out.rows ∨
        ∃ tid t, findConflict (heapFormTuple parts) rows none rel.indexes = .ok (some (tid, t)) ∧
          (ss.Supersedes t ∧
              rel.updateTuple tid (ss.stored (heapFormTuple parts)) rows = .ok out.rows ∨
            ss.Keeps t ∧ out.rows = rows)) := by
  unfold processRemoteInsert at h
  obtain ⟨parts, hparts, h⟩ := except_bind_eq_ok.mp h
  obtain ⟨found, hfound, h⟩ := except_bind_eq_ok.mp h
  refine ⟨parts, hparts, ?_⟩
  cases found with
  | none =>
    obtain ⟨rows', hrows', h⟩ := except_bind_eq_ok.mp h
    cases h
    exact Or.inl ⟨hfound, hrows'⟩
  | some found => exact Or.inr ⟨found.1, found.2, hfound, resolveFound_noHandlers h⟩

theorem processRemoteUpdate_noHandlers {ix : Index D} {old : Option (List (ColumnData D))}
    {new : List (ColumnData D)} (hix : rel.identityIndex = some ix)
    (h : processRemoteUpdate ss noHandlers rel old new rows = .ok out) :
    ∃ oldParts newParts key, readOldTuple ss rel old = .ok oldParts ∧
      readTuple ss rel new = .ok newParts ∧
      key = ix.key (heapFormTuple (oldParts.getD newParts)) ∧
      (ix.findPkeyTuple key rows = none ∧ out.rows = rows ∨
        ∃ tid t, ix.findPkeyTuple key rows = some (tid, t) ∧
          (ss.Supersedes t ∧ rel.updateTuple tid
              (ss.stored (heapModifyTuple t.values newParts)) rows = .ok out.rows ∨
            ss.Keeps t ∧ out.rows = rows)) := by
  unfold processRemoteUpdate at h
  obtain ⟨oldParts, hold, h⟩ := except_bind_eq_ok.mp h
  obtain ⟨newParts, hnew, h⟩ := except_bind_eq_ok.mp h
  refine ⟨oldParts, newParts, _, hold, hnew, rfl, ?_⟩
  simp only [hix] at h
  cases hfind : ix.findPkeyTuple (ix.key (heapFormTuple (oldParts.getD newParts))) rows with
  | none =>
    simp only [hfind, noHandlers, Bool.false_eq_true, if_false] at h
    cases h
    exact Or.inl ⟨rfl, rfl⟩
  | some found =>
    obtain ⟨tid, t⟩ := found
    simp only [hfind] at h
    exact Or.inr ⟨tid, t, rfl, resolveFound_noHandlers h⟩

omit [DecidableEq ν] in
theorem processRemoteDelete_noHandlers {ix : Index D} {cols : List (ColumnData D)}
    (hix : rel.identityIndex = some ix)
    (h : processRemoteDelete ss noHandlers rel (some cols) rows = .ok out) :
    ∃ parts, readTuple ss rel cols = .ok parts ∧
      (ix.findPkeyTuple (ix.key (heapFormTuple parts)) rows = none ∧ out.rows = rows ∨
        ∃ tid t, ix.findPkeyTuple (ix.key (heapFormTuple parts)) rows = some (tid, t) ∧
          out.rows = rows.eraseIdx tid) := by
  simp only [processRemoteDelete] at h
  obtain ⟨parts, hparts, h⟩ := except_bind_eq_ok.mp h
  refine ⟨parts, hparts, ?_⟩
  simp only [hix] at h
  cases hfind : ix.findPkeyTuple (ix.key (heapFormTuple parts)) rows with
  | none =>
    simp only [hfind, noHandlers, Option.isSome_none, Bool.false_eq_true, if_false] at h
    cases h
    exact Or.inl ⟨rfl, rfl⟩
  | some found =>
    simp only [hfind] at h
    cases h
    exact Or.inr ⟨found.1, found.2, rfl, rfl⟩

end Resolution

end Pgactive
