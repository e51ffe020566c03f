import Pgactive.RowHistory

/-!
# A remote insert that conflicts on several unique indexes

`process_remote_insert` has an error for a row that conflicts with two local rows. The loop ends at
the first index that finds a row, so the position it would compare with is never set, and the
conflict with that index is resolved as if it were the only one.
-/

namespace Pgactive

open FallibleState

variable {ν D : Type} [DecidableEq D]

def Index.Searched (ix : Index D) : Prop :=
  ix.unique = true ∧ ix.expressions.length = 0

/-- The row at position `tid` has the key of the new row in the index at position `i`, and
no column of this key is null. -/
def Relation.ConflictsOn (rel : Relation D) (row : Row D) (rows : List (StoredTuple ν D))
    (i tid : ℕ) : Prop :=
  ∃ ix t, rel.indexes[i]? = some ix ∧ ix.Searched ∧ rows[tid]? = some t ∧
    ix.selects (ix.key row) t = true

def Relation.MultipleConflicts (rel : Relation D) (row : Row D)
    (rows : List (StoredTuple ν D)) : Prop :=
  ∃ i j tid tid', i ≠ j ∧ tid ≠ tid' ∧ rel.ConflictsOn row rows i tid ∧
    rel.ConflictsOn row rows j tid'

section Search

variable {row : Row D} {rows : List (StoredTuple ν D)} {ix : Index D}

theorem Index.exists_findPkeyTuple {key : List (Option D)} {t : StoredTuple ν D}
    (ht : t ∈ rows) (hsel : ix.selects key t = true) :
    ∃ found, ix.findPkeyTuple key rows = some found := by
  have hne : ix.findPkeyTuple key rows ≠ none := by
    rw [Ne, findPkeyTuple_eq_none, versions, List.filter_eq_nil_iff]
    intro hnone
    exact hnone t ht hsel
  exact Option.ne_none_iff_exists'.mp hne

theorem findConflict_eq_first {indexes : List (Index D)} (hix : ix ∈ indexes)
    (hsearched : ix.Searched) {found : ℕ × StoredTuple ν D}
    (hfound : ix.findPkeyTuple (ix.key row) rows = some found) :
    ∃ before first after tid t, indexes = before ++ first :: after ∧
      (∀ ix' ∈ before, ix'.Searched → ix'.findPkeyTuple (ix'.key row) rows = none) ∧
      first.Searched ∧ first.findPkeyTuple (first.key row) rows = some (tid, t) ∧
      findConflict row rows none indexes = .ok (some (tid, t)) := by
  induction indexes with
  | nil => cases hix
  | cons head rest ih =>
    by_cases hhit : head.Searched ∧ (head.findPkeyTuple (head.key row) rows).isSome
    · obtain ⟨hhead, hsome⟩ := hhit
      obtain ⟨⟨tid, t⟩, htid⟩ := Option.isSome_iff_exists.mp hsome
      refine ⟨[], head, rest, tid, t, rfl, by simp, hhead, htid, ?_⟩
      simp [findConflict, hhead.1, hhead.2, htid]
    · have hmiss : head.Searched → head.findPkeyTuple (head.key row) rows = none := by
        intro hhead
        have hnot := not_and.mp hhit hhead
        simpa using hnot
      have hrest : ix ∈ rest := by
        rcases List.mem_cons.mp hix with rfl | hrest
        · exact absurd (hmiss hsearched) (by simp [hfound])
        · exact hrest
      obtain ⟨before, first, after, tid, t, hsplit, hbefore, hfirst, htid, hloop⟩ := ih hrest
      refine ⟨head :: before, first, after, tid, t, by simp [hsplit], ?_, hfirst, htid, ?_⟩
      · intro ix' hix'
        rcases List.mem_cons.mp hix' with rfl | hix'
        · exact hmiss
        · exact hbefore ix' hix'
      · rw [← hloop]
        by_cases hhead : head.Searched
        · simp [findConflict, hhead.1, hhead.2, hmiss hhead]
        · have hskip : ¬head.unique ∨ head.expressions.length ≠ 0 := by
            rw [Index.Searched, not_and_or] at hhead
            simpa using hhead
          rw [findConflict, if_pos hskip]

end Search

section Resolution

variable {rel : Relation D} {row : Row D} {rows : List (StoredTuple ν D)}

theorem Relation.MultipleConflicts.violates_eraseIdx (h : rel.MultipleConflicts row rows)
    (tid : ℕ) : rel.violates row (rows.eraseIdx tid) = true := by
  have hother : ∀ i tid', tid' ≠ tid → rel.ConflictsOn row rows i tid' →
      rel.violates row (rows.eraseIdx tid) = true := by
    rintro i tid' hne ⟨ix, t, hix, hsearched, ht, hsel⟩
    have hmem : t ∈ rows.eraseIdx tid := List.mem_eraseIdx_iff_getElem?.mpr ⟨tid', hne, ht⟩
    obtain ⟨found, hfound⟩ := Index.exists_findPkeyTuple hmem hsel
    apply List.any_eq_true.mpr
    exact ⟨ix, List.mem_of_getElem? hix, by simp [hsearched.1, hfound]⟩
  obtain ⟨i, j, a, b, -, hab, ha, hb⟩ := h
  by_cases hat : a = tid
  · exact hother j b (fun hbt => hab (hat.trans hbt.symm)) hb
  · exact hother i a hat ha

variable [DecidableEq ν] {ss : ApplySession ν} {handlers : Handlers D} {type : ConflictType}
variable {tid : ℕ} {t : StoredTuple ν D} {decision : Decision D}

theorem resolveFound_of_keep (hcheck : checkApplyUpdate ss handlers type t row = .ok decision)
    (hkeep : decision.performUpdate = false) :
    ∃ conflict, resolveFound ss handlers rel type tid t row rows = .ok ⟨rows, conflict⟩ := by
  unfold resolveFound
  simp only [hcheck, hkeep, bind, Except.bind, Bool.false_eq_true, if_false]
  exact ⟨_, rfl⟩

theorem resolveFound_of_violates (hcheck : checkApplyUpdate ss handlers type t row = .ok decision)
    (hupdate : decision.performUpdate = true) (hremote : decision.newTuple = none)
    (hviol : rel.violates row (rows.eraseIdx tid) = true) :
    resolveFound ss handlers rel type tid t row rows = .error .uniqueViolation := by
  have hwrite : rel.updateTuple tid (ss.stored row) rows = .error .uniqueViolation :=
    if_pos hviol
  unfold resolveFound
  simp only [hcheck, hupdate, hremote, hwrite, bind, Except.bind, if_true, Option.getD_none]

omit [DecidableEq D] [DecidableEq ν] in
theorem conflictLastUpdateWins_ne_multiple {localTs : ℤ} :
    conflictLastUpdateWins (D := D) ss localTs ≠ .error .multipleUniqueConstraints := by
  unfold conflictLastUpdateWins
  split_ifs <;> simp

omit [DecidableEq D] in
theorem checkApplyUpdate_ne_multiple :
    checkApplyUpdate ss handlers type t row ≠ .error .multipleUniqueConstraints := by
  intro h
  simp only [checkApplyUpdate] at h
  split_ifs at h
  split at h
  · cases h
  · exact conflictLastUpdateWins_ne_multiple h

theorem resolveFound_ne_multiple :
    resolveFound ss handlers rel type tid t row rows ≠ .error .multipleUniqueConstraints := by
  intro h
  cases hcheck : checkApplyUpdate ss handlers type t row with
  | error e =>
    unfold resolveFound at h
    rw [hcheck] at h
    cases h
    exact checkApplyUpdate_ne_multiple hcheck
  | ok decision =>
    cases hupdate : decision.performUpdate with
    | false =>
      obtain ⟨conflict, hkept⟩ := resolveFound_of_keep hcheck hupdate
      rw [hkept] at h
      cases h
    | true =>
      unfold resolveFound at h
      simp only [hcheck, hupdate, bind, Except.bind, if_true, Relation.updateTuple] at h
      split_ifs at h <;> cases h

end Resolution

section Insert

variable [DecidableEq ν] {ss : ApplySession ν} {handlers : Handlers D} {rel : Relation D}
variable {new : List (ColumnData D)} {newTuple : List (TuplePart D)}
variable {rows : List (StoredTuple ν D)}

/-- **Several unique conflicts are never reported.** A remote row that conflicts with two
local rows is resolved against the one found by the first index. If that row is kept, the
insert ends normally without a change; if the remote row wins, its index entries fail. -/
theorem processRemoteInsert_multipleConflicts (hread : readTuple ss rel new = .ok newTuple)
    (hmultiple : rel.MultipleConflicts (heapFormTuple newTuple) rows) :
    processRemoteInsert ss handlers rel new rows ≠ .error .multipleUniqueConstraints ∧
      ∃ before first after tid t, rel.indexes = before ++ first :: after ∧
        (∀ ix ∈ before, ix.Searched →
          ix.findPkeyTuple (ix.key (heapFormTuple newTuple)) rows = none) ∧
        first.Searched ∧
        first.findPkeyTuple (first.key (heapFormTuple newTuple)) rows = some (tid, t) ∧
        processRemoteInsert ss handlers rel new rows =
          resolveFound ss handlers rel .insertInsert tid t (heapFormTuple newTuple) rows ∧
        ∀ decision,
          checkApplyUpdate ss handlers .insertInsert t (heapFormTuple newTuple) = .ok decision →
          (decision.performUpdate = false →
            ∃ conflict, processRemoteInsert ss handlers rel new rows = .ok ⟨rows, conflict⟩) ∧
          (decision.performUpdate = true → decision.newTuple = none →
            processRemoteInsert ss handlers rel new rows = .error .uniqueViolation) := by
  obtain ⟨i, -, a, -, -, -, ⟨ix, u, hix, hsearched, hu, hsel⟩, -⟩ := id hmultiple
  obtain ⟨found, hfound⟩ := Index.exists_findPkeyTuple (List.mem_of_getElem? hu) hsel
  obtain ⟨before, first, after, tid, t, hsplit, hbefore, hfirst, htid, hloop⟩ :=
    findConflict_eq_first (List.mem_of_getElem? hix) hsearched hfound
  have hresolve : processRemoteInsert ss handlers rel new rows =
      resolveFound ss handlers rel .insertInsert tid t (heapFormTuple newTuple) rows := by
    unfold processRemoteInsert
    simp only [hread, hloop, bind, Except.bind]
  have hviol := hmultiple.violates_eraseIdx tid
  rw [hresolve]
  refine ⟨resolveFound_ne_multiple, before, first, after, tid, t, hsplit, hbefore, hfirst, htid,
    rfl, ?_⟩
  intro decision hcheck
  exact ⟨resolveFound_of_keep hcheck, fun hupdate hremote =>
    resolveFound_of_violates hcheck hupdate hremote hviol⟩

end Insert

def accounts : Relation ℕ where
  desc := [intColumn, intColumn]
  indexes := [⟨true, [0], []⟩, ⟨true, [1], []⟩]
  identity := some 0
  identity_plain := by simp

def twoAccounts : List (StoredTuple ℕ ℕ) :=
  [⟨[some 1, some 10], 5, none⟩, ⟨[some 2, some 20], 5, none⟩]

def mixedAccount : List (ColumnData ℕ) := [.data .text 1, .data .text 20]

theorem accounts_multipleConflicts :
    accounts.MultipleConflicts [some 1, some 20] twoAccounts :=
  ⟨0, 1, 0, 1, by decide, by decide, ⟨_, _, rfl, ⟨rfl, rfl⟩, rfl, by decide⟩,
    ⟨_, _, rfl, ⟨rfl, rfl⟩, rfl, by decide⟩⟩

theorem processRemoteInsert_multipleConflicts_mixedAccount :
    accounts.MultipleConflicts [some 1, some 20] twoAccounts ∧
      processRemoteInsert (⟨7, 9, 1, 2, false⟩ : ApplySession ℕ) noHandlers accounts mixedAccount
        twoAccounts ≠ .error .multipleUniqueConstraints :=
  ⟨accounts_multipleConflicts,
    (processRemoteInsert_multipleConflicts rfl accounts_multipleConflicts).1⟩

/-- The remote account is older: the insert ends normally, with the conflict with the first
row in the log and no word of the second. -/
theorem processRemoteInsert_loses_mixedAccount :
    accounts.MultipleConflicts [some 1, some 20] twoAccounts ∧
      processRemoteInsert (⟨7, 3, 1, 2, false⟩ : ApplySession ℕ) noHandlers accounts mixedAccount
        twoAccounts = .ok ⟨twoAccounts, some ⟨.insertInsert, some .lastUpdateWinsKeepLocal,
          some ⟨[some 1, some 10], 5, none⟩, [some 1, some 20]⟩⟩ :=
  ⟨accounts_multipleConflicts, rfl⟩

end Pgactive
