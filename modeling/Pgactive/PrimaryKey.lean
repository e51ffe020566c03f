import Pgactive.Replay

/-!
# What every run of the cluster keeps

No step of the cluster, local or replayed, breaks the primary key of a table or the shape
of its rows, and every logged change carries what its receivers need in order to find
the row. These facts need no condition on the run.
-/

namespace Pgactive

open BroadcastLog Transition

variable {ν D : Type} [DecidableEq D]

/-- The rows have the columns of the table, and the identity index is unique. -/
structure ValidTable (rel : Relation D) (ix : Index D) (rows : List (StoredTuple ν D)) : Prop where
  shape : ∀ t ∈ rows, RowOf rel.desc t.values
  unique : ∀ key, (ix.versions key rows).length ≤ 1

section Tables

variable {rel : Relation D} {ix : Index D} {key : List (Option D)}
variable {rows rows' : List (StoredTuple ν D)} {tid : ℕ} {t u : StoredTuple ν D}

theorem Index.versions_eraseIdx_sublist (ix : Index D) (key : List (Option D))
    (rows : List (StoredTuple ν D)) (tid : ℕ) :
    (ix.versions key (rows.eraseIdx tid)).Sublist (ix.versions key rows) :=
  (List.eraseIdx_sublist rows tid).filter _

theorem Index.versions_set_of_not_selects (hu : ix.selects key u = false) :
    ix.versions key (rows.set tid u) = ix.versions key (rows.eraseIdx tid) := by
  induction rows generalizing tid with
  | nil => rfl
  | cons t rows ih =>
    cases tid with
    | zero => simp [versions, hu]
    | succ tid =>
      have htail := @ih tid
      simp only [versions] at htail
      simp [versions, List.filter_cons, htail]

theorem Index.length_versions_set_le (ix : Index D) (key : List (Option D))
    (rows : List (StoredTuple ν D)) (tid : ℕ) (u : StoredTuple ν D) :
    (ix.versions key (rows.set tid u)).length ≤
      (ix.versions key (rows.eraseIdx tid)).length + 1 := by
  induction rows generalizing tid with
  | nil => simp [versions]
  | cons t rows ih =>
    cases tid with
    | zero =>
      simp only [versions, List.set_cons_zero, List.eraseIdx_cons_zero, List.filter_cons]
      split <;> simp
    | succ tid =>
      have htail := ih tid
      simp only [versions] at htail
      simp only [versions, List.set_cons_succ, List.eraseIdx_cons_succ, List.filter_cons]
      split
      · simpa using htail
      · exact htail

theorem Relation.versions_of_not_violates (hix : rel.identityIndex = some ix) {row : Row D}
    (h : rel.violates row rows = false) : ix.versions (ix.key row) rows = [] := by
  obtain ⟨i, -, hi⟩ := Option.bind_eq_some_iff.mp hix
  have hmem : ix ∈ rel.indexes := List.mem_of_getElem? hi
  have hunique := (rel.identity_plain ix hix).1
  have hno := List.any_eq_false.mp h ix hmem
  rw [hunique, Bool.true_and, Bool.not_eq_true, Option.isSome_eq_false_iff,
    Option.isNone_iff_eq_none] at hno
  exact Index.findPkeyTuple_eq_none.mp hno

theorem Relation.updateTuple_eq_ok (h : rel.updateTuple tid u rows = .ok rows') :
    rel.violates u.values (rows.eraseIdx tid) = false ∧ rows' = rows.set tid u := by
  unfold updateTuple at h
  split at h
  · cases h
  · next hviol =>
    cases h
    exact ⟨by simpa using hviol, rfl⟩

theorem Relation.insertTuple_eq_ok (h : rel.insertTuple u rows = .ok rows') :
    rel.violates u.values rows = false ∧ rows' = rows ++ [u] := by
  unfold insertTuple at h
  split at h
  · cases h
  · next hviol =>
    cases h
    exact ⟨by simpa using hviol, rfl⟩

section

variable (hv : ValidTable rel ix rows)
include hv

theorem ValidTable.eraseIdx (tid : ℕ) : ValidTable rel ix (rows.eraseIdx tid) where
  shape t ht := hv.shape t (List.mem_of_mem_eraseIdx ht)
  unique key := (ix.versions_eraseIdx_sublist key rows tid).length_le.trans (hv.unique key)

theorem ValidTable.updateTuple (hix : rel.identityIndex = some ix)
    (hu : RowOf rel.desc u.values) (h : rel.updateTuple tid u rows = .ok rows') :
    ValidTable rel ix rows' := by
  obtain ⟨hviol, rfl⟩ := Relation.updateTuple_eq_ok h
  refine ⟨fun t ht => ?_, fun key => ?_⟩
  · rcases List.mem_or_eq_of_mem_set ht with ht | rfl
    · exact hv.shape t ht
    · exact hu
  · cases hsel : ix.selects key u with
    | false =>
      rw [Index.versions_set_of_not_selects hsel]
      exact (hv.eraseIdx tid).unique key
    | true =>
      have hempty := Relation.versions_of_not_violates hix hviol
      rw [(Index.selects_iff.mp hsel).2] at hempty
      have hle := ix.length_versions_set_le key rows tid u
      simpa [hempty] using hle

theorem ValidTable.insertTuple (hix : rel.identityIndex = some ix)
    (hu : RowOf rel.desc u.values) (h : rel.insertTuple u rows = .ok rows') :
    ValidTable rel ix rows' := by
  obtain ⟨hviol, rfl⟩ := Relation.insertTuple_eq_ok h
  refine ⟨fun t ht => ?_, fun key => ?_⟩
  · rcases List.mem_append.mp ht with ht | ht
    · exact hv.shape t ht
    · rw [List.mem_singleton.mp ht]
      exact hu
  · cases hsel : ix.selects key u with
    | false => simpa [Index.versions, List.filter_append, hsel] using hv.unique key
    | true =>
      have hempty := Relation.versions_of_not_violates hix hviol
      rw [(Index.selects_iff.mp hsel).2, Index.versions] at hempty
      simp [Index.versions, List.filter_append, hempty, hsel]

theorem ValidTable.versions_eraseIdx_eq_nil (hfind : ix.findPkeyTuple key rows = some (tid, t)) :
    ix.versions key (rows.eraseIdx tid) = [] := by
  obtain ⟨rest, hrest, -, herase⟩ := Index.versions_of_findPkeyTuple hfind
  have hlen := hv.unique key
  rw [hrest, List.length_cons] at hlen
  rw [herase]
  exact List.length_eq_zero_iff.mp (by omega)

end

theorem Relation.versions_updateTuple_eq_nil (hu : ix.selects key u = false)
    (h : rel.updateTuple tid u rows = .ok rows') (hnil : ix.versions key rows = []) :
    ix.versions key rows' = [] := by
  obtain ⟨-, rfl⟩ := updateTuple_eq_ok h
  rw [Index.versions_set_of_not_selects hu]
  exact List.sublist_nil.mp (hnil ▸ ix.versions_eraseIdx_sublist key rows tid)

theorem Relation.versions_insertTuple_eq_nil (hu : ix.selects key u = false)
    (h : rel.insertTuple u rows = .ok rows') (hnil : ix.versions key rows = []) :
    ix.versions key rows' = [] := by
  obtain ⟨-, rfl⟩ := insertTuple_eq_ok h
  rw [Index.versions] at hnil
  simp [Index.versions, List.filter_append, hnil, hu]

end Tables

/-- A row that a receiver finds for an update has the sender's values in the key columns
that were logged out of line. -/
def Change.CarriesKey (ix : Index D) (desc : List Attribute) (ch : Change D) : Prop :=
  ∀ new ∈ ch.updated, ∀ row, ix.key row = ch.scanKey ix desc → ∀ a ∈ ix.attrs,
    ∀ v, new[a]? = some v → v.isExternal = true → row[a]?.join = v.value

omit [DecidableEq D] in
theorem Conforms.rowOf_transferred {desc : List Attribute} {t : List (Datum D)}
    (h : Conforms desc t) : RowOf desc (heapFormTuple (transferred desc t)) := by
  induction h with
  | nil => exact .nil
  | @cons att v _ _ hdrop _ ih =>
    refine .cons (fun hd => ?_) ih
    rw [hdrop hd]
    cases hsent : (Datum.null : Datum D).sentUnchanged att <;> simp [hsent, Datum.value]

section Runs

variable [DecidableEq ν] {cfg : Config ν D} {ix : Index D} {s s' : Cluster ν D}

/-- What every run keeps. -/
structure Sound (cfg : Config ν D) (ix : Index D) (s : Cluster ν D) : Prop where
  /-- No node has read more than was written. -/
  bounded : s.net.Bounded
  valid : ∀ i, ValidTable cfg.rel ix (s.tables i)
  wellFormed : ∀ w, ∀ c ∈ s.net.log w, c.change.WellFormed cfg.rel.desc
  carriesKey : ∀ w, ∀ c ∈ s.net.log w, c.change.CarriesKey ix cfg.rel.desc

theorem Sound.localWrite (h : Sound cfg ix s) {i : ν} {rows : List (StoredTuple ν D)}
    {c : Commit D} (hrows : ValidTable cfg.rel ix rows) (hwf : c.change.WellFormed cfg.rel.desc)
    (hkey : c.change.CarriesKey ix cfg.rel.desc) :
    Sound cfg ix ⟨Function.update s.tables i rows, s.net.append i [c]⟩ := by
  have hmem : ∀ w, ∀ c' ∈ (s.net.append i [c]).log w, c' ∈ s.net.log w ∨ c' = c := by
    intro w c' hc'
    exact (Net.mem_log_append.mp hc').imp_right fun hnew => List.mem_singleton.mp hnew.2
  refine ⟨h.bounded.append i [c], fun j => ?_, fun w c' hc' => ?_, fun w c' hc' => ?_⟩
  · by_cases hj : j = i
    · subst hj
      simpa using hrows
    · simpa [hj] using h.valid j
  · rcases hmem w c' hc' with hold | rfl
    · exact h.wellFormed w c' hold
    · exact hwf
  · rcases hmem w c' hc' with hold | rfl
    · exact h.carriesKey w c' hold
    · exact hkey

theorem ValidTable.replay {rows : List (StoredTuple ν D)} (hv : ValidTable cfg.rel ix rows)
    (hix : cfg.rel.identityIndex = some ix) {r w : ν} {c : Commit D} {out : Applied ν D}
    (hwf : c.change.WellFormed cfg.rel.desc) (h : cfg.replay r w c rows = .ok out) :
    ValidTable cfg.rel ix out.rows := by
  obtain ⟨ts, ch⟩ := c
  cases ch with
  | insert new =>
    rcases Config.replay_insert hwf.1 hwf.2 h with ⟨-, hins⟩ | ⟨tid, t, -, hupd | hrows⟩
    · exact hv.insertTuple hix hwf.1.rowOf hins
    · exact hv.updateTuple hix hwf.1.rowOf hupd
    · exact hrows ▸ hv
  | update old new =>
    rcases Config.replay_update hix hwf h with
      ⟨-, hrows⟩ | ⟨tid, t, hfind, ⟨-, hupd⟩ | ⟨-, hrows⟩⟩
    · exact hrows ▸ hv
    · have hrow := hv.shape t (Index.of_findPkeyTuple hfind).1
      exact hv.updateTuple hix (hrow.heapModifyTuple hwf.2.rowOf_transferred) hupd
    · exact hrows ▸ hv
  | delete old =>
    rcases Config.replay_delete hix hwf h with ⟨-, hrows⟩ | ⟨tid, t, -, hrows⟩
    · exact hrows ▸ hv
    · exact hrows ▸ hv.eraseIdx tid

theorem carriesKey_localUpdate {rel : Relation D} (hplain : ix.expressions = []) {row : Row D}
    {new : List (Datum D)} (hrow : RowOf rel.desc row) (hconf : Conforms rel.desc new)
    (hold : CarriesOld row new) :
    (Change.update (if logsOldKey ix row new then some (keyTuple ix row) else none) new).CarriesKey
      ix rel.desc := by
  intro new' hnew' row' hkey a ha v hv hext
  cases hnew'
  rw [scanKey_localUpdate hplain hrow hconf] at hkey
  rw [Index.getElem?_of_key_eq hplain hkey ha]
  obtain ⟨hlt, rfl⟩ := List.getElem?_eq_some_iff.mp hv
  have hlen : new.length = row.length := hconf.length_eq.symm.trans hrow.length_eq
  have hzip : (new[a], row[a]) ∈ new.zip row := by
    rw [List.mem_iff_getElem]
    exact ⟨a, by rw [List.length_zip]; omega, by simp⟩
  rw [List.getElem?_eq_getElem (hlen ▸ hlt), Option.join_some]
  exact hold _ hzip hext

theorem Sound.step (h : Sound cfg ix s) (hix : cfg.rel.identityIndex = some ix) {a : Action ν D}
    (hstep : cfg.step s a = some s') : Sound cfg ix s' := by
  have hplain : ix.expressions = [] := (cfg.rel.identity_plain ix hix).2
  cases a with
  | insert i ts new =>
    obtain ⟨hconf, hext, rows, hins, rfl⟩ := Config.localInsert_cases hstep
    exact h.localWrite ((h.valid i).insertTuple hix hconf.rowOf hins) ⟨hconf, hext⟩
      (by rintro _ ⟨⟩)
  | update i ts key new =>
    obtain ⟨tid, t, rows, hfind, hconf, hold, hupd, rfl⟩ := Config.localUpdate_cases hix hstep
    have hrow := (h.valid i).shape t (Index.of_findPkeyTuple hfind).1
    refine h.localWrite ((h.valid i).updateTuple hix hconf.rowOf hupd) ⟨?_, hconf⟩
      (carriesKey_localUpdate hplain hrow hconf hold)
    intro o ho
    split at ho
    · cases ho
      exact keyTuple_conforms hrow
    · cases ho
  | delete i ts key =>
    obtain ⟨tid, t, hfind, rfl⟩ := Config.localDelete_cases hix hstep
    have hrow := (h.valid i).shape t (Index.of_findPkeyTuple hfind).1
    exact h.localWrite ((h.valid i).eraseIdx tid) ⟨_, rfl, keyTuple_conforms hrow⟩
      (by rintro _ ⟨⟩)
  | deliver r w =>
    obtain ⟨-, c, out, hnext, hreplay, rfl⟩ := Config.deliver_cases hstep
    refine ⟨h.bounded.advance hnext, fun j => ?_, h.wellFormed, h.carriesKey⟩
    by_cases hj : j = r
    · subst hj
      simpa using (h.valid j).replay hix (h.wellFormed w c (List.mem_of_getElem? hnext)) hreplay
    · simpa [hj] using h.valid j

end Runs

end Pgactive
