import Pgactive.Replication

/-!
# Replaying a logged change

Decoding a change at the sender and applying it at the receiver, as one operation. A key column
logged out of line would arrive without its value; then the old key is logged with the change, so
that the receiver always searches for the right key.
-/

namespace Pgactive

open FallibleState

variable {ν D : Type} {desc : List Attribute} {t : List (Datum D)}

theorem heapFormTuple_transferred_getElem?
    (hconf : Conforms desc t) {a : ℕ} (hext : (t[a]?.map Datum.isExternal).getD false = false) :
    (heapFormTuple (transferred desc t))[a]? = (t.map Datum.value)[a]? := by
  induction hconf generalizing a with
  | nil => simp [heapFormTuple, transferred]
  | @cons att v desc t _ _ ih =>
    cases a with
    | zero =>
      cases v with
      | null => simp [heapFormTuple, transferred, Datum.sentUnchanged]
      | inline d => simp [heapFormTuple, transferred, Datum.sentUnchanged]
      | external d => simp [Datum.isExternal] at hext
    | succ a => simpa [heapFormTuple, transferred] using ih (by simpa using hext)

theorem heapFormTuple_transferred (hconf : Conforms desc t) (hext : ∀ v ∈ t, v.isExternal = false) :
    heapFormTuple (transferred desc t) = t.map Datum.value := by
  refine List.ext_getElem? fun a => heapFormTuple_transferred_getElem? hconf ?_
  cases ha : t[a]? with
  | none => rfl
  | some v => simpa using hext v (List.mem_of_getElem? ha)

theorem heapModifyTuple_transferred_getElem?
    {old : Row D} (hconf : Conforms desc t) (hold : RowOf desc old) {a : ℕ}
    (hext : ∀ v, t[a]? = some v → v.isExternal = true → old[a]? = some v.value) :
    (heapModifyTuple old (transferred desc t))[a]? = (t.map Datum.value)[a]? := by
  induction hconf generalizing old a with
  | nil => simp [heapModifyTuple, transferred]
  | @cons att v desc t _ _ ih =>
    obtain _ | ⟨o, old⟩ := old
    · cases hold
    cases hold with
    | cons _ hold =>
      cases a with
      | zero =>
        cases v with
        | null => simp [heapModifyTuple, transferred, Datum.sentUnchanged]
        | inline d => simp [heapModifyTuple, transferred, Datum.sentUnchanged]
        | external d =>
          have ho : o = (Datum.external d).value := by simpa using hext _ rfl rfl
          cases hsent : (Datum.external d).sentUnchanged att <;>
            simp [heapModifyTuple, transferred, hsent, ho]
      | succ a => simpa [heapModifyTuple, transferred] using ih hold (by simpa using hext)

theorem Index.key_congr {ix : Index D} (hplain : ix.expressions = []) {row row' : Row D}
    (h : ∀ a ∈ ix.attrs, row[a]? = row'[a]?) : ix.key row = ix.key row' := by
  simp only [key, hplain, List.map_nil, List.append_nil]
  exact List.map_congr_left fun a ha => by rw [h a ha]

theorem Index.getElem?_of_key_eq {ix : Index D} (hplain : ix.expressions = []) {row row' : Row D}
    (h : ix.key row = ix.key row') {a : ℕ} (ha : a ∈ ix.attrs) :
    row[a]?.join = row'[a]?.join := by
  simp only [key, hplain, List.map_nil, List.append_nil] at h
  exact List.map_inj_left.mp h a ha

section KeyTuple

variable {ix : Index D} {row : Row D}

theorem keyTuple_getElem? {a : ℕ} (ha : a ∈ ix.attrs) :
    ((keyTuple ix row).map Datum.value)[a]? = row[a]? := by
  cases hv : row[a]? with
  | none => simp [keyTuple, hv]
  | some v => cases v <;> simp [keyTuple, hv, ha, Datum.value]

theorem keyTuple_isExternal {v : Datum D} (hv : v ∈ keyTuple ix row) : v.isExternal = false := by
  obtain ⟨a, ha, rfl⟩ := List.mem_mapIdx.mp hv
  split
  · cases row[a] <;> rfl
  · rfl

theorem keyTuple_conforms {desc : List Attribute} (hrow : RowOf desc row) :
    Conforms desc (keyTuple ix row) := by
  have hlen : desc.length = row.length := hrow.length_eq
  refine List.forall₂_iff_get.mpr ⟨by simpa [keyTuple] using hlen, fun a ha hb hdrop => ?_⟩
  have hnone := (List.forall₂_iff_get.mp hrow).2 a ha (hlen ▸ ha) hdrop
  simp only [List.get_eq_getElem] at hnone
  simp [keyTuple, hnone]

end KeyTuple

def Change.WellFormed (desc : List Attribute) : Change D → Prop
  | .insert new => Conforms desc new ∧ ∀ v ∈ new, v.isExternal = false
  | .update old new => (∀ o, old = some o → Conforms desc o) ∧ Conforms desc new
  | .delete old => ∃ o, old = some o ∧ Conforms desc o

def Change.updated : Change D → Option (List (Datum D))
  | .update _ new => some new
  | _ => none

def Change.scanKey (ix : Index D) (desc : List Attribute) : Change D → List (Option D)
  | .insert new => ix.key (heapFormTuple (transferred desc new))
  | .update old new => ix.key (heapFormTuple (transferred desc (old.getD new)))
  | .delete old => ix.key (heapFormTuple (transferred desc (old.getD [])))

section Replay

variable [DecidableEq ν] [DecidableEq D] {cfg : Config ν D} {ix : Index D} {r w : ν} {ts : ℤ}
  {rows : List (StoredTuple ν D)} {out : Applied ν D}

omit [DecidableEq ν] [DecidableEq D] in
theorem readTuple_of_writeTuple {ss : ApplySession ν} {rel : Relation D} {data : OutputData}
    {t : List (Datum D)} {cols : List (ColumnData D)} (hconf : Conforms rel.desc t)
    (hw : writeTuple data rel.desc t = .ok cols) :
    readTuple ss rel cols = .ok (transferred rel.desc t) :=
  except_mapError_eq_ok.mpr (readTupleParts_writeTuple hconf hw)

omit [DecidableEq ν] [DecidableEq D] in
theorem readOldTuple_of_writeOldTuple {ss : ApplySession ν} {rel : Relation D} {data : OutputData}
    {old : Option (List (Datum D))} {cols : Option (List (ColumnData D))}
    (hconf : ∀ o, old = some o → Conforms rel.desc o)
    (hw : writeOldTuple data rel.desc old = .ok cols) :
    readOldTuple ss rel cols = .ok (old.map (transferred rel.desc)) := by
  cases old with
  | none =>
    cases hw
    rfl
  | some o =>
    obtain ⟨cs, ho, hcs⟩ := except_map_eq_ok.mp hw
    cases hcs
    exact except_map_eq_ok.mpr ⟨_, readTuple_of_writeTuple (hconf o rfl) ho, rfl⟩

variable {new : List (Datum D)}

theorem Config.replay_insert (hconf : Conforms cfg.rel.desc new)
    (hext : ∀ v ∈ new, v.isExternal = false)
    (h : cfg.replay r w ⟨ts, .insert new⟩ rows = .ok out) :
    (findConflict (new.map Datum.value) rows none cfg.rel.indexes = .ok none ∧
        cfg.rel.insertTuple ⟨new.map Datum.value, ts, some w⟩ rows = .ok out.rows) ∨
      ∃ tid t, findConflict (new.map Datum.value) rows none cfg.rel.indexes =
          .ok (some (tid, t)) ∧
        (cfg.rel.updateTuple tid ⟨new.map Datum.value, ts, some w⟩ rows = .ok out.rows ∨
          out.rows = rows) := by
  obtain ⟨msg, hmsg, h⟩ := except_bind_eq_ok.mp h
  obtain ⟨cols, hw, hcols⟩ := except_map_eq_ok.mp (except_mapError_eq_ok.mp hmsg)
  cases hcols
  obtain ⟨parts, hparts, h⟩ := processRemoteInsert_noHandlers h
  rw [readTuple_of_writeTuple hconf hw] at hparts
  cases hparts
  rw [heapFormTuple_transferred hconf hext] at h
  rcases h with hplain | ⟨tid, t, hfound, ⟨-, hupd⟩ | ⟨-, hkeep⟩⟩
  · exact Or.inl hplain
  · exact Or.inr ⟨tid, t, hfound, Or.inl hupd⟩
  · exact Or.inr ⟨tid, t, hfound, Or.inr hkeep⟩

theorem Config.replay_update {old : Option (List (Datum D))}
    (hix : cfg.rel.identityIndex = some ix)
    (hwf : (Change.update old new).WellFormed cfg.rel.desc)
    (h : cfg.replay r w ⟨ts, .update old new⟩ rows = .ok out) :
    (ix.findPkeyTuple ((Change.update old new).scanKey ix cfg.rel.desc) rows = none ∧
        out.rows = rows) ∨
      ∃ tid t, ix.findPkeyTuple ((Change.update old new).scanKey ix cfg.rel.desc) rows =
          some (tid, t) ∧
        ((cfg.session r w ⟨ts, .update old new⟩).Supersedes t ∧ cfg.rel.updateTuple tid
            ⟨heapModifyTuple t.values (transferred cfg.rel.desc new), ts, some w⟩ rows =
              .ok out.rows ∨
          (cfg.session r w ⟨ts, .update old new⟩).Keeps t ∧ out.rows = rows) := by
  obtain ⟨msg, hmsg, h⟩ := except_bind_eq_ok.mp h
  obtain ⟨old', hold', hmsg⟩ := except_bind_eq_ok.mp (except_mapError_eq_ok.mp hmsg)
  obtain ⟨new', hnew', hmsg⟩ := except_bind_eq_ok.mp hmsg
  cases hmsg
  obtain ⟨oldParts, newParts, key, holdParts, hnewParts, hkey, h⟩ :=
    processRemoteUpdate_noHandlers hix h
  rw [readOldTuple_of_writeOldTuple hwf.1 hold'] at holdParts
  rw [readTuple_of_writeTuple hwf.2 hnew'] at hnewParts
  cases holdParts
  cases hnewParts
  have hscan : key = (Change.update old new).scanKey ix cfg.rel.desc := by
    rw [hkey]
    cases old <;> rfl
  rw [hscan] at h
  exact h

theorem Config.replay_delete {old : Option (List (Datum D))}
    (hix : cfg.rel.identityIndex = some ix)
    (hwf : (Change.delete old).WellFormed cfg.rel.desc)
    (h : cfg.replay r w ⟨ts, .delete old⟩ rows = .ok out) :
    (ix.findPkeyTuple ((Change.delete old).scanKey ix cfg.rel.desc) rows = none ∧
        out.rows = rows) ∨
      ∃ tid t, ix.findPkeyTuple ((Change.delete old).scanKey ix cfg.rel.desc) rows =
        some (tid, t) ∧ out.rows = rows.eraseIdx tid := by
  obtain ⟨o, rfl, hconf⟩ := hwf
  obtain ⟨msg, hmsg, h⟩ := except_bind_eq_ok.mp h
  obtain ⟨key, hkey, hmap⟩ := except_map_eq_ok.mp (except_mapError_eq_ok.mp hmsg)
  cases hmap
  obtain ⟨cols, hw, hcols⟩ := except_map_eq_ok.mp hkey
  cases hcols
  obtain ⟨parts, hparts, h⟩ := processRemoteDelete_noHandlers hix h
  rw [readTuple_of_writeTuple hconf hw] at hparts
  cases hparts
  exact h

omit [DecidableEq ν] in
theorem scanKey_localUpdate {rel : Relation D} (hplain : ix.expressions = []) {row : Row D}
    (hrow : RowOf rel.desc row) (hconf : Conforms rel.desc new) :
    (Change.update (if logsOldKey ix row new then some (keyTuple ix row) else none) new).scanKey
      ix rel.desc = ix.key row := by
  simp only [Change.scanKey]
  cases hlog : logsOldKey ix row new with
  | true =>
    rw [if_pos rfl, Option.getD_some,
      heapFormTuple_transferred (keyTuple_conforms hrow) fun v => keyTuple_isExternal]
    exact Index.key_congr hplain fun a ha => keyTuple_getElem? ha
  | false =>
    simp only [logsOldKey, Bool.or_eq_false_iff, bne_eq_false_iff_eq, List.any_eq_false,
      Bool.not_eq_true] at hlog
    rw [if_neg (by simp), Option.getD_none, hlog.1]
    exact Index.key_congr hplain fun a ha =>
      heapFormTuple_transferred_getElem? hconf (hlog.2 a ha)

omit [DecidableEq ν] [DecidableEq D] in
theorem scanKey_localDelete {rel : Relation D} (hplain : ix.expressions = []) {row : Row D}
    (hrow : RowOf rel.desc row) :
    (Change.delete (some (keyTuple ix row))).scanKey ix rel.desc = ix.key row := by
  rw [Change.scanKey, Option.getD_some,
    heapFormTuple_transferred (keyTuple_conforms hrow) fun v => keyTuple_isExternal]
  exact Index.key_congr hplain fun a ha => keyTuple_getElem? ha

end Replay

end Pgactive
