import Pgactive.Tuple

/-!
# Applying remote changes to a table

`process_remote_insert`, `process_remote_update` and `process_remote_delete` with the conflict
resolution they share. A table is the list of its live row versions, each with the commit timestamp
and the origin of its writer. An error aborts the remote transaction.
-/

namespace Pgactive

variable {ν D : Type}

/-- The column values of a row, `none` for null. -/
abbrev Row (D : Type) := List (Option D)

/-- A row version as `get_local_tuple_origin` sees it. -/
structure StoredTuple (ν D : Type) where
  values : Row D
  commitTs : ℤ
  /-- Origin of the writing transaction, `none` for a local one. -/
  nodeId : Option ν
  deriving DecidableEq

/-- An index of the replicated table. -/
structure Index (D : Type) where
  unique : Bool
  attrs : List ℕ
  expressions : List (Row D → Option D)

def Index.key (ix : Index D) (row : Row D) : List (Option D) :=
  ix.attrs.map (fun a => row[a]?.join) ++ ix.expressions.map fun f => f row

/-- The replicated table: columns and indexes. -/
structure Relation (D : Type) where
  desc : List Attribute
  indexes : List (Index D)
  /-- Position of the replica identity index, or else of the primary key. -/
  identity : Option ℕ
  identity_plain : ∀ ix, identity.bind (indexes[·]?) = some ix → ix.unique ∧ ix.expressions = []

def Relation.identityIndex (rel : Relation D) : Option (Index D) :=
  rel.identity.bind (rel.indexes[·]?)

/-- `pgactiveConflictType`; the last one is a remote transaction that failed. -/
inductive ConflictType
  | insertInsert
  | insertUpdate
  | updateUpdate
  | updateDelete
  | deleteDelete
  | unhandledTxAbort
  deriving DecidableEq

inductive ConflictResolution
  | conflictTriggerSkipChange
  | conflictTriggerReturnedTuple
  | lastUpdateWinsKeepLocal
  | lastUpdateWinsKeepRemote
  | defaultApplyChange
  | defaultSkipChange
  | unhandledTxAbort
  deriving DecidableEq

/-- Errors raised while a change is applied. -/
inductive ApplyError
  | tuple (e : TupleError)
  | invalidLocalNodeSeqId
  | invalidRemoteNodeSeqId
  | unsuccessfulNodeSeqIdComparison
  | noPrimaryKey
  | uniqueViolation
  | multipleUniqueConstraints
  | deleteHandlerReturnedRow
  deriving DecidableEq

/-- What user-defined conflict handlers decide. -/
structure HandlerVerdict (D : Type) where
  skip : Bool
  tuple : Option (Row D)

/-- `pgactive_conflict_handlers_resolve` for one table: conflict type, local row if
there is one, remote row, and the distance of the two timestamps. -/
abbrev Handlers (D : Type) := ConflictType → Option (Row D) → Row D → ℕ → HandlerVerdict D

def noHandlers : Handlers D := fun _ _ _ _ => ⟨false, none⟩

/-- What the apply worker knows about the transaction it replays. -/
structure ApplySession (ν : Type) where
  /-- `replorigin_session_origin`. -/
  origin : ν
  /-- `replorigin_session_origin_timestamp`, the commit timestamp at the origin. -/
  originTimestamp : ℤ
  localNodeSeqId : ℤ
  /-- `pgactive_remote_node_seq_id`, of the peer the worker is connected to. -/
  remoteNodeSeqId : ℤ
  /-- `pgactive.discard_mismatched_row_attributes`. -/
  discardMismatched : Bool

/-- The output of `check_apply_update`. -/
structure Decision (D : Type) where
  performUpdate : Bool
  logUpdate : Bool
  resolution : Option ConflictResolution
  newTuple : Option (Row D)

/-- The data recorded by `pgactive_make_apply_conflict`. -/
structure ApplyConflict (ν D : Type) where
  type : ConflictType
  resolution : Option ConflictResolution
  localTuple : Option (StoredTuple ν D)
  remoteTuple : Row D

/-- The result of applying one change. -/
structure Applied (ν D : Type) where
  rows : List (StoredTuple ν D)
  conflict : Option (ApplyConflict ν D)

/-- `pgactive_conflict_last_update_wins`. On equal timestamps it compares the ids of this
node and of the sending peer. -/
def conflictLastUpdateWins (ss : ApplySession ν) (localTs : ℤ) : Except ApplyError (Decision D) :=
  if ss.originTimestamp > localTs then
    .ok ⟨true, false, some .lastUpdateWinsKeepRemote, none⟩
  else if ss.originTimestamp < localTs then
    .ok ⟨false, true, some .lastUpdateWinsKeepLocal, none⟩
  else if ss.localNodeSeqId ≤ 0 then .error .invalidLocalNodeSeqId
  else if ss.remoteNodeSeqId ≤ 0 then .error .invalidRemoteNodeSeqId
  else if ss.localNodeSeqId < ss.remoteNodeSeqId then
    .ok ⟨false, true, some .lastUpdateWinsKeepLocal, none⟩
  else if ss.localNodeSeqId > ss.remoteNodeSeqId then
    .ok ⟨true, false, some .lastUpdateWinsKeepRemote, none⟩
  else .error .unsuccessfulNodeSeqIdComparison

section Table

variable [DecidableEq D]

def Index.selects (ix : Index D) (key : List (Option D)) (t : StoredTuple ν D) : Bool :=
  !key.contains none && ix.key t.values == key

/-- `find_pkey_tuple`: position and version of the row that the key selects. -/
def Index.findPkeyTuple (ix : Index D) (key : List (Option D)) (rows : List (StoredTuple ν D)) :
    Option (ℕ × StoredTuple ν D) :=
  (rows.find? (ix.selects key)).map fun t => (rows.findIdx (ix.selects key), t)

def Relation.violates (rel : Relation D) (row : Row D) (rows : List (StoredTuple ν D)) : Bool :=
  rel.indexes.any fun ix => ix.unique && (ix.findPkeyTuple (ix.key row) rows).isSome

def Relation.insertTuple (rel : Relation D) (t : StoredTuple ν D) (rows : List (StoredTuple ν D)) :
    Except ApplyError (List (StoredTuple ν D)) :=
  if rel.violates t.values rows then .error .uniqueViolation else .ok (rows ++ [t])

/-- Replace the version at a position and add the index entries of the new one. -/
def Relation.updateTuple (rel : Relation D) (tid : ℕ) (t : StoredTuple ν D)
    (rows : List (StoredTuple ν D)) : Except ApplyError (List (StoredTuple ν D)) :=
  if rel.violates t.values (rows.eraseIdx tid) then .error .uniqueViolation
  else .ok (rows.set tid t)

/-- The index loop of `process_remote_insert`: position and version of the conflicting
row. `conflictingTid` is the position remembered from an earlier index; since the loop
ends at the first hit, it is never set. -/
def findConflict (row : Row D) (rows : List (StoredTuple ν D)) (conflictingTid : Option ℕ) :
    List (Index D) → Except ApplyError (Option (ℕ × StoredTuple ν D))
  | [] => .ok none
  | ix :: rest =>
    if ¬ix.unique ∨ ix.expressions.length ≠ 0 then findConflict row rows conflictingTid rest
    else
      match ix.findPkeyTuple (ix.key row) rows with
      | none => findConflict row rows conflictingTid rest
      | some found =>
        if conflictingTid.isSome ∧ conflictingTid ≠ some found.1 then
          .error .multipleUniqueConstraints
        else .ok (some found)

variable [DecidableEq ν] (ss : ApplySession ν) (handlers : Handlers D)

def checkApplyUpdate (type : ConflictType)
    (localTuple : StoredTuple ν D) (remoteTuple : Row D) : Except ApplyError (Decision D) :=
  if localTuple.nodeId = some ss.origin then .ok ⟨true, false, none, none⟩
  else
    let verdict := handlers type (some localTuple.values) remoteTuple
      (ss.originTimestamp - localTuple.commitTs).natAbs
    if verdict.skip then .ok ⟨false, true, some .conflictTriggerSkipChange, none⟩
    else
      match verdict.tuple with
      | some user => .ok ⟨true, true, some .conflictTriggerReturnedTuple, some user⟩
      | none => conflictLastUpdateWins ss localTuple.commitTs

/-- The version that the replayed transaction writes. -/
def ApplySession.stored (row : Row D) : StoredTuple ν D :=
  ⟨row, ss.originTimestamp, some ss.origin⟩

/-- `read_tuple_parts` on a message of the replayed transaction. -/
def readTuple (rel : Relation D) (cols : List (ColumnData D)) :
    Except ApplyError (List (TuplePart D)) :=
  (readTupleParts ss.discardMismatched rel.desc cols).mapError .tuple

def readOldTuple (rel : Relation D) :
    Option (List (ColumnData D)) → Except ApplyError (Option (List (TuplePart D)))
  | none => .ok none
  | some cols => (readTuple ss rel cols).map some

/-- Resolve a conflict with the row found at `tid`: the common part of the conflict
branches of `process_remote_insert` and `process_remote_update`. -/
def resolveFound (rel : Relation D)
    (type : ConflictType) (tid : ℕ) (localTuple : StoredTuple ν D) (remoteTuple : Row D)
    (rows : List (StoredTuple ν D)) : Except ApplyError (Applied ν D) := do
  let decision ← checkApplyUpdate ss handlers type localTuple remoteTuple
  let conflict := if decision.logUpdate then
    some ⟨type, decision.resolution, some localTuple, remoteTuple⟩ else none
  if decision.performUpdate then
    return ⟨← rel.updateTuple tid (ss.stored (decision.newTuple.getD remoteTuple)) rows, conflict⟩
  else return ⟨rows, conflict⟩

def processRemoteInsert (rel : Relation D)
    (new : List (ColumnData D)) (rows : List (StoredTuple ν D)) :
    Except ApplyError (Applied ν D) := do
  let newTuple ← readTuple ss rel new
  let row := heapFormTuple newTuple
  match ← findConflict row rows none rel.indexes with
  | some (tid, localTuple) => resolveFound ss handlers rel .insertInsert tid localTuple row rows
  | none => return ⟨← rel.insertTuple (ss.stored row) rows, none⟩

def processRemoteUpdate (rel : Relation D)
    (oldKey : Option (List (ColumnData D))) (new : List (ColumnData D))
    (rows : List (StoredTuple ν D)) : Except ApplyError (Applied ν D) := do
  let oldTuple ← readOldTuple ss rel oldKey
  let newTuple ← readTuple ss rel new
  match rel.identityIndex with
  | none => throw .noPrimaryKey
  | some ix =>
    match ix.findPkeyTuple (ix.key (heapFormTuple (oldTuple.getD newTuple))) rows with
    | some (tid, localTuple) =>
      resolveFound ss handlers rel .updateUpdate tid localTuple
        (heapModifyTuple localTuple.values newTuple) rows
    | none =>
      -- The target is missing: only a handler can make the change take effect.
      let remoteTuple := heapFormTuple newTuple
      let verdict := handlers .updateDelete none remoteTuple 0
      if verdict.skip then
        return ⟨rows, some ⟨.updateDelete, some .conflictTriggerSkipChange, none, remoteTuple⟩⟩
      else
        match verdict.tuple with
        | some user =>
          return ⟨← rel.insertTuple (ss.stored user) rows,
            some ⟨.updateDelete, some .conflictTriggerReturnedTuple, none, remoteTuple⟩⟩
        | none =>
          return ⟨rows, some ⟨.updateDelete, some .defaultSkipChange, none, remoteTuple⟩⟩

def processRemoteDelete (rel : Relation D)
    (oldKey : Option (List (ColumnData D))) (rows : List (StoredTuple ν D)) :
    Except ApplyError (Applied ν D) := do
  match oldKey with
  | none => return ⟨rows, none⟩
  | some cols =>
    let oldTuple ← readTuple ss rel cols
    match rel.identityIndex with
    | none => throw .noPrimaryKey
    | some ix =>
      let remoteTuple := heapFormTuple oldTuple
      match ix.findPkeyTuple (ix.key remoteTuple) rows with
      | some (tid, _) => return ⟨rows.eraseIdx tid, none⟩
      | none =>
        let verdict := handlers .deleteDelete none remoteTuple 0
        if verdict.tuple.isSome then throw .deleteHandlerReturnedRow
        else
          return ⟨rows, some ⟨.deleteDelete, some (if verdict.skip then
            .conflictTriggerSkipChange else .defaultSkipChange), none, remoteTuple⟩⟩

end Table

end Pgactive
