import Pgactive.Stream.Wire

/-!
# Records of conflicts

`pgactive_make_apply_conflict` fills a zeroed record, and the functions that write it to the history
table and to the log of the server convert the tuples that are not marked as null. A local tuple
that is not to be logged is not marked.
-/

namespace Pgactive.ConflictLog

open Pgactive.Stream

def conflictResolutionGetName : ConflictResolution → String
  | .conflictTriggerSkipChange => "conflict_trigger_skip_change"
  | .conflictTriggerReturnedTuple => "conflict_trigger_returned_tuple"
  | .lastUpdateWinsKeepLocal => "last_update_wins_keep_local"
  | .lastUpdateWinsKeepRemote => "last_update_wins_keep_remote"
  | .defaultApplyChange => "apply_change"
  | .defaultSkipChange => "skip_change"
  | .unhandledTxAbort => "unhandled_tx_abort"

/-- The fields of `ErrorData` that are logged. -/
structure ErrorData where
  message : Option String
  cursorpos : ℕ
  detail : Option String
  hint : Option String
  context : Option String
  columnName : Option String
  datatypeName : Option String
  constraintName : Option String
  filename : Option String
  lineno : ℕ
  funcname : Option String
  schemaName : Option String
  tableName : Option String

variable {τ : Type}

/-- `pgactiveApplyConflict`. A datum that is not set is `none`. -/
structure ApplyConflict (τ : Type) where
  localConflictTxid : ℕ
  localConflictLsn : ℕ
  localConflictTime : ℤ
  objectSchema : Option String
  objectName : Option String
  remoteNode : NodeId
  remoteTxid : ℕ
  remoteCommitTime : ℤ
  remoteCommitLsn : ℕ
  conflictType : ConflictType
  conflictResolution : ConflictResolution
  localTupleNull : Bool
  localTuple : Option τ
  localTupleXmin : ℕ
  localTupleOriginNode : NodeId
  localCommitTime : ℤ
  remoteTupleNull : Bool
  remoteTuple : Option τ
  applyError : Option ErrorData

/-- The state of the apply worker that goes into a record. -/
structure Surroundings where
  myid : NodeId
  topTransactionId : ℕ
  insertRecPtr : ℕ
  now : ℤ
  /-- `pgactive_fetch_sysid_via_node_id`. -/
  sysidOf : ℕ → NodeId
  sessionOrigin : ℕ
  sessionOriginTimestamp : ℤ
  sessionOriginLsn : ℕ
  includeTuples : Bool

/-- What the caller knows about a conflict. -/
structure Conflict (τ : Type) where
  conflictType : ConflictType
  resolution : ConflictResolution
  remoteTxid : ℕ
  /-- The schema and the name of `conflict_relation`. -/
  conflictRelation : Option (String × String)
  /-- The local tuple and its `xmin`. -/
  localTuple : Option (τ × ℕ)
  localTupleOriginId : ℕ
  remoteTuple : Option τ
  localCommitTs : ℤ
  applyError : Option ErrorData

def makeLocalTuple (includeTuples : Bool) : Option (τ × ℕ) → Option τ × Bool
  -- Without tuples the datum and the flag stay as `palloc0` has set them.
  | some (tuple, _) => if includeTuples then (some tuple, false) else (none, false)
  | none => (none, true)

def makeRemoteTuple (includeTuples : Bool) : Option τ → Option τ × Bool
  | some tuple => if includeTuples then (some tuple, false) else (none, true)
  | none => (none, true)

def makeApplyConflict (env : Surroundings) (k : Conflict τ) : ApplyConflict τ where
  localConflictTxid := env.topTransactionId
  localConflictLsn := env.insertRecPtr
  localConflictTime := env.now
  objectSchema := k.conflictRelation.map Prod.fst
  objectName := k.conflictRelation.map Prod.snd
  remoteNode := env.sysidOf env.sessionOrigin
  remoteTxid := k.remoteTxid
  remoteCommitTime := env.sessionOriginTimestamp
  remoteCommitLsn := env.sessionOriginLsn
  conflictType := k.conflictType
  conflictResolution := k.resolution
  localTupleNull := (makeLocalTuple env.includeTuples k.localTuple).2
  localTuple := (makeLocalTuple env.includeTuples k.localTuple).1
  localTupleXmin := (k.localTuple.map Prod.snd).getD 0
  localTupleOriginNode :=
    if k.localTupleOriginId ≠ 0 then env.sysidOf k.localTupleOriginId else env.myid
  localCommitTime := k.localCommitTs
  remoteTupleNull := (makeRemoteTuple env.includeTuples k.remoteTuple).2
  remoteTuple := (makeRemoteTuple env.includeTuples k.remoteTuple).1
  applyError := k.applyError

/-! ### Writing a record -/

/-- A value of a column of the history table. -/
inductive LogValue (τ : Type)
  | text (s : String)
  | number (n : ℤ)
  | conflictType (t : ConflictType)
  | json (tuple : τ)
deriving DecidableEq

inductive LogError
  /-- "attempt to log conflict in aborted transaction". -/
  | abortedTransaction
  /-- "attempt to log conflict without surrounding transaction". -/
  | noTransaction
  /-- A datum that is not set is used as a tuple; what the server does then is not defined. -/
  | unsetDatum
deriving DecidableEq

/-- A tuple that is not null, for `row_to_json` and `row_to_stringinfo`. -/
def fetchRow (row : Option τ) : Except LogError τ := row.elim (.error .unsetDatum) .ok

def conflictRowToJson (row : Option τ) (isnull : Bool) : Except LogError (Option (LogValue τ)) :=
  if isnull then .ok none else (fun tuple => some (.json tuple)) <$> fetchRow row

def nonzero (n : ℤ) : Option (LogValue τ) := if n = 0 then none else some (.number n)

def errorColumns : Option ErrorData → List (Option (LogValue τ))
  | none => List.replicate 13 none
  | some e =>
    [e.message.map .text, none, nonzero e.cursorpos, e.detail.map .text, e.hint.map .text,
      e.context.map .text, e.columnName.map .text, e.datatypeName.map .text,
      e.constraintName.map .text, e.filename.map .text, some (.number e.lineno),
      e.funcname.map .text]

def nodeColumn (node : NodeId) (value : LogValue τ) : Option (LogValue τ) :=
  if node.sysid ≠ 0 then some value else none

/-- The state of the session and the settings for logging. -/
structure LogSettings where
  aborted : Bool
  inTransaction : Bool
  /-- `pgactive.log_conflicts_to_table`. -/
  toTable : Bool
  /-- `pgactive.log_conflicts_to_logfile`. -/
  toLogfile : Bool
  /-- The next value of the sequence of the history table. -/
  seqValue : ℕ
  myid : NodeId

def historyRow (log : LogSettings) (c : ApplyConflict τ)
    (localTuple remoteTuple : Option (LogValue τ)) : List (Option (LogValue τ)) :=
  let object := (c.applyError.map fun e => (e.schemaName, e.tableName)).getD
    (c.objectSchema, c.objectName)
  let columns := [some (.number log.seqValue), some (.text (toString log.myid.sysid)),
    some (.number c.localConflictTxid), some (.number c.localConflictLsn),
    some (.number c.localConflictTime), object.1.map .text, object.2.map .text,
    some (.text (toString c.remoteNode.sysid)), nonzero c.remoteTxid,
    some (.number c.remoteCommitTime), some (.number c.remoteCommitLsn),
    some (.conflictType c.conflictType),
    some (.text (conflictResolutionGetName c.conflictResolution)), localTuple, remoteTuple,
    nonzero c.localTupleXmin,
    nodeColumn c.localTupleOriginNode (.text (toString c.localTupleOriginNode.sysid))] ++
    errorColumns c.applyError ++
    [nodeColumn c.remoteNode (.number c.remoteNode.timeline.toNat),
      nodeColumn c.remoteNode (.number c.remoteNode.dboid.toNat),
      nodeColumn c.localTupleOriginNode (.number c.localTupleOriginNode.timeline.toNat),
      nodeColumn c.localTupleOriginNode (.number c.localTupleOriginNode.dboid.toNat),
      nonzero c.localCommitTime]
  columns ++ List.replicate (35 - columns.length) (some (.number 0))

def logTable (log : LogSettings) (c : ApplyConflict τ) :
    Except LogError (Option (List (Option (LogValue τ)))) :=
  if log.aborted then .error .abortedTransaction
  else if !log.inTransaction then .error .noTransaction
  else if !log.toTable then .ok none
  else do
    let localTuple ← conflictRowToJson c.localTuple c.localTupleNull
    let remoteTuple ← conflictRowToJson c.remoteTuple c.remoteTupleNull
    return some (historyRow log c localTuple remoteTuple)

/-- The message of `pgactive_conflict_log_serverlog` behind `CONFLICT: remote`, with the texts of a
node identifier and of the key. -/
def serverlogMessage (nodeText : NodeId → String) (c : ApplyConflict τ) (key : String) :
    Option String :=
  let found (operation before : String) :=
    some (operation ++ ": row was previously " ++ before ++ " at node " ++
      nodeText c.localTupleOriginNode ++ ". Resolution: " ++
      conflictResolutionGetName c.conflictResolution ++ "; PKEY:" ++ key)
  let missing (operation : String) :=
    some (operation ++ ": could not find existing row. Resolution: " ++
      conflictResolutionGetName c.conflictResolution ++ "; PKEY:" ++ key)
  match c.conflictType with
  | .insertInsert => found "INSERT" "INSERTed"
  | .insertUpdate => found "INSERT" "UPDATEd"
  | .updateUpdate => found "UPDATE" "UPDATEd"
  | .updateDelete => missing "UPDATE"
  | .deleteDelete => missing "DELETE"
  | .unhandledTxAbort => none

def conflictKey (rowText : τ → String) (c : ApplyConflict τ) : Except LogError String :=
  if c.localTupleNull then .ok "" else rowText <$> fetchRow c.localTuple

def logServerlog (log : LogSettings) (rowText : τ → String) (nodeText : NodeId → String)
    (c : ApplyConflict τ) : Except LogError (Option String) :=
  if !log.toLogfile then .ok none
  else serverlogMessage nodeText c <$> conflictKey rowText c

def ApplyConflict.Valid (c : ApplyConflict τ) : Prop :=
  (c.localTupleNull = false → c.localTuple.isSome = true) ∧
    (c.remoteTupleNull = false → c.remoteTuple.isSome = true)

theorem exists_fetchRow {row : Option τ} (h : row.isSome = true) :
    ∃ tuple, fetchRow row = .ok tuple := by
  obtain ⟨tuple, rfl⟩ := Option.isSome_iff_exists.mp h
  exact ⟨tuple, rfl⟩

theorem exists_conflictRowToJson {row : Option τ} {isnull : Bool}
    (h : isnull = false → row.isSome = true) :
    ∃ value, conflictRowToJson row isnull = .ok value := by
  cases isnull with
  | true => exact ⟨none, rfl⟩
  | false =>
    obtain ⟨tuple, htuple⟩ := exists_fetchRow (h rfl)
    refine ⟨some (.json tuple), ?_⟩
    rw [conflictRowToJson, htuple]
    rfl

variable {c : ApplyConflict τ}

theorem logTable_ne_unsetDatum (h : c.Valid) (log : LogSettings) :
    logTable log c ≠ .error .unsetDatum := by
  obtain ⟨localTuple, hlocal⟩ := exists_conflictRowToJson h.1
  obtain ⟨remoteTuple, hremote⟩ := exists_conflictRowToJson h.2
  unfold logTable
  rw [hlocal, hremote]
  split_ifs <;> simp [bind, Except.bind, pure, Except.pure]

theorem logServerlog_ne_unsetDatum (h : c.Valid) (log : LogSettings) (rowText : τ → String)
    (nodeText : NodeId → String) : logServerlog log rowText nodeText c ≠ .error .unsetDatum := by
  obtain ⟨key, hkey⟩ : ∃ key, conflictKey rowText c = .ok key := by
    unfold conflictKey
    cases hnull : c.localTupleNull with
    | true => exact ⟨"", rfl⟩
    | false =>
      obtain ⟨tuple, htuple⟩ := exists_fetchRow (h.1 hnull)
      exact ⟨rowText tuple, by rw [htuple]; rfl⟩
  rw [logServerlog, hkey]
  split_ifs <;> simp [Functor.map, Except.map]

theorem valid_makeApplyConflict {env : Surroundings} {k : Conflict τ} :
    (makeApplyConflict env k).Valid ↔ (k.localTuple.isSome = true → env.includeTuples = true) := by
  have hremote : (makeRemoteTuple env.includeTuples k.remoteTuple).2 = false →
      (makeRemoteTuple env.includeTuples k.remoteTuple).1.isSome = true := by
    cases k.remoteTuple <;> cases env.includeTuples <;> simp [makeRemoteTuple]
  refine (and_iff_left hremote).trans ?_
  simp only [makeApplyConflict]
  cases k.localTuple <;> cases env.includeTuples <;> simp [makeLocalTuple]

/-- A record never shows a tuple without a value as not null, and no conversion is applied to one
when it is written, exactly if there is no local tuple or tuples are logged. -/
theorem makeApplyConflict_valid_iff (env : Surroundings) (k : Conflict τ) :
    ((makeApplyConflict env k).Valid ∧
      ∀ log rowText nodeText,
        logTable log (makeApplyConflict env k) ≠ .error .unsetDatum ∧
        logServerlog log rowText nodeText (makeApplyConflict env k) ≠ .error .unsetDatum) ↔
      (k.localTuple.isSome = true → env.includeTuples = true) := by
  constructor
  · rintro ⟨hvalid, -⟩
    exact valid_makeApplyConflict.mp hvalid
  · intro h
    have hvalid := valid_makeApplyConflict.mpr h
    exact ⟨hvalid, fun log rowText nodeText =>
      ⟨logTable_ne_unsetDatum hvalid log, logServerlog_ne_unsetDatum hvalid log rowText nodeText⟩⟩

def withoutTuples : Surroundings :=
  ⟨⟨1, 1, 1⟩, 700, 0, 0, fun _ => ⟨2, 1, 1⟩, 1, 0, 0, false⟩

def updatedTwice : Conflict ℕ :=
  ⟨.updateUpdate, .lastUpdateWinsKeepRemote, 500, some ("public", "t"), some (1, 600), 0, some 2, 0,
    none⟩

theorem logTable_updatedTwice :
    (makeApplyConflict withoutTuples updatedTwice).localTupleNull = false ∧
      logTable ⟨false, true, true, false, 1, ⟨1, 1, 1⟩⟩
        (makeApplyConflict withoutTuples updatedTwice) = .error .unsetDatum :=
  ⟨rfl, rfl⟩

end Pgactive.ConflictLog
