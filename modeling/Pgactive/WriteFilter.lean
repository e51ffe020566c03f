import Pgactive.FallibleState
import Pgactive.Ddl.Statements

/-!
# The filter for row changes

On a read-only node `pgactiveExecutorStart` refuses to write to replicated tables, and on others
`UPDATE` and `DELETE` of tables without an index to find a row by. It goes by the type of the whole
statement and the list of all tables that it writes to: `INSERT ... ON CONFLICT DO UPDATE` passes as
an `INSERT`, and with a `WITH` clause that modifies tables a mere target of `INSERT` is refused.
-/

namespace Pgactive.WriteFilter

open FallibleState
open Pgactive.Ddl (Oid)

inductive CmdType
  | select
  | insert
  | update
  | delete
  | merge
deriving DecidableEq

/-- An action of `MERGE`. -/
inductive MergeAction
  | insert
  | update
  | delete
  | doNothing
deriving DecidableEq

/-- What a `ModifyTable` node does to its tables. -/
inductive Modification
  | insert (onConflictUpdate : Bool)
  | update
  | delete
  | merge (actions : List MergeAction)

def Modification.cmdType : Modification → CmdType
  | .insert _ => .insert
  | .update => .update
  | .delete => .delete
  | .merge _ => .merge

def Modification.updates : Modification → Bool
  | .insert onConflictUpdate => onConflictUpdate
  | .update | .delete => true
  | .merge actions => actions.contains .update || actions.contains .delete

/-- A `ModifyTable` node of a plan. -/
structure ModifyTable where
  modification : Modification
  resultRelations : List Oid

/-- `PlannedStmt`: a query or a modification of tables, with the modifications in its `WITH`
clause. -/
structure PlannedStmt where
  /-- The statement itself, if it is not a `SELECT`. -/
  top : Option ModifyTable
  modifyingCtes : List ModifyTable
  /-- `rowMarks` is not empty. -/
  hasRowMarks : Bool

namespace PlannedStmt

variable (stmt : PlannedStmt)

def commandType : CmdType :=
  match stmt.top with
  | some node => node.modification.cmdType
  | none => .select

def hasModifyingCTE : Bool := !stmt.modifyingCtes.isEmpty

def nodes : List ModifyTable := stmt.top.toList ++ stmt.modifyingCtes

def resultRelations : List Oid := stmt.nodes.flatMap ModifyTable.resultRelations

def performsWrites : Bool :=
  stmt.hasModifyingCTE || stmt.hasRowMarks || stmt.commandType ≠ .select

def writableStmtTag : String :=
  match stmt.commandType with
  | .select => "SELECT INTO"
  | .insert => "INSERT"
  | .update => "UPDATE"
  | .delete => "DELETE"
  | .merge => "MERGE"

def plainInsert : Bool := stmt.commandType = .insert && !stmt.hasModifyingCTE

end PlannedStmt

/-- What the filter reads of a relation. -/
structure Relation where
  relname : String
  /-- `RelationNeedsWAL`. -/
  needsWal : Bool
  /-- The relation is in `pg_catalog`. -/
  inCatalog : Bool
  /-- `RelationGetReplicaIndex`. -/
  replicaIndex : Option Oid
  /-- `RelationGetPrimaryKeyIndex`. -/
  primaryKeyIndex : Option Oid

/-- What ends a statement before it is executed. -/
inductive ExecutorError
  /-- The error of `pgactive_locks_check_dml`. -/
  | dmlLock (message : String)
  | dmlInReplicateDdlCommand
  | readOnlyNode (tag relname : String)
  | missingPrimaryKey (relname : String)
deriving DecidableEq

/-- What the filter reads of the server and the session. -/
structure ExecutorEnv where
  alwaysAllowWrites : Bool
  /-- `replorigin_session_origin` is set. -/
  replaying : Bool
  /-- `pgactive_is_pgactive_activated_db(MyDatabaseId)`. -/
  activated : Bool
  localNodeReadOnly : Bool
  skipDdlReplication : Bool
  /-- `in_pgactive_replicate_ddl_command`. -/
  inReplicateDdlCommand : Bool
  inExtension : Bool
  lockError : Option String
  /-- `RelationIdGetRelation`. -/
  relation : Oid → Relation

def locksCheckDml (env : ExecutorEnv) : Except ExecutorError Unit :=
  if env.skipDdlReplication then .ok ()
  else
    match env.lockError with
    | some message => .error (.dmlLock message)
    | none => .ok ()

def checkReplicateDdlCommand (env : ExecutorEnv) (stmt : PlannedStmt) : Except ExecutorError Unit :=
  if env.inReplicateDdlCommand && !env.inExtension then
    match stmt.commandType with
    | .insert | .update | .delete => .error .dmlInReplicateDdlCommand
    | _ => .ok ()
  else .ok ()

def checkResultRelations (env : ExecutorEnv) (tag : String) (readOnlyNode : Bool) :
    List Oid → Except ExecutorError Unit
  | [] => .ok ()
  | relid :: rest =>
    let rel := env.relation relid
    if !rel.needsWal then checkResultRelations env tag readOnlyNode rest
    else if rel.inCatalog then checkResultRelations env tag readOnlyNode rest
    else if readOnlyNode then .error (.readOnlyNode tag rel.relname)
    else
      let idxoid := if rel.replicaIndex.isSome then rel.replicaIndex else rel.primaryKeyIndex
      if idxoid.isSome then checkResultRelations env tag readOnlyNode rest
      else .error (.missingPrimaryKey rel.relname)

def ExecutorEnv.readOnlyNode (env : ExecutorEnv) : Bool :=
  env.localNodeReadOnly && !env.skipDdlReplication

def checkTargets (env : ExecutorEnv) (stmt : PlannedStmt) : Except ExecutorError Unit :=
  if stmt.plainInsert && !env.readOnlyNode then .ok ()
  else checkResultRelations env stmt.writableStmtTag env.readOnlyNode stmt.resultRelations

/-- `pgactiveExecutorStart`, up to the label `done`. -/
def executorStart (env : ExecutorEnv) (stmt : PlannedStmt) : Except ExecutorError Unit :=
  if env.alwaysAllowWrites then .ok ()
  else if env.replaying then .ok ()
  else if !stmt.performsWrites then .ok ()
  else if !env.activated then .ok ()
  else do
    locksCheckDml env
    checkReplicateDdlCommand env stmt
    checkTargets env stmt

/-! ### What the loop refuses -/

def ExecutorEnv.regular (env : ExecutorEnv) (relid : Oid) : Bool :=
  (env.relation relid).needsWal && !(env.relation relid).inCatalog

/-- A permanent table outside of the catalog that has neither a primary key nor a replica identity
index. -/
def ExecutorEnv.keyless (env : ExecutorEnv) (relid : Oid) : Bool :=
  env.regular relid && (env.relation relid).replicaIndex.isNone &&
    (env.relation relid).primaryKeyIndex.isNone

variable {env : ExecutorEnv} {stmt : PlannedStmt} {tag : String} {relids : List Oid} {relid : Oid}
  {readOnlyNode : Bool}

theorem checkResultRelations_cons :
    checkResultRelations env tag readOnlyNode (relid :: relids) =
      if readOnlyNode && env.regular relid then
        .error (.readOnlyNode tag (env.relation relid).relname)
      else if !readOnlyNode && env.keyless relid then
        .error (.missingPrimaryKey (env.relation relid).relname)
      else checkResultRelations env tag readOnlyNode relids := by
  rw [checkResultRelations, ExecutorEnv.keyless, ExecutorEnv.regular]
  cases (env.relation relid).needsWal with
  | false => simp
  | true =>
    cases (env.relation relid).inCatalog with
    | true => simp
    | false =>
      cases readOnlyNode with
      | true => simp
      | false =>
        cases (env.relation relid).replicaIndex <;>
          cases (env.relation relid).primaryKeyIndex <;> simp

theorem checkResultRelations_readOnly :
    (∃ e, checkResultRelations env tag true relids = .error e) ↔
      ∃ relid ∈ relids, env.regular relid = true := by
  induction relids with
  | nil => simp [checkResultRelations]
  | cons relid relids ih =>
    rw [checkResultRelations_cons, List.exists_mem_cons_iff, ← ih]
    cases hregular : env.regular relid <;> simp

theorem checkResultRelations_writable :
    (∃ e, checkResultRelations env tag false relids = .error e) ↔
      ∃ relid ∈ relids, env.keyless relid = true := by
  induction relids with
  | nil => simp [checkResultRelations]
  | cons relid relids ih =>
    rw [checkResultRelations_cons, List.exists_mem_cons_iff, ← ih]
    cases hkeyless : env.keyless relid <;> simp

theorem checkResultRelations_error {e : ExecutorError}
    (h : checkResultRelations env tag false relids = .error e) :
    ∃ relname, e = .missingPrimaryKey relname := by
  induction relids with
  | nil => cases h
  | cons relid relids ih =>
    rw [checkResultRelations_cons] at h
    cases hkeyless : env.keyless relid with
    | true =>
      simp [hkeyless] at h
      exact ⟨_, h.symm⟩
    | false =>
      simp [hkeyless] at h
      exact ih h

/-! ### What the filter refuses -/

/-- The database is active, the session does not replay, and writes are not always allowed. -/
structure ExecutorEnv.Filters (env : ExecutorEnv) : Prop where
  alwaysAllowWrites : env.alwaysAllowWrites = false
  replaying : env.replaying = false
  activated : env.activated = true

/-- The statement is refused before the tables are looked at: the wait for the global lock fails, or
it is a row change inside `pgactive_replicate_ddl_command`. -/
def refusedBefore (env : ExecutorEnv) (stmt : PlannedStmt) : Bool :=
  !env.skipDdlReplication && env.lockError.isSome ||
    env.inReplicateDdlCommand && !env.inExtension &&
      [CmdType.insert, .update, .delete].contains stmt.commandType

theorem Modification.cmdType_ne_select (modification : Modification) :
    modification.cmdType ≠ .select := by
  cases modification <;> simp [cmdType]

theorem PlannedStmt.performsWrites_of_mem {node : ModifyTable} (h : node ∈ stmt.nodes) :
    stmt.performsWrites = true := by
  unfold performsWrites hasModifyingCTE commandType
  cases htop : stmt.top with
  | some top => simp [top.modification.cmdType_ne_select]
  | none =>
    cases hctes : stmt.modifyingCtes with
    | nil => simp [nodes, htop, hctes] at h
    | cons cte ctes => simp

theorem locksCheckDml_eq (env : ExecutorEnv) :
    locksCheckDml env =
      if !env.skipDdlReplication && env.lockError.isSome then
        .error (.dmlLock (env.lockError.getD ""))
      else .ok () := by
  unfold locksCheckDml
  cases env.skipDdlReplication <;> cases env.lockError <;> rfl

theorem checkReplicateDdlCommand_eq (env : ExecutorEnv) (stmt : PlannedStmt) :
    checkReplicateDdlCommand env stmt =
      if env.inReplicateDdlCommand && !env.inExtension &&
          [CmdType.insert, .update, .delete].contains stmt.commandType then
        .error .dmlInReplicateDdlCommand
      else .ok () := by
  unfold checkReplicateDdlCommand
  cases env.inReplicateDdlCommand && !env.inExtension <;> cases stmt.commandType <;> rfl

theorem executorStart_cases (hfilters : env.Filters) (hwrites : stmt.performsWrites = true) :
    (refusedBefore env stmt = true ∧
      ∃ e, executorStart env stmt = .error e ∧ ∀ relname, e ≠ .missingPrimaryKey relname) ∨
    (refusedBefore env stmt = false ∧ executorStart env stmt = checkTargets env stmt) := by
  have hstart : executorStart env stmt = (do
      locksCheckDml env
      checkReplicateDdlCommand env stmt
      checkTargets env stmt) := by
    unfold executorStart
    rw [hfilters.alwaysAllowWrites, hfilters.replaying, hfilters.activated, hwrites]
    rfl
  rw [hstart, locksCheckDml_eq, checkReplicateDdlCommand_eq]
  unfold refusedBefore
  cases !env.skipDdlReplication && env.lockError.isSome with
  | true => exact .inl ⟨rfl, _, rfl, by simp⟩
  | false =>
    cases env.inReplicateDdlCommand && !env.inExtension &&
        [CmdType.insert, .update, .delete].contains stmt.commandType with
    | true => exact .inl ⟨rfl, _, rfl, by simp⟩
    | false => exact .inr ⟨rfl, rfl⟩

/-- A table without an index is updated, or rows of it are deleted. -/
def UpdatesKeyless (env : ExecutorEnv) (stmt : PlannedStmt) : Prop :=
  ∃ node ∈ stmt.nodes, node.modification.updates = true ∧
    ∃ relid ∈ node.resultRelations, env.keyless relid = true

def WritesKeyless (env : ExecutorEnv) (stmt : PlannedStmt) : Prop :=
  ∃ relid ∈ stmt.resultRelations, env.keyless relid = true

/-- A read-only node refuses to write to regular tables, and on other nodes the error for a missing
primary key is raised if a table without an index is updated or rows of it are deleted. -/
def FiltersWrites (env : ExecutorEnv) (stmt : PlannedStmt) : Prop :=
  (env.localNodeReadOnly = true → (∃ relid ∈ stmt.resultRelations, env.regular relid = true) →
    ∃ e, executorStart env stmt = .error e) ∧
  (env.localNodeReadOnly = false →
    ((∃ relname, executorStart env stmt = .error (.missingPrimaryKey relname)) ↔
      UpdatesKeyless env stmt))

theorem UpdatesKeyless.writesKeyless (h : UpdatesKeyless env stmt) : WritesKeyless env stmt := by
  obtain ⟨node, hnode, -, relid, hrelid, hkeyless⟩ := h
  exact ⟨relid, List.mem_flatMap.mpr ⟨node, hnode, hrelid⟩, hkeyless⟩

theorem WritesKeyless.performsWrites (h : WritesKeyless env stmt) : stmt.performsWrites = true := by
  obtain ⟨relid, hrelid, -⟩ := h
  obtain ⟨node, hnode, -⟩ := List.mem_flatMap.mp hrelid
  exact PlannedStmt.performsWrites_of_mem hnode

theorem checkTargets_writable (h : env.readOnlyNode = false) :
    (∃ e, checkTargets env stmt = .error e) ↔
      stmt.plainInsert = false ∧ WritesKeyless env stmt := by
  unfold checkTargets
  rw [h]
  cases stmt.plainInsert with
  | true => simp
  | false => simpa [WritesKeyless] using checkResultRelations_writable

theorem checkTargets_error {e : ExecutorError} (h : env.readOnlyNode = false)
    (herror : checkTargets env stmt = .error e) : ∃ relname, e = .missingPrimaryKey relname := by
  unfold checkTargets at herror
  rw [h] at herror
  split_ifs at herror
  exact checkResultRelations_error herror

theorem executorStart_refuses_iff (hfilters : env.Filters) (hwrites : stmt.performsWrites = true)
    (h : env.readOnlyNode = false) :
    (∃ e, executorStart env stmt = .error e) ↔
      refusedBefore env stmt = true ∨ (stmt.plainInsert = false ∧ WritesKeyless env stmt) := by
  obtain ⟨hbefore, e, hstart, -⟩ | ⟨hbefore, hstart⟩ := executorStart_cases hfilters hwrites
  · exact iff_of_true ⟨e, hstart⟩ (.inl hbefore)
  · rw [hstart, checkTargets_writable h, hbefore]
    simp

theorem executorStart_missingPrimaryKey_iff (hfilters : env.Filters)
    (h : env.readOnlyNode = false) :
    (∃ relname, executorStart env stmt = .error (.missingPrimaryKey relname)) ↔
      refusedBefore env stmt = false ∧ stmt.plainInsert = false ∧ WritesKeyless env stmt := by
  cases hwrites : stmt.performsWrites with
  | false =>
    have hstart : executorStart env stmt = .ok () := by
      simp [executorStart, hfilters.alwaysAllowWrites, hfilters.replaying, hwrites]
    refine iff_of_false (by simp [hstart]) fun hkeyless => ?_
    exact Bool.false_ne_true (hwrites.symm.trans hkeyless.2.2.performsWrites)
  | true =>
    obtain ⟨hbefore, e, hstart, hother⟩ | ⟨hbefore, hstart⟩ := executorStart_cases hfilters hwrites
    · refine iff_of_false ?_ (by simp [hbefore])
      rintro ⟨relname, hraises⟩
      exact hother relname (Except.error.inj (hstart.symm.trans hraises))
    · rw [hstart, ← checkTargets_writable h, hbefore]
      refine ⟨fun ⟨relname, hraises⟩ => ⟨rfl, _, hraises⟩, ?_⟩
      rintro ⟨-, e, hraises⟩
      obtain ⟨relname, rfl⟩ := checkTargets_error h hraises
      exact ⟨relname, hraises⟩

theorem executorStart_readOnly (hfilters : env.Filters) (h : env.readOnlyNode = true)
    (hrelid : relid ∈ stmt.resultRelations) (hregular : env.regular relid = true) :
    ∃ e, executorStart env stmt = .error e := by
  obtain ⟨node, hnode, -⟩ := List.mem_flatMap.mp hrelid
  obtain ⟨-, e, hstart, -⟩ | ⟨-, hstart⟩ :=
    executorStart_cases hfilters (PlannedStmt.performsWrites_of_mem hnode)
  · exact ⟨e, hstart⟩
  · rw [hstart, checkTargets, h, Bool.not_true, Bool.and_false, if_neg Bool.false_ne_true]
    exact checkResultRelations_readOnly.mpr ⟨relid, hrelid, hregular⟩

/-- What it takes for the filter to be right. On a read-only node with
`pgactive.skip_ddl_replication` the statement is refused for another reason, if it has a regular
table to write to. On other nodes: if a table without an index is updated, the statement is not
refused before and no plain `INSERT`; if such tables are only inserted into, it is. -/
def ExceptionsAvoided (env : ExecutorEnv) (stmt : PlannedStmt) : Prop :=
  (env.localNodeReadOnly = true → env.skipDdlReplication = true →
    (∃ relid ∈ stmt.resultRelations, env.regular relid = true) →
      refusedBefore env stmt = true ∨ (stmt.plainInsert = false ∧ WritesKeyless env stmt)) ∧
  (env.localNodeReadOnly = false →
    (UpdatesKeyless env stmt → refusedBefore env stmt = false ∧ stmt.plainInsert = false) ∧
    (¬UpdatesKeyless env stmt → WritesKeyless env stmt →
      refusedBefore env stmt = true ∨ stmt.plainInsert = true))

/-- For every planned statement on an active database, outside of replay and if writes are not
always allowed: the filter refuses to write to permanent tables on a read-only node, and on others
raises the error for a missing primary key exactly if a permanent table without an index is updated
or rows of it are deleted, exactly if none of the exceptions applies. -/
theorem executorStart_filtersWrites (env : ExecutorEnv) (stmt : PlannedStmt)
    (hfilters : env.Filters) : FiltersWrites env stmt ↔ ExceptionsAvoided env stmt := by
  refine and_congr (forall_congr' fun hreadOnly => ?_) (forall_congr' fun hwritable => ?_)
  · cases hskip : env.skipDdlReplication with
    | false =>
      have hnode : env.readOnlyNode = true := by simp [ExecutorEnv.readOnlyNode, hreadOnly, hskip]
      refine iff_of_true ?_ fun h => absurd h Bool.false_ne_true
      rintro ⟨relid, hrelid, hregular⟩
      exact executorStart_readOnly hfilters hnode hrelid hregular
    | true =>
      have hnode : env.readOnlyNode = false := by simp [ExecutorEnv.readOnlyNode, hskip]
      rw [eq_self_iff_true, true_imp_iff]
      refine forall_congr' fun htarget => ?_
      obtain ⟨relid, hrelid, -⟩ := htarget
      obtain ⟨node, hmem, -⟩ := List.mem_flatMap.mp hrelid
      exact executorStart_refuses_iff hfilters (PlannedStmt.performsWrites_of_mem hmem) hnode
  · have hnode : env.readOnlyNode = false := by simp [ExecutorEnv.readOnlyNode, hwritable]
    rw [executorStart_missingPrimaryKey_iff hfilters hnode]
    by_cases hupdates : UpdatesKeyless env stmt
    · simp [hupdates, hupdates.writesKeyless]
    · rw [iff_false_right hupdates]
      refine ⟨fun hnot => ⟨fun h => absurd h hupdates, fun _ hkeyless => ?_⟩, ?_⟩
      · cases hbefore : refusedBefore env stmt with
        | true => exact .inl rfl
        | false =>
          cases hplain : stmt.plainInsert with
          | true => exact .inr rfl
          | false => exact absurd ⟨hbefore, hplain, hkeyless⟩ hnot
      · rintro ⟨-, hrefused⟩ ⟨hbefore, hplain, hkeyless⟩
        rcases hrefused hupdates hkeyless with h | h
        · exact Bool.false_ne_true (hbefore.symm.trans h)
        · exact Bool.false_ne_true (hplain.symm.trans h)

/-- A session on a writable node, with the permanent tables `accounts`, which has a primary key, and
`counters`, which has only a unique constraint. -/
def userEnv : ExecutorEnv where
  alwaysAllowWrites := false
  replaying := false
  activated := true
  localNodeReadOnly := false
  skipDdlReplication := false
  inReplicateDdlCommand := false
  inExtension := false
  lockError := none
  relation relid :=
    if relid = 16400 then ⟨"accounts", true, false, some 16403, some 16403⟩
    else ⟨"counters", true, false, none, none⟩

theorem userEnv_filters : userEnv.Filters := ⟨rfl, rfl, rfl⟩

def updateCounters : PlannedStmt := ⟨some ⟨.update, [16401]⟩, [], false⟩

theorem executorStart_filtersWrites_updateCounters : FiltersWrites userEnv updateCounters := by
  refine (executorStart_filtersWrites userEnv updateCounters userEnv_filters).mpr
    ⟨fun h => absurd h (by decide), fun _ => ⟨fun _ => ⟨rfl, rfl⟩, fun hnot => ?_⟩⟩
  exact absurd ⟨_, List.mem_singleton_self _, rfl, 16401, List.mem_singleton_self _, rfl⟩ hnot

def upsertCounters : PlannedStmt := ⟨some ⟨.insert true, [16401]⟩, [], false⟩

def insertWithUpdate : PlannedStmt :=
  ⟨some ⟨.insert false, [16401]⟩, [⟨.update, [16400]⟩], false⟩

theorem upsertCounters_updatesKeyless : UpdatesKeyless userEnv upsertCounters :=
  ⟨_, List.mem_singleton_self _, rfl, 16401, List.mem_singleton_self _, rfl⟩

theorem insertWithUpdate_not_updatesKeyless : ¬UpdatesKeyless userEnv insertWithUpdate := by
  rintro ⟨node, hnode, hupdates, relid, hrelid, hkeyless⟩
  rcases List.mem_cons.mp hnode with rfl | hnode
  · cases hupdates
  · obtain rfl : node = ⟨.update, [16400]⟩ := List.mem_singleton.mp hnode
    obtain rfl : relid = 16400 := List.mem_singleton.mp hrelid
    cases hkeyless

/-- The first statement updates a table without an index and passes; the second one does not, and is
refused. -/
theorem executorStart_upsertCounters :
    (executorStart userEnv upsertCounters = .ok () ∧ ¬FiltersWrites userEnv upsertCounters) ∧
    (executorStart userEnv insertWithUpdate = .error (.missingPrimaryKey "counters") ∧
      ¬FiltersWrites userEnv insertWithUpdate) := by
  refine ⟨⟨rfl, fun h => ?_⟩, rfl, fun h => ?_⟩
  · obtain ⟨relname, hraises⟩ := (h.2 rfl).mpr upsertCounters_updatesKeyless
    cases hraises
  · exact insertWithUpdate_not_updatesKeyless ((h.2 rfl).mp ⟨"counters", rfl⟩)

end Pgactive.WriteFilter
