import Pgactive.Replication

/-!
# What the apply handlers leave behind

A handler pushes an error context callback, may switch to the owner of the table, pushes snapshots,
and is to take all of this back. The handlers of `Pgactive.Apply` are run here with this state of
the process. Only the commands of a queued DDL command touch it: they run in the role of their
author, and one such as `CREATE INDEX CONCURRENTLY` ends the transaction that it starts in.
-/

namespace Pgactive.ApplyFrame

open FallibleState

variable {υ κ ν D : Type}

/-- The callbacks on `error_context_stack`. -/
inductive Callback
  | actionError
  | queuedCommandError
  | queuedDropError
  deriving DecidableEq

/-- What `GetUserIdAndSecContext` gives, and a `UserContext` saves. -/
@[ext]
structure UserContext (υ : Type) where
  userid : υ
  secContext : UInt32
  deriving DecidableEq

def securityRestrictedOperation : UInt32 := 2

/-- Where an active snapshot comes from. -/
inductive Snapshot
  | transaction
  | latest
  deriving DecidableEq

/-- The part of the process that is to be the same before and after a handler. -/
@[ext]
structure Frame (υ : Type) where
  /-- `error_context_stack`, from the top. -/
  errorContext : List Callback
  user : UserContext υ
  snapshots : List Snapshot
  deriving DecidableEq

/-- The apply worker. -/
structure Backend (υ : Type) extends Frame υ where
  startedTransaction : Bool
  topXid : ℕ
  deriving DecidableEq

/-- Errors that a handler raises. -/
inductive HandlerError
  | apply (e : ApplyError)
  | undefinedTable
  /-- "unexpected relkind". -/
  | unexpectedRelkind
  /-- "null command perpetrator", "null command tag" and "null command". -/
  | nullQueueColumn
  | undefinedRole
  | postgres
  deriving DecidableEq

abbrev Handler (υ α : Type) := Fallible HandlerError (Backend υ) α

/-- Which queue a table is. -/
inductive Queue
  | ddlCommands
  | drops
  deriving DecidableEq

/-- An open `pgactiveRelation`. -/
structure OpenTable (υ D : Type) where
  rel : Relation D
  owner : υ
  /-- `relkind` is `RELKIND_RELATION`. -/
  ordinary : Bool
  handlersCached : Bool
  /-- The table is `QueuedDDLCommandsRelid` or `QueuedDropsRelid`. -/
  queue : Option Queue

/-- Settings of the worker. -/
structure Settings where
  applyAsTableOwner : Bool
  skipDdlReplication : Bool

/-- What the handlers ask of PostgreSQL. -/
structure Server (υ κ D : Type) where
  /-- `table_tuple_lock` on a row found in an index: how often it meets a concurrent update. -/
  lockTuple : Index D → Except HandlerError ℕ
  role : D → Option υ
  parseQuery : D → Except HandlerError (List κ)
  /-- Plan and run a command, as the top level or not; whether it has ended the transaction. -/
  portalRun : κ → Bool → Except HandlerError Bool
  /-- Whether the end of a nest level of settings undoes a role that was set with
  `PGC_S_OVERRIDE`. -/
  undoesOverride : Bool
  objectAddresses : D → Except HandlerError Unit
  performMultipleDeletions : D → Except HandlerError Unit

/-! ### The frame -/

def pushErrorContext (cb : Callback) : Handler υ (List Callback) :=
  fun s => (.ok s.errorContext, { s with errorContext := cb :: s.errorContext })

def popErrorContext (cb : Callback) (previous : List Callback) : Handler υ Unit :=
  fun s => (.ok (), if s.errorContext = cb :: previous then
    { s with errorContext := previous } else s)

def pushActiveSnapshot (snapshot : Snapshot) : Handler υ Unit :=
  fun s => (.ok (), { s with snapshots := snapshot :: s.snapshots })

def popActiveSnapshot : Handler υ Unit :=
  fun s => (.ok (), { s with snapshots := s.snapshots.tail })

def switchToUntrustedUser (userid : υ) : Handler υ (UserContext υ) :=
  fun s => (.ok s.user,
    { s with user := ⟨userid, s.user.secContext ||| securityRestrictedOperation⟩ })

def restoreUserContext (saved : UserContext υ) : Handler υ Unit :=
  fun s => (.ok (), { s with user := saved })

/-- Switch to the owner of the table, if so configured. Otherwise nothing is saved that is used
later. -/
def switchToOwner (cfg : Settings) (owner : υ) : Handler υ (UserContext υ) :=
  if cfg.applyAsTableOwner then switchToUntrustedUser owner else fun s => (.ok s.user, s)

def switchBack (cfg : Settings) (saved : UserContext υ) : Handler υ Unit :=
  if cfg.applyAsTableOwner then restoreUserContext saved else pure ()

def performingWork : Handler υ Bool :=
  fun s => (.ok !s.startedTransaction, { s with startedTransaction := true })

def readRel (table : Option (OpenTable υ D)) : Handler υ (OpenTable υ D) :=
  match table with
  | some table => pure table
  | none => throw .undefinedTable

def checkRelkind (table : OpenTable υ D) : Handler υ Unit :=
  if table.ordinary then pure () else throw .unexpectedRelkind

/-- A step of `Pgactive.Apply`, which knows nothing of the frame. -/
def applied {α : Type} (x : Except ApplyError α) : Handler υ α := stateless (x.mapError .apply)

/-! ### Queued commands -/

def queueColumn (row : Row D) (attnum : ℕ) : Handler υ D :=
  match row[attnum - 1]?.join with
  | some d => pure d
  | none => throw .nullQueueColumn

def setRole (server : Server υ κ D) (perpetrator : D) : Handler υ Unit :=
  match server.role perpetrator with
  | some role => fun s => (.ok (), { s with user := { s.user with userid := role } })
  | none => throw .undefinedRole

def portalRun (server : Server υ κ D) (isTopLevel : Bool) (command : κ) : Handler υ Unit := do
  let ended ← stateless (server.portalRun command isTopLevel)
  if ended then modify fun s => { s with snapshots := [], topXid := s.topXid + 1 }

/-- The body of the loop of `pgactive_execute_ddl_command`. -/
def runCommand (server : Server υ κ D) (perpetrator : D) (isTopLevel : Bool) (command : κ) :
    Handler υ Unit := do
  pushActiveSnapshot .transaction
  setRole server perpetrator
  popActiveSnapshot
  portalRun server isTopLevel command

def runCommands (server : Server υ κ D) (perpetrator : D) (isTopLevel : Bool) :
    List κ → Handler υ Unit
  | [] => pure ()
  | command :: commands => do
    runCommand server perpetrator isTopLevel command
    runCommands server perpetrator isTopLevel commands

/-- `AtEOXact_GUC` at the end of the nest level that was entered in the state `level`. A
transaction that has ended takes its nest levels with it. -/
def atEOXactGuc (server : Server υ κ D) (level : Backend υ) : Handler υ Unit :=
  fun s => (.ok (), if server.undoesOverride ∧ s.topXid = level.topXid then
    { s with user := { s.user with userid := level.user.userid } } else s)

def executeDdlCommand (server : Server υ κ D) (cmdstr perpetrator : D) (txJustStarted : Bool) :
    Handler υ Unit := do
  let previous ← pushErrorContext .queuedCommandError
  let level ← get
  let commands ← stateless (server.parseQuery cmdstr)
  runCommands server perpetrator (commands.length = 1 && txJustStarted) commands
  popErrorContext .queuedCommandError previous
  atEOXactGuc server level

def processQueuedDdlCommand (server : Server υ κ D) (cmdtup : Row D) (txJustStarted : Bool) :
    Handler υ Unit := do
  let perpetrator ← queueColumn cmdtup 3
  let _commandTag ← queueColumn cmdtup 4
  let cmdstr ← queueColumn cmdtup 5
  executeDdlCommand server cmdstr perpetrator txJustStarted

def dropObjects (server : Server υ κ D) (objects : D) : Handler υ Unit := do
  stateless (server.objectAddresses objects)
  let previous ← pushErrorContext .queuedDropError
  stateless (server.performMultipleDeletions objects)
  popErrorContext .queuedDropError previous

def processQueuedDrop (server : Server υ κ D) (cmdtup : Row D) : Handler υ Unit :=
  match cmdtup[2]?.join with
  | some objects => dropObjects server objects
  | none => pure ()

def executeQueued (server : Server υ κ D) (cmdtup : Row D) (startedTx : Bool) :
    Queue → Handler υ Unit
  | .ddlCommands => processQueuedDdlCommand server cmdtup startedTx
  | .drops => processQueuedDrop server cmdtup

def commitNewTransaction (oldxid : ℕ) : Handler υ Unit :=
  fun s => (.ok (), if s.topXid ≠ oldxid then
    { s with snapshots := [], startedTransaction := false } else s)

def processQueue (cfg : Settings) (server : Server υ κ D) (table : OpenTable υ D)
    (startedTx : Bool) (newslot : Row D) : Handler υ Unit :=
  if cfg.skipDdlReplication then pure ()
  else
    match table.queue with
    | none => pure ()
    | some queue => do
      let before ← get
      executeQueued server newslot startedTx queue
      commitNewTransaction before.topXid

/-! ### The handlers -/

def lockFound : ℕ → Handler υ Unit
  | 0 => do
    pushActiveSnapshot .latest
    popActiveSnapshot
  | retries + 1 => do
    pushActiveSnapshot .latest
    popActiveSnapshot
    lockFound retries

/-- `pgactive_get_conflict_handlers`, the part of `pgactive_conflict_handlers_resolve` that
changes the frame. -/
def getConflictHandlers (table : OpenTable υ D) : Handler υ Unit :=
  if table.handlersCached then pure ()
  else do
    pushActiveSnapshot .transaction
    popActiveSnapshot

section Table

variable [DecidableEq D]

def findPkeyTuple (server : Server υ κ D) (ix : Index D) (key : List (Option D))
    (rows : List (StoredTuple ν D)) : Handler υ (Option (ℕ × StoredTuple ν D)) :=
  match ix.findPkeyTuple key rows with
  | none => pure none
  | some found => do
    let retries ← stateless (server.lockTuple ix)
    lockFound retries
    return some found

/-- The index loop of `process_remote_insert`. -/
def findConflict (server : Server υ κ D) (row : Row D) (rows : List (StoredTuple ν D))
    (conflictingTid : Option ℕ) : List (Index D) → Handler υ (Option (ℕ × StoredTuple ν D))
  | [] => pure none
  | ix :: rest =>
    if ¬ix.unique ∨ ix.expressions.length ≠ 0 then
      findConflict server row rows conflictingTid rest
    else do
      match ← findPkeyTuple server ix (ix.key row) rows with
      | none => findConflict server row rows conflictingTid rest
      | some found =>
        if conflictingTid.isSome ∧ conflictingTid ≠ some found.1 then
          throw (.apply .multipleUniqueConstraints)
        else return some found

variable [DecidableEq ν]

/-- `check_apply_update`. The handlers are looked up if the row comes from another node. -/
def checkApplyUpdate (ss : ApplySession ν) (handlers : Handlers D) (table : OpenTable υ D)
    (type : ConflictType) (localTuple : StoredTuple ν D) (remoteTuple : Row D) :
    Handler υ (Decision D) :=
  if localTuple.nodeId = some ss.origin then
    applied (Pgactive.checkApplyUpdate ss handlers type localTuple remoteTuple)
  else do
    getConflictHandlers table
    applied (Pgactive.checkApplyUpdate ss handlers type localTuple remoteTuple)

/-- What a handler has done, with the row in the slot for the new tuple. -/
structure Done (ν D : Type) where
  out : Applied ν D
  newslot : Row D

/-- The conflict branches of `process_remote_insert` and `process_remote_update`. -/
def resolveFound (ss : ApplySession ν) (handlers : Handlers D) (table : OpenTable υ D)
    (type : ConflictType) (tid : ℕ) (localTuple : StoredTuple ν D) (remoteTuple : Row D)
    (rows : List (StoredTuple ν D)) : Handler υ (Done ν D) := do
  let decision ← checkApplyUpdate ss handlers table type localTuple remoteTuple
  let conflict := if decision.logUpdate then
    some ⟨type, decision.resolution, some localTuple, remoteTuple⟩ else none
  if decision.performUpdate then
    let newslot := decision.newTuple.getD remoteTuple
    let rows ← applied (table.rel.updateTuple tid (ss.stored newslot) rows)
    return ⟨⟨rows, conflict⟩, newslot⟩
  else return ⟨⟨rows, conflict⟩, remoteTuple⟩

def insertOrResolve (ss : ApplySession ν) (handlers : Handlers D) (table : OpenTable υ D)
    (row : Row D) (rows : List (StoredTuple ν D)) :
    Option (ℕ × StoredTuple ν D) → Handler υ (Done ν D)
  | some (tid, localTuple) =>
    resolveFound ss handlers table .insertInsert tid localTuple row rows
  | none => do
    let rows ← applied (table.rel.insertTuple (ss.stored row) rows)
    return ⟨⟨rows, none⟩, row⟩

def processRemoteInsert (cfg : Settings) (server : Server υ κ D) (ss : ApplySession ν)
    (handlers : Handlers D) (table : Option (OpenTable υ D)) (new : List (ColumnData D))
    (rows : List (StoredTuple ν D)) : Handler υ (Applied ν D) := do
  let previous ← pushErrorContext .actionError
  let startedTx ← performingWork
  let table ← readRel table
  let ucxt ← switchToOwner cfg table.owner
  let newTuple ← applied (readTuple ss table.rel new)
  checkRelkind table
  let row := heapFormTuple newTuple
  let found ← findConflict server row rows none table.rel.indexes
  pushActiveSnapshot .transaction
  let done ← insertOrResolve ss handlers table row rows found
  popActiveSnapshot
  switchBack cfg ucxt
  processQueue cfg server table startedTx done.newslot
  popErrorContext .actionError previous
  return done.out

/-- `process_remote_update`, its branch for a missing row, once the handlers are known. -/
def updateMissing (ss : ApplySession ν) (handlers : Handlers D) (rel : Relation D)
    (remoteTuple : Row D) (rows : List (StoredTuple ν D)) : Except ApplyError (Applied ν D) :=
  let verdict := handlers .updateDelete none remoteTuple 0
  if verdict.skip then
    return ⟨rows, some ⟨.updateDelete, some .conflictTriggerSkipChange, none, remoteTuple⟩⟩
  else
    match verdict.tuple with
    | some user => do
      return ⟨← rel.insertTuple (ss.stored user) rows,
        some ⟨.updateDelete, some .conflictTriggerReturnedTuple, none, remoteTuple⟩⟩
    | none =>
      return ⟨rows, some ⟨.updateDelete, some .defaultSkipChange, none, remoteTuple⟩⟩

def deleteMissing (handlers : Handlers D) (remoteTuple : Row D) (rows : List (StoredTuple ν D)) :
    Except ApplyError (Applied ν D) :=
  let verdict := handlers .deleteDelete none remoteTuple 0
  if verdict.tuple.isSome then throw .deleteHandlerReturnedRow
  else
    return ⟨rows, some ⟨.deleteDelete, some (if verdict.skip then
      .conflictTriggerSkipChange else .defaultSkipChange), none, remoteTuple⟩⟩

def identityIndex (table : OpenTable υ D) : Handler υ (Index D) :=
  match table.rel.identityIndex with
  | some ix => pure ix
  | none => throw (.apply .noPrimaryKey)

def updateOrResolve (ss : ApplySession ν) (handlers : Handlers D) (table : OpenTable υ D)
    (newTuple : List (TuplePart D)) (rows : List (StoredTuple ν D)) :
    Option (ℕ × StoredTuple ν D) → Handler υ (Applied ν D)
  | some (tid, localTuple) => do
    let done ← resolveFound ss handlers table .updateUpdate tid localTuple
      (heapModifyTuple localTuple.values newTuple) rows
    return done.out
  | none => do
    getConflictHandlers table
    applied (updateMissing ss handlers table.rel (heapFormTuple newTuple) rows)

def processRemoteUpdate (cfg : Settings) (server : Server υ κ D) (ss : ApplySession ν)
    (handlers : Handlers D) (table : Option (OpenTable υ D)) (oldKey : Option (List (ColumnData D)))
    (new : List (ColumnData D)) (rows : List (StoredTuple ν D)) : Handler υ (Applied ν D) := do
  let previous ← pushErrorContext .actionError
  let _ ← performingWork
  let table ← readRel table
  let ucxt ← switchToOwner cfg table.owner
  let oldTuple ← applied (readOldTuple ss table.rel oldKey)
  checkRelkind table
  let newTuple ← applied (readTuple ss table.rel new)
  let ix ← identityIndex table
  pushActiveSnapshot .transaction
  let found ← findPkeyTuple server ix (ix.key (heapFormTuple (oldTuple.getD newTuple))) rows
  let out ← updateOrResolve ss handlers table newTuple rows found
  popActiveSnapshot
  switchBack cfg ucxt
  popErrorContext .actionError previous
  return out

def deleteOrReport (handlers : Handlers D) (table : OpenTable υ D) (remoteTuple : Row D)
    (rows : List (StoredTuple ν D)) : Option (ℕ × StoredTuple ν D) → Handler υ (Applied ν D)
  | some (tid, _) => return ⟨rows.eraseIdx tid, none⟩
  | none => do
    getConflictHandlers table
    applied (deleteMissing handlers remoteTuple rows)

/-- `process_remote_delete`. The branch for a delete without a key leaves its callback on the
stack. -/
def processRemoteDelete (cfg : Settings) (server : Server υ κ D) (ss : ApplySession ν)
    (handlers : Handlers D) (table : Option (OpenTable υ D)) (oldKey : Option (List (ColumnData D)))
    (rows : List (StoredTuple ν D)) : Handler υ (Applied ν D) := do
  let previous ← pushErrorContext .actionError
  let _ ← performingWork
  let table ← readRel table
  let ucxt ← switchToOwner cfg table.owner
  match oldKey with
  | none => do
    switchBack cfg ucxt
    return ⟨rows, none⟩
  | some cols => do
    let oldTuple ← applied (readTuple ss table.rel cols)
    let ix ← identityIndex table
    checkRelkind table
    pushActiveSnapshot .transaction
    let remoteTuple := heapFormTuple oldTuple
    let found ← findPkeyTuple server ix (ix.key remoteTuple) rows
    let out ← deleteOrReport handlers table remoteTuple rows found
    popActiveSnapshot
    switchBack cfg ucxt
    popErrorContext .actionError previous
    return out

def processRemoteChange (cfg : Settings) (server : Server υ κ D) (ss : ApplySession ν)
    (handlers : Handlers D) (table : Option (OpenTable υ D)) (msg : ChangeMessage D)
    (rows : List (StoredTuple ν D)) : Handler υ (Applied ν D) :=
  match msg with
  | .insert new => processRemoteInsert cfg server ss handlers table new rows
  | .update old new => processRemoteUpdate cfg server ss handlers table old new rows
  | .delete old => processRemoteDelete cfg server ss handlers table old rows

end Table

end Pgactive.ApplyFrame
