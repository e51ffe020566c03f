import Pgactive.FallibleState
import Pgactive.Ddl.Statements

/-!
# The command filter and the queue of replicated commands

`pgactive_commandfilter` queues a DDL command, unless it runs inside another one, and hands it on to
`standard_ProcessUtility`, which may enter the filter again. A `TRUNCATE` is queued at its end, as a
list of tables that triggers add to. What a command does is arbitrary here; the parts that come back
to the extension are the nodes of `Work`.
-/

namespace Pgactive.Ddl

open FallibleState
open Pgactive.Locks (LockType)

/-- The column `command_tag` of a queued command. -/
inductive QueuedTag
  | command (name : String)
  | sql
  | truncate
deriving DecidableEq

/-- A row of `pgactive.pgactive_queued_commands`. -/
structure Row where
  commandTag : QueuedTag
  command : String
  searchPath : String
deriving DecidableEq

/-- The variables of a session that outlive a call, and the rows that its transaction has
queued. -/
structure Session where
  ddlNestlevel : ℤ
  inExtension : Bool
  /-- `in_pgactive_replicate_ddl_command`. -/
  inReplicateDdlCommand : Bool
  truncatedTables : List Oid
  queuedCommands : List Row
deriving DecidableEq

def Session.fresh : Session where
  ddlNestlevel := 0
  inExtension := false
  inReplicateDdlCommand := false
  truncatedTables := []
  queuedCommands := []

inductive ProcessUtilityContext
  | toplevel
  | query
  | queryNonatomic
  | subcommand
deriving DecidableEq

/-- The arguments of `pgactive_commandfilter`, with what it reads of the server. -/
structure Call where
  env : Env
  stmt : Stmt
  /-- `GetCommandTagName(CreateCommandTag(parsetree))`. -/
  tag : String
  queryString : String
  context : ProcessUtilityContext

/-- The first switch: the function that returns the node identifier is not touched, except by the
extension itself, which goes on at the label `done`. -/
def checkNidGetter (env : Env) : Stmt → Except FilterError Bool
  | .createFunction nidGetter =>
    if nidGetter then (if env.permitsNidGetter then .ok true else .error .createNidGetter)
    else .ok false
  | .drop stmt =>
    if stmt.nidGetter then (if env.permitsNidGetter then .ok true else .error .dropNidGetter)
    else do
      if env.activated then preventDropExtensionPgactive env stmt else pure ()
      pure false
  | .alterFunction nidGetter | .alterOwner nidGetter =>
    if nidGetter then (if env.permitsNidGetter then .ok true else .error .alterNidGetter)
    else .ok false
  | .rename stmt =>
    if stmt.nidGetter then (if env.permitsNidGetter then .ok true else .error .alterNidGetter)
    else .ok false
  | _ => .ok false

/-- The type of the global lock for a statement of which only the tag matters, and `none` if it
goes on at the label `done`. -/
def NodeTag.lockType (env : Env) (tag : String) : NodeTag → Except FilterError (Option LockType)
  -- purely local commands
  | .planned | .closePortal | .fetch | .prepare | .deallocate | .notify | .listen | .unlisten
  | .load | .explain | .variableSet | .variableShow | .discard | .lock | .constraintsSet
  | .checkPoint | .reindex | .vacuum | .cluster | .doStmt | .createTableSpace | .dropTableSpace
  | .alterTableSpaceOptions | .alterDatabase | .alterDatabaseSet | .createEventTrig
  | .alterEventTrig => .ok none
  -- queued by the truncate triggers
  | .truncate => .ok none
  | .execute | .grantRole | .alterSystem | .createRole | .alterRole | .alterRoleSet | .dropRole
  | .declareCursor => .ok none
  | .createSchema | .createForeignTable | .createPublication | .alterPublication
  | .compositeType | .createEnum | .createRange | .view | .createDomain
  | .alterDefaultPrivileges => .ok (some .ddl)
  | .alterDomain | .alterExtension | .alterExtensionContents | .createSubscription
  | .alterSubscription | .dropSubscription | .createFdw | .alterFdw | .refreshMatView
  | .createPLang | .createConversion | .createCast | .createOpClass | .createOpFamily
  | .alterOpFamily | .alterTSDictionary | .alterTSConfiguration | .alterObjectSchema
  | .dropOwned => do
    errorUnsupportedCommand env tag
    pure (some .write)
  | .createForeignServer | .alterForeignServer | .createUserMapping | .alterUserMapping
  | .dropUserMapping => .ok none
  | .alterEnum | .rule | .createSeq | .alterSeq | .createTrig | .grant => .ok (some .write)
  | .comment | .reassignOwned => .ok (some .nolock)
  | .alterTableMoveAll | .other =>
    if env.skipDdlReplication then .ok (some .write) else .error .unrecognizedNode

variable (c : Call)

/-- The switches from the commands that are skipped to the ones of `ProcessUtilitySlow()`. -/
def Call.lockType (inReplicateDdlCommand : Bool) : Except FilterError (Option LockType) := do
  match c.stmt with
  | .createFunction _ => pure (some .ddl)
  | .drop stmt =>
    preventDropExtensionPgactive c.env stmt
    if stmt.removeType = .index && stmt.concurrent && !c.env.skipDdlReplication then
      if inReplicateDdlCommand then throw .dropIndexConcurrently
      else if ← statementAffectsOnlyNonpermanent c.env c.stmt then pure ()
      else throw .dropIndexConcurrentlyWithoutSkip
    else pure ()
    if stmt.removeType = .foreignServer then pure none else pure (some .write)
  | .alterFunction _ => pure (some .write)
  | .alterOwner _ => pure (some .ddl)
  | .rename stmt =>
    match stmt.renameType with
    | .database =>
      commandfilterDbname c.env stmt.subname
      commandfilterDbname c.env stmt.newname
      pure none
    | .aggregate | .collation | .conversion | .opclass | .opfamily =>
      errorUnsupportedCommand c.env c.tag
      pure (some .write)
    | _ => pure (some .write)
  | .createdb dbname | .dropdb dbname =>
    commandfilterDbname c.env dbname
    pure none
  | .create stmt =>
    filterCreateStmt c.env stmt
    pure (some .ddl)
  | .alterTable stmt => pure (some (← filterAlterTableStmt c.env stmt .write))
  | .createTableAs rel =>
    filterCreateTableAs c.env rel c.tag
    pure (some .write)
  | .define kind =>
    match kind with
    | .aggregate | .operator | .type => pure (some .ddl)
    | _ =>
      errorUnsupportedCommand c.env c.tag
      pure (some .ddl)
  | .index stmt =>
    if stmt.concurrent && !c.env.skipDdlReplication then
      if inReplicateDdlCommand then throw .createIndexConcurrently
      else
        let cmdtag := "CREATE INDEX CONCURRENTLY without pgactive.skip_ddl_replication set"
        errorOnPersistentRv c.env stmt.relation cmdtag false
    else pure ()
    if stmt.hasWhereClause && stmt.unique && !c.env.skipDdlReplication then
      errorOnPersistentRv c.env stmt.relation "CREATE UNIQUE INDEX ... WHERE" false
    else pure ()
    if !stmt.unique && stmt.concurrent then pure (some .ddl) else pure (some .write)
  | .createExtension extname =>
    preventDisallowedExtensionCreation extname
    pure (some .write)
  | .secLabel provider =>
    if provider.isNone || provider = some "pgactive" then pure (some .write)
    else
      errorUnsupportedCommand c.env c.tag
      pure (some .write)
  | .transaction _ | .copy _ => pure none
  | .plain nodeTag => nodeTag.lockType c.env c.tag

/-- How a command goes on after the checks. -/
inductive Route
  /-- DDL replication is disabled: the filter hands the command on and returns. -/
  | passOn
  /-- The command goes on at the label `done`. -/
  | done
  /-- The command takes the global lock and may be captured. -/
  | filtered (lockType : LockType)

def Stmt.isVacuum : Stmt → Bool
  | .plain .vacuum => true
  | _ => false

def Stmt.isTruncate : Stmt → Bool
  | .plain .truncate => true
  | _ => false

def Stmt.isExtension : Stmt → Bool
  | .drop stmt => stmt.removeType = .extension
  | .createExtension _ | .plain .alterExtension | .plain .alterExtensionContents => true
  | _ => false

def Call.checkReadOnly : Except FilterError Unit :=
  if c.env.localNodeReadOnly && !c.env.skipDdlReplication then do
    let (allowed, tag) ← allowedOnReadOnlyNode c.env c.tag c.stmt
    if allowed then pure () else throw (.readOnlyNode tag)
  else .ok ()

def Call.filter (inReplicateDdlCommand : Bool) : Except FilterError Route := do
  match c.stmt with
  | .transaction kind =>
    if inReplicateDdlCommand && kind ≠ .other then throw .transactionControl else pure .done
  | _ =>
    if !c.env.activated then pure .done
    else
      c.checkReadOnly
      match ← c.lockType inReplicateDdlCommand with
      | none => pure .done
      | some lockType => pure (.filtered lockType)

def Call.route (s : Session) : Except FilterError Route := do
  if ← checkNidGetter c.env c.stmt then pure .done
  else if c.env.skipDdlReplication then pure .passOn
  else if !c.env.isUnderPostmaster then pure .done
  else if c.env.inSupervisorDb && !c.stmt.isVacuum then throw .supervisorDatabase
  -- the contents of an extension are not replicated one by one
  else if c.env.creatingExtension || s.inExtension then pure .done
  else if c.env.replaying then pure .done
  else c.filter s.inReplicateDdlCommand

def Env.queueDdlCommand (env : Env) (row : Row) (s : Session) : Except FilterError Session :=
  match env.queueError with
  | some message => .error (.server message)
  | none => .ok { s with queuedCommands := s.queuedCommands ++ [row] }

/-- The search path that is queued with a command. The source never sets `first` to false, so that
no comma is written. -/
def Env.capturedSearchPath (env : Env) : String :=
  let first := true
  env.searchPath.foldl (fun si nspid =>
    if env.isSystemNamespace nspid then si
    else (if first then si else si ++ ",") ++ env.quoteIdentifier (env.namespaceName nspid)) ""

/-- What `pgactive_capture_ddl` queues. -/
def Call.row : Row where
  commandTag := .command c.tag
  command := c.queryString
  searchPath := c.env.capturedSearchPath

def Call.captureDdl (s : Session) : Except FilterError Session :=
  if s.inReplicateDdlCommand then .ok s
  else if c.env.replaying then .ok s
  else if c.env.skipDdlReplication then .ok s
  else c.env.queueDdlCommand c.row s

def Env.acquireDdlLock (env : Env) (lockType : LockType) : Except FilterError Unit :=
  match env.ddlLockError lockType with
  | some message => .error (.server message)
  | none => .ok ()

/-- Captures the command unless it is nested. The first component is `incremented_nestlevel`. -/
def Call.captureOutermost (affectsOnlyNonpermanent : Bool) (s : Session) :
    Except FilterError (Bool × Session) := do
  if !affectsOnlyNonpermanent && !c.env.skipDdlReplication && !s.inExtension &&
      !s.inReplicateDdlCommand && s.ddlNestlevel = 0 then
    if c.context ≠ .toplevel then throw (.ddlInFunction c.tag c.queryString)
    else
      let captured ← c.captureDdl s
      pure (true, { captured with ddlNestlevel := captured.ddlNestlevel + 1 })
  else pure (false, s)

def Call.capture (lockType : LockType) (s : Session) : Except FilterError (Bool × Session) := do
  let affectsOnlyNonpermanent ← statementAffectsOnlyNonpermanent c.env c.stmt
  let locks := !c.env.skipDdlReplication && !affectsOnlyNonpermanent && lockType ≠ .nolock
  (if locks then c.env.acquireDdlLock lockType else pure ())
  c.captureOutermost affectsOnlyNonpermanent s

/-- The local variables of the filter that say what it has to take back. -/
structure Frame where
  incrementedNestlevel : Bool
  enteredExtension : Bool

/-- The switch after the label `done`, with `pgactive_start_truncate`. -/
def Call.mark (incrementedNestlevel : Bool) (s : Session) : Frame × Session :=
  if c.stmt.isTruncate then (⟨incrementedNestlevel, false⟩, { s with truncatedTables := [] })
  else if c.stmt.isExtension && !s.inExtension then
    (⟨incrementedNestlevel, true⟩, { s with inExtension := true })
  else (⟨incrementedNestlevel, false⟩, s)

/-- The filter up to `PG_TRY`. It has no effect when it fails, and there is no frame when the
command is only handed on. -/
def Call.enter (s : Session) : Except FilterError (Option (Frame × Session)) := do
  match ← c.route s with
  | .passOn => pure none
  | .done => pure (some (c.mark false s))
  | .filtered lockType =>
    let (incrementedNestlevel, entered) ← c.capture lockType s
    pure (some (c.mark incrementedNestlevel entered))

/-- What `PG_CATCH` and the end of the filter take back. -/
def Frame.leave (frame : Frame) (s : Session) : Session :=
  { s with
    ddlNestlevel := if frame.incrementedNestlevel then s.ddlNestlevel - 1 else s.ddlNestlevel
    inExtension := if frame.enteredExtension then false else s.inExtension }

/-- What `pgactive_finish_truncate` queues. -/
def Env.truncateRow (env : Env) (tables : List Oid) : Row where
  commandTag := .truncate
  command := "TRUNCATE TABLE ONLY " ++ String.intercalate ", " (tables.map env.qualifiedName)
  searchPath := ""

def Env.finishTruncate (env : Env) (s : Session) : Except FilterError Session :=
  if s.truncatedTables = [] then .ok s
  else do
    let queued ← env.queueDdlCommand (env.truncateRow s.truncatedTables) s
    pure { queued with truncatedTables := [] }

/-- After `PG_END_TRY`, so that an error here takes nothing back. -/
def Call.finish : Fallible FilterError Session Unit :=
  if c.stmt.isTruncate then attempt c.env.finishTruncate else pure ()

/-- `pgactive_commandfilter`. The argument is the next hook or `standard_ProcessUtility`, applied
to the command. -/
def commandfilter (processUtility : Fallible FilterError Session Unit) :
    Fallible FilterError Session Unit := fun s =>
  match c.enter s with
  | .error e => (.error e, s)
  | .ok none => processUtility s
  | .ok (some (frame, entered)) =>
    (do
      onError processUtility frame.leave
      c.finish
      modify frame.leave) entered

def Env.queueTruncate (env : Env) (relid : Oid) (s : Session) : Session :=
  if s.inReplicateDdlCommand then s
  else if env.replaying then s
  else
    let tables := if env.skipDdlReplication && s.truncatedTables ≠ [] then [] else s.truncatedTables
    { s with truncatedTables := tables ++ [relid] }

def Session.setInReplicate (flag : Bool) (s : Session) : Session :=
  { s with inReplicateDdlCommand := flag }

def replicateDdlCommand (env : Env) (query : String)
    (executeDdlCommand : Fallible FilterError Session Unit) : Fallible FilterError Session Unit :=
  if env.skipDdlReplication then throw .replicateRejected
  else do
    modify (Session.setInReplicate true)
    onError
      (do
        attempt (env.queueDdlCommand ⟨.sql, query, ""⟩)
        executeDdlCommand)
      (Session.setInReplicate false)
    modify (Session.setInReplicate false)

/-- What is done to execute a command, as far as it comes back to the extension: a tree of utility
commands, with everything else that reads or changes the variables of the session. -/
inductive Work
  | done
  | raise (message : String)
  /-- A utility command is executed, and `body` is what is done for it. -/
  | command (c : Call) (body next : Work)
  | truncateTrigger (env : Env) (relid : Oid) (next : Work)
  | subtransaction (body next : Work)
  /-- A call of `pgactive_replicate_ddl_command`, and `body` is what the query does. -/
  | replicate (env : Env) (query : String) (body next : Work)

/-- An aborted subtransaction takes its rows with it. The variables stay as they are. -/
def Session.abort (before after : Session) : Session :=
  { after with queuedCommands := before.queuedCommands }

def Work.run : Work → Fallible FilterError Session Unit
  | .done => pure ()
  | .raise message => throw (.server message)
  | .command c body next => do
    commandfilter c body.run
    next.run
  | .truncateTrigger env relid next => do
    modify (env.queueTruncate relid)
    next.run
  | .subtransaction body next => do
    caught body.run Session.abort
    next.run
  | .replicate env query body next => do
    replicateDdlCommand env query body.run
    next.run

end Pgactive.Ddl
