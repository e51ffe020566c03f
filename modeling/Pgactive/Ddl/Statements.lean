import Pgactive.Locks.State

/-!
# Utility statements and what the command filter checks of them

The parse trees with the fields that `pgactive_commandfilter` reads, and its checks: which
statements are refused, which only touch temporary or unlogged relations, and how strong a lock an
`ALTER TABLE` takes. The parts for PostgreSQL 13 and later are modelled.
-/

namespace Pgactive.Ddl

open Pgactive.Locks (LockType)

/-- An object identifier. `InvalidOid` is `none` where it can occur. -/
abbrev Oid := ℕ

inductive Persistence
  | temp
  | unlogged
  | permanent
deriving DecidableEq

def ispermanent (persistence : Persistence) : Bool := persistence = .permanent

structure RangeVar where
  schemaname : Option String
  relname : String
  relpersistence : Persistence

/-- `ObjectType`, as far as the filter tells the types apart. -/
inductive ObjectType
  | aggregate | collation | conversion | database | extension | foreignServer | foreignTable
  | index | matview | opclass | operator | opfamily | sequence | table | type | view
  | other
deriving DecidableEq

inductive ConstrType
  | default
  | exclusion
  | other
deriving DecidableEq

/-- `DefElem` in the `WITH` list of a table, with what `defGetBoolean` makes of its value. -/
structure DefElem where
  defnamespace : Option String
  defname : String
  value : Bool

/-- `CreateStmt`. Of a table element that is not a constraint nothing is read. -/
structure CreateStmt where
  relation : RangeVar
  ofTypename : Option String
  options : List DefElem
  tableElts : List (Option ConstrType)

/-- `AlterTableType`, without the types whose definition the filter looks into. -/
inductive AlterTableType
  | dropColumn | dropNotNull | setNotNull | columnDefault | clusterOn | dropCluster | changeOwner
  | setStorage
  | setRelOptions | resetRelOptions | replaceRelOptions | replicaIdentity | dropConstraint
  | setTableSpace
  | validateConstraint
  | alterConstraint | addIndexConstraint | alterColumnType | alterColumnGenericOptions | dropOids
  | enableTrig | disableTrig | enableTrigUser | disableTrigUser
  | enableAlwaysTrig | enableReplicaTrig | enableTrigAll | disableTrigAll
  | enableRule | enableAlwaysRule | enableReplicaRule | disableRule
  | addInherit | dropInherit
  | addOf | dropOf
  | setStatistics
  | setOptions | resetOptions
  | genericOptions
  | other
deriving DecidableEq

/-- `AlterTableCmd`. The source falls through from the case of a new column to the one of an index
and reads the column definition as an `IndexStmt`; `excludeWord` is whether the word it finds in
the place of `excludeOpNames` is not null. -/
inductive AlterTableCmd
  | addColumn (hasDefault : Bool) (constraints : List ConstrType) (excludeWord : Bool)
  | addIndex (excludeOpNames : Bool)
  | addConstraint (contype : Option ConstrType)
  | plain (subtype : AlterTableType)

/-- `AlterTableStmt`, with the subcommands that `transformAlterTableStmt` makes of it. -/
structure AlterTableStmt where
  relation : RangeVar
  missingOk : Bool
  cmds : List AlterTableCmd

structure IndexStmt where
  relation : RangeVar
  concurrent : Bool
  unique : Bool
  hasWhereClause : Bool

/-- `DropStmt`. The name of an extension has no schema. Whether one of the objects is the function
that returns the node identifier is `is_pgactive_nid_getter_function_drop`. -/
structure DropStmt where
  removeType : ObjectType
  concurrent : Bool
  missingOk : Bool
  objects : List RangeVar
  nidGetter : Bool

/-- `RenameStmt`. Whether the object is the function that returns the node identifier is
`is_pgactive_nid_getter_function_alter_rename`. -/
structure RenameStmt where
  renameType : ObjectType
  subname : String
  newname : String
  nidGetter : Bool

inductive TransactionStmtKind
  | commit
  | rollback
  | prepare
  /-- `BEGIN`, savepoints and the like. -/
  | other
deriving DecidableEq

/-- The node tags of statements of which nothing but the tag is read. -/
inductive NodeTag
  | planned | closePortal | fetch | prepare | deallocate | notify | listen | unlisten | load
  | explain | variableSet | variableShow | discard | lock | constraintsSet | checkPoint | reindex
  | vacuum | cluster
  | doStmt
  | createTableSpace | dropTableSpace | alterTableSpaceOptions
  | alterDatabase | alterDatabaseSet | createEventTrig | alterEventTrig
  | truncate
  | execute
  | grantRole | alterSystem | createRole | alterRole | alterRoleSet | dropRole
  | declareCursor
  | createSchema | createForeignTable | alterDomain | alterExtension | alterExtensionContents
  | createSubscription | alterSubscription | dropSubscription
  | createPublication | alterPublication
  | createFdw | alterFdw
  | createForeignServer | alterForeignServer | createUserMapping | alterUserMapping
  | dropUserMapping
  | compositeType | createEnum | createRange | view
  | alterEnum | rule | createSeq | alterSeq | refreshMatView | createTrig | createPLang
  | createDomain | createConversion | createCast | createOpClass | createOpFamily | alterOpFamily
  | alterTSDictionary | alterTSConfiguration | alterObjectSchema | dropOwned
  | alterDefaultPrivileges | comment | reassignOwned | grant | alterTableMoveAll
  | other
deriving DecidableEq

/-- The statement that `pstmt->utilityStmt` points to. -/
inductive Stmt
  /-- The flag is `is_pgactive_nid_getter_function_create`. -/
  | createFunction (nidGetter : Bool)
  | drop (stmt : DropStmt)
  /-- The flag is `is_pgactive_nid_getter_function_alter`. -/
  | alterFunction (nidGetter : Bool)
  /-- The flag is `is_pgactive_nid_getter_function_alter_owner`. -/
  | alterOwner (nidGetter : Bool)
  | rename (stmt : RenameStmt)
  | transaction (kind : TransactionStmtKind)
  | createdb (dbname : String)
  | dropdb (dbname : String)
  | create (stmt : CreateStmt)
  | alterTable (stmt : AlterTableStmt)
  | createTableAs (rel : RangeVar)
  | define (kind : ObjectType)
  | index (stmt : IndexStmt)
  | createExtension (extname : String)
  | secLabel (provider : Option String)
  | copy (isFrom : Bool)
  | plain (tag : NodeTag)

/-- What ends a command with an error. -/
inductive FilterError
  | createNidGetter
  | dropNidGetter
  | alterNidGetter
  | dropPgactive
  | supervisorDatabase
  | transactionControl
  | readOnlyNode (tag : String)
  | reservedName
  | unsupportedCommand (cmdtag : String)
  | createTableWithOids
  | excludeConstraint
  | regularTable (cmdtag relname : String)
  | createIndexConcurrently
  | dropIndexConcurrently
  | dropIndexConcurrentlyWithoutSkip
  | externalReplication
  | unrecognizedNode
  | ddlInFunction (tag queryString : String)
  | replicateRejected
  /-- An error that PostgreSQL or the lock protocol raises. -/
  | server (message : String)
deriving DecidableEq

def supervisorDbname : String := "pgactive_supervisordb"

/-- What the code reads of the server and the session when it is called: settings, catalogs and
whether the calls that may fail do. It can be different at the next call. -/
structure Env where
  skipDdlReplication : Bool
  /-- `is_pgactive_creating_nid_getter_function()` or
  `pgactive_permit_node_identifier_getter_function_creation`. -/
  permitsNidGetter : Bool
  isUnderPostmaster : Bool
  /-- `pgactiveSupervisorDbOid` is valid and `MyDatabaseId`. -/
  inSupervisorDb : Bool
  creatingExtension : Bool
  /-- `replorigin_session_origin` is set: the session replays changes of another node. -/
  replaying : Bool
  /-- `pgactive_is_pgactive_activated_db(MyDatabaseId)`. -/
  activated : Bool
  localNodeReadOnly : Bool
  /-- `RangeVarGetRelid`. -/
  relid : RangeVar → Option Oid
  /-- `rd_rel->relpersistence`. -/
  persistence : Oid → Persistence
  /-- `index_open` accepts the relation. -/
  isIndex : Oid → Bool
  /-- `RelationNeedsWAL`. -/
  needsWal : Oid → Bool
  extensionOid : String → Option Oid
  /-- `LookupExplicitNamespace("pg_temp", true)`. -/
  tempNamespace : Option Oid
  /-- `fetch_search_path(true)`. -/
  searchPath : List Oid
  relnameRelid : String → Oid → Option Oid
  /-- `IsCatalogNamespace`, `IsToastNamespace` or `isTempOrTempToastNamespace`. -/
  isSystemNamespace : Oid → Bool
  namespaceName : Oid → String
  quoteIdentifier : String → String
  /-- The schema and the name of a relation, as `quote_qualified_identifier` writes them. -/
  qualifiedName : Oid → String
  /-- The error of `pgactive_acquire_ddl_lock`, if it ends with one. -/
  ddlLockError : LockType → Option String
  /-- The error of the insertion into `pgactive.pgactive_queued_commands`, if it ends with one. -/
  queueError : Option String

/-- `pg_strcasecmp` and `pg_strncasecmp` compare the characters in lower case. -/
def lower (chars : List Char) : List Char := chars.map Char.toLower

/-- `RangeVarGetRelid` and `table_openrv_extended`: a relation that is missing is an error unless
the caller allows it. -/
def Env.lookup (env : Env) (rv : RangeVar) (missingOk : Bool) : Except FilterError (Option Oid) :=
  match env.relid rv with
  | some relid => .ok (some relid)
  | none =>
    if missingOk then .ok none
    else .error (.server ("relation \"" ++ rv.relname ++ "\" does not exist"))

def Env.getExtensionOid (env : Env) (extname : String) : Except FilterError Oid :=
  match env.extensionOid extname with
  | some oid => .ok oid
  | none => .error (.server ("extension \"" ++ extname ++ "\" does not exist"))

def errorOnPersistentRv (env : Env) (rv : RangeVar) (cmdtag : String) (missingOk : Bool) :
    Except FilterError Unit := do
  match ← env.lookup rv missingOk with
  | some relid => if env.needsWal relid then throw (.regularTable cmdtag rv.relname) else pure ()
  | none => pure ()

def errorUnsupportedCommand (env : Env) (cmdtag : String) : Except FilterError Unit :=
  if env.skipDdlReplication then .ok () else .error (.unsupportedCommand cmdtag)

def withOids (options : List DefElem) : Bool :=
  options.foldl (fun withOids element =>
    if element.defnamespace.isNone && lower element.defname.toList = "oids".toList
    then element.value else withOids) false

def filterCreateStmt (env : Env) (stmt : CreateStmt) : Except FilterError Unit :=
  if env.skipDdlReplication then .ok ()
  else do
    if stmt.ofTypename.isSome then errorUnsupportedCommand env "CREATE TABLE ... OF TYPE"
    else pure ()
    if withOids stmt.options then throw .createTableWithOids
    else if stmt.tableElts.contains (some .exclusion) && ispermanent stmt.relation.relpersistence
    then throw .excludeConstraint
    else pure ()

/-- The body of the loop over the subcommands of an `ALTER TABLE`. It carries `*lock_type` and
`hasInvalid`; `persistent` is `error_on_persistent_rv` for the table. -/
def AlterTableCmd.filter (persistent : String → Except FilterError Unit) :
    LockType × Bool → AlterTableCmd → Except FilterError (LockType × Bool)
  | (_, hasInvalid), .addColumn hasDefault constraints excludeWord => do
    if hasDefault || constraints.contains .default
    then persistent "ALTER TABLE ... ADD COLUMN ... DEFAULT" else pure ()
    if excludeWord then persistent "ALTER TABLE ... ADD CONSTRAINT ... EXCLUDE" else pure ()
    pure (.ddl, hasInvalid)
  | (_, hasInvalid), .addIndex excludeOpNames => do
    if excludeOpNames then persistent "ALTER TABLE ... ADD CONSTRAINT ... EXCLUDE" else pure ()
    pure (.ddl, hasInvalid)
  | (lockType, hasInvalid), .addConstraint contype => do
    if contype = some .exclusion
    then persistent "ALTER TABLE ... ADD CONSTRAINT ... EXCLUDE" else pure ()
    pure (lockType, hasInvalid)
  | (lockType, hasInvalid), .plain subtype =>
    match subtype with
    | .dropColumn | .dropNotNull | .setNotNull | .columnDefault | .clusterOn | .dropCluster
    | .changeOwner | .setStorage => pure (.ddl, hasInvalid)
    | .setRelOptions | .resetRelOptions | .replaceRelOptions | .replicaIdentity
    | .dropConstraint | .setTableSpace => pure (lockType, hasInvalid)
    | .validateConstraint => pure (.ddl, hasInvalid)
    | .alterConstraint => do
      persistent "ALTER TABLE ... ALTER CONSTRAINT"
      pure (lockType, hasInvalid)
    | .addIndexConstraint => do
      persistent "ALTER TABLE ... ADD CONSTRAINT USING INDEX"
      pure (lockType, hasInvalid)
    | .alterColumnType => do
      persistent "ALTER TABLE ... ALTER COLUMN TYPE"
      pure (lockType, hasInvalid)
    | .alterColumnGenericOptions => do
      persistent "ALTER TABLE ... ALTER COLUMN OPTIONS"
      pure (lockType, hasInvalid)
    | .dropOids => do
      persistent "ALTER TABLE ... SET WITH[OUT] OIDS"
      pure (lockType, hasInvalid)
    | .enableTrig | .disableTrig | .enableTrigUser | .disableTrigUser => pure (.ddl, hasInvalid)
    | .enableAlwaysTrig | .enableReplicaTrig | .enableTrigAll | .disableTrigAll =>
      pure (lockType, hasInvalid)
    | .enableRule | .enableAlwaysRule | .enableReplicaRule | .disableRule => do
      persistent "ALTER TABLE ... ENABLE|DISABLE [ALWAYS|REPLICA] RULE"
      pure (lockType, hasInvalid)
    | .addInherit | .dropInherit => do
      persistent "ALTER TABLE ... [NO] INHERIT"
      pure (lockType, hasInvalid)
    | .addOf | .dropOf => do
      persistent "ALTER TABLE ... [NOT] OF"
      pure (lockType, hasInvalid)
    | .setStatistics => pure (lockType, hasInvalid)
    | .setOptions | .resetOptions => do
      persistent "ALTER TABLE ... ALTER COLUMN ... SET STATISTICS|(...)"
      pure (lockType, hasInvalid)
    | .genericOptions => do
      persistent "ALTER TABLE ... SET (...)"
      pure (lockType, hasInvalid)
    | .other => pure (lockType, true)

def filterAlterTableStmt (env : Env) (stmt : AlterTableStmt) (lockType : LockType) :
    Except FilterError LockType :=
  if env.skipDdlReplication then .ok lockType
  else do
    let _ ← env.lookup stmt.relation stmt.missingOk
    let persistent := fun cmdtag => errorOnPersistentRv env stmt.relation cmdtag stmt.missingOk
    let (lockType, hasInvalid) ←
      stmt.cmds.foldlM (AlterTableCmd.filter persistent) (lockType, false)
    if hasInvalid then persistent "This variant of ALTER TABLE" else pure ()
    pure lockType

def filterCreateTableAs (env : Env) (rel : RangeVar) (tag : String) : Except FilterError Unit :=
  if env.skipDdlReplication then .ok ()
  else if ispermanent rel.relpersistence then errorUnsupportedCommand env tag else .ok ()

/-- A name without a schema is found in the temporary schema of the session. The source loops over
the search path, but each way through the body of the loop leaves it. -/
def Env.foundTempRel (env : Env) (rv : RangeVar) (relid : Oid) : Bool :=
  match env.tempNamespace, env.searchPath with
  | some temp, first :: _ => first = temp && env.relnameRelid rv.relname temp = some relid
  | _, _ => false

def dropsOnlyNonpermanent (env : Env) (stmt : DropStmt) : List RangeVar → Except FilterError Bool
  | [] => .ok true
  | rv :: rest => do
    match ← env.lookup rv stmt.missingOk with
    | none => dropsOnlyNonpermanent env stmt rest
    | some relid =>
      if rv.schemaname.isNone && !env.foundTempRel rv relid then pure false
      else if stmt.removeType = .index && !env.isIndex relid
      then throw (.server ("\"" ++ rv.relname ++ "\" is not an index"))
      else if ispermanent (env.persistence relid) then pure false
      else dropsOnlyNonpermanent env stmt rest

def statementAffectsOnlyNonpermanent (env : Env) : Stmt → Except FilterError Bool
  | .createTableAs rel => .ok (!ispermanent rel.relpersistence)
  | .create stmt => .ok (!ispermanent stmt.relation.relpersistence)
  | .drop stmt =>
    if stmt.concurrent then .ok false
    else
      match stmt.removeType with
      | .index | .table | .sequence | .view | .matview | .foreignTable =>
        dropsOnlyNonpermanent env stmt stmt.objects
      | _ => .ok false
  | .index stmt => .ok (!ispermanent stmt.relation.relpersistence)
  | _ => .ok false

/-- The tags in the list of `allowed_on_read_only_node`. -/
def NodeTag.writes : NodeTag → Bool
  | .alterDatabase | .alterDatabaseSet | .alterDomain | .alterRole | .alterRoleSet
  | .alterObjectSchema | .alterSeq | .alterTableMoveAll | .comment | .createCast
  | .createEventTrig | .alterEventTrig | .createConversion | .createDomain | .createRole
  | .createPLang | .createOpClass | .createOpFamily | .alterOpFamily | .rule | .createSchema
  | .createSeq | .refreshMatView | .createTableSpace | .createTrig | .compositeType | .createEnum
  | .createRange | .alterEnum | .view | .dropTableSpace | .dropRole | .grant | .grantRole
  | .alterDefaultPrivileges | .truncate | .dropOwned | .reassignOwned | .alterTSDictionary
  | .alterTSConfiguration | .alterExtension | .alterExtensionContents | .createFdw | .alterFdw
  | .createForeignServer | .alterForeignServer | .createUserMapping | .alterUserMapping
  | .dropUserMapping | .alterTableSpaceOptions | .createForeignTable => true
  | _ => false

def allowedOnReadOnlyNode (env : Env) (tag : String) (stmt : Stmt) :
    Except FilterError (Bool × String) := do
  match stmt with
  | .transaction _ => pure (true, tag)
  | .copy isFrom =>
    if isFrom then pure (← statementAffectsOnlyNonpermanent env stmt, "COPY FROM")
    else pure (true, "COPY FROM")
  | .plain nodeTag =>
    if nodeTag.writes then pure (← statementAffectsOnlyNonpermanent env stmt, tag)
    else pure (true, tag)
  | _ => pure (← statementAffectsOnlyNonpermanent env stmt, tag)

def commandfilterDbname (env : Env) (dbname : String) : Except FilterError Unit :=
  if env.skipDdlReplication then .ok ()
  else if dbname = supervisorDbname then .error .reservedName
  else .ok ()

def dropsExtension (env : Env) (pgactiveOid : Oid) : List RangeVar → Except FilterError Unit
  | [] => .ok ()
  | name :: rest => do
    let extOid ← env.getExtensionOid name.relname
    if pgactiveOid = extOid then throw .dropPgactive else dropsExtension env pgactiveOid rest

def preventDropExtensionPgactive (env : Env) (stmt : DropStmt) : Except FilterError Unit :=
  if stmt.removeType ≠ .extension then .ok ()
  else do
    let pgactiveOid ← env.getExtensionOid "pgactive"
    dropsExtension env pgactiveOid stmt.objects

def preventDisallowedExtensionCreation (extname : String) : Except FilterError Unit :=
  if lower (extname.toList.take 9) = "pglogical".toList then .error .externalReplication
  else .ok ()

end Pgactive.Ddl
