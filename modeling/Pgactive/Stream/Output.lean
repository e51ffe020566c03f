import Pgactive.Stream.Wire

/-!
# The callbacks of the output plugin

Logical decoding hands every committed transaction of the log to the plugin, first its
BEGIN, then its changes, then its COMMIT. Each of the three callbacks decides on its own,
from the replication origin of the transaction, whether it emits anything.
-/

namespace Pgactive.Stream

open ByteReader

def invalidRepOriginId : RepOriginId := 0

def doNotReplicateId : RepOriginId := 0xFFFF

/-- Which of the three row changes it is (`ReorderBufferChangeType`). -/
inductive ChangeKind
  | insert
  | update
  | delete
deriving DecidableEq

def kindOf {D : Type} : Change D → ChangeKind
  | .insert _ => .insert
  | .update _ _ => .update
  | .delete _ => .delete

/-- `pgactiveOutputData`, as far as the callbacks after startup consult it. -/
structure PluginData extends OutputData where
  forwardChangesets : Bool
  /-- Relation `pgactive_conflict_handlers`. -/
  conflictHandlersReloid : ℕ
  /-- Relation `pgactive_global_locks`. -/
  locksReloid : ℕ
  /-- Relation `pgactive_conflict_history`. -/
  conflictHistoryReloid : ℕ
  /-- Schema `pgactive`. -/
  schemaOid : ℕ
  /-- The `computed_repl` flags of a relation, for the replication sets of the receiver. -/
  computedRepl : ℕ → ChangeKind → Bool

/-- A relation of the sending node. -/
structure LocalRelation extends Table where
  relid : ℕ
  relnamespace : ℕ

/-- A walsender: the plugin's data and what it looks up on its node. -/
structure Walsender where
  me : NodeId
  /-- `replorigin_by_oid` followed by `pgactive_parse_replident_name`. -/
  originNode : RepOriginId → Option NodeId
  data : PluginData
  io : TypeIO

def shouldForwardChangeset (data : PluginData) (originId : RepOriginId) : Bool :=
  if originId = invalidRepOriginId ∨ data.forwardChangesets then true
  else if originId = doNotReplicateId then false
  -- every other origin is a peer's
  else false

def shouldForwardChange (data : PluginData) (rel : LocalRelation) (action : ChangeKind) : Bool :=
  if rel.relid = data.conflictHandlersReloid ∨ rel.relid = data.locksReloid ∨
      rel.relid = data.conflictHistoryReloid then false
  else if rel.relnamespace = data.schemaOid then true
  else data.computedRepl rel.relid action

def Walsender.fetchSysidViaNodeId (ws : Walsender) (id : RepOriginId) : Except WireError NodeId :=
  -- both stand for the local node
  if id = invalidRepOriginId ∨ id = doNotReplicateId then .ok ws.me
  else
    match ws.originNode id with
    | some node => .ok node
    | none => .error .undefinedOrigin

def pgDecodeBeginTxn (ws : Walsender) (txn : Txn) : Except WireError (Option (List UInt8)) :=
  if shouldForwardChangeset ws.data txn.originId then
    if ws.data.forwardChangesets then do
      let origin ← ws.fetchSysidViaNodeId txn.originId
      some <$> outputPluginWrite (.ok (beginBytes (some origin) txn))
    else some <$> outputPluginWrite (.ok (beginBytes none txn))
  else .ok none

def pgDecodeChange (ws : Walsender) (txn : Txn) (rel : LocalRelation) (change : Change Value) :
    Except WireError (Option (List UInt8)) :=
  if shouldForwardChangeset ws.data txn.originId then
    if shouldForwardChange ws.data rel (kindOf change) then
      some <$> outputPluginWrite (changeBytes ws.data.toOutputData ws.io rel.toTable change)
    else .ok none
  else .ok none

/-- `pg_decode_commit_txn`; `none` if nothing is emitted. -/
def pgDecodeCommitTxn (ws : Walsender) (txn : Txn) : Except WireError (Option (List UInt8)) :=
  if shouldForwardChangeset ws.data txn.originId then
    some <$> outputPluginWrite (.ok (commitBytes txn))
  else .ok none

/-- `pg_decode_message`; messages of others are not emitted. -/
def pgDecodeMessage (transactional : Bool) (lsn : UInt64) (tag : String) (message : List UInt8) :
    Except WireError (Option (List UInt8)) :=
  if tag = logicalMsgTag then
    some <$> outputPluginWrite (.ok (messageBytes transactional lsn message))
  else .ok none

variable {ws : Walsender} {txn : Txn}

theorem beginBytes_length_lt (origin : Option NodeId) (txn : Txn) :
    (beginBytes origin txn).length < maxAllocSize := by
  cases origin <;> simp [beginBytes, sendNodeid, maxAllocSize]

theorem commitBytes_length_lt (txn : Txn) : (commitBytes txn).length < maxAllocSize := by
  simp [commitBytes, maxAllocSize]

theorem outputPluginWrite_ok {bs : List UInt8} (h : bs.length < maxAllocSize) :
    outputPluginWrite (.ok bs) = .ok bs := by simp [outputPluginWrite, h]

theorem outputPluginWrite_eq_ok {message : Except WireError (List UInt8)} {bs : List UInt8}
    (h : outputPluginWrite message = .ok bs) : message = .ok bs ∧ bs.length < maxAllocSize := by
  cases message with
  | error e => simp [outputPluginWrite] at h
  | ok out =>
    unfold outputPluginWrite at h
    split at h
    · next heq =>
      cases heq
      split at h
      · next hlt =>
        cases h
        exact ⟨rfl, hlt⟩
      · cases h
    · cases h

theorem pgDecodeBeginTxn_forward {origin : NodeId} (hfwd : ws.data.forwardChangesets = true)
    (horigin : ws.fetchSysidViaNodeId txn.originId = .ok origin) :
    pgDecodeBeginTxn ws txn = .ok (some (beginBytes (some origin) txn)) := by
  have hwrite := outputPluginWrite_ok (beginBytes_length_lt (some origin) txn)
  simp only [pgDecodeBeginTxn, shouldForwardChangeset, hfwd, or_true, if_true, horigin, bind,
    Except.bind, hwrite]
  rfl

theorem emits_nothing (h : shouldForwardChangeset ws.data txn.originId = false) :
    pgDecodeBeginTxn ws txn = .ok none ∧
      (∀ rel change, pgDecodeChange ws txn rel change = .ok none) ∧
      pgDecodeCommitTxn ws txn = .ok none := by
  refine ⟨?_, fun rel change => ?_, ?_⟩
  · simp [pgDecodeBeginTxn, h]
  · simp [pgDecodeChange, h]
  · simp [pgDecodeCommitTxn, h]

/-- A local-only transaction stays local exactly on the streams that do not forward
changesets. -/
theorem localOnly_emits_nothing_iff (ws : Walsender) (txn : Txn)
    (hlocal : txn.originId = doNotReplicateId) :
    (pgDecodeBeginTxn ws txn = .ok none ∧
      (∀ rel change, pgDecodeChange ws txn rel change = .ok none) ∧
      pgDecodeCommitTxn ws txn = .ok none) ↔ ws.data.forwardChangesets = false := by
  constructor
  · rintro ⟨hbegin, -, -⟩
    by_contra hfwd
    -- the lookup of the origin succeeds, since it maps this identifier to the local node
    have horigin : ws.fetchSysidViaNodeId txn.originId = .ok ws.me := by
      simp [Walsender.fetchSysidViaNodeId, hlocal]
    rw [pgDecodeBeginTxn_forward (by simpa using hfwd) horigin] at hbegin
    cases hbegin
  · intro hfwd
    apply emits_nothing
    simp [shouldForwardChangeset, hfwd, hlocal, invalidRepOriginId, doNotReplicateId]

/-- A walsender without known peers or tables, in either mode. -/
def bareWalsender (forward : Bool) : Walsender where
  me := ⟨1, 1, 5⟩
  originNode := fun _ => none
  data := ⟨⟨false, false, false⟩, forward, 0, 0, 0, 0, fun _ _ => true⟩
  io := ⟨fun _ _ => .empty, fun _ _ => none, fun _ _ => [], fun _ _ => none⟩

def localOnlyTxn : Txn := ⟨7, doNotReplicateId, 0, 40, 48, 1000⟩

/-- On a stream that does not forward, the three callbacks emit nothing of it. -/
theorem localOnly_not_forwarded :
    pgDecodeBeginTxn (bareWalsender false) localOnlyTxn = .ok none ∧
      (∀ rel change, pgDecodeChange (bareWalsender false) localOnlyTxn rel change = .ok none) ∧
      pgDecodeCommitTxn (bareWalsender false) localOnlyTxn = .ok none :=
  (localOnly_emits_nothing_iff (bareWalsender false) localOnlyTxn rfl).mpr rfl

/-- In catchup mode BEGIN and COMMIT of a local-only transaction are emitted, under the name
of the sending node. -/
theorem localOnly_emitted_in_catchup :
    localOnlyTxn.originId = doNotReplicateId ∧
      pgDecodeBeginTxn (bareWalsender true) localOnlyTxn =
        .ok (some (beginBytes (some (bareWalsender true).me) localOnlyTxn)) ∧
      pgDecodeCommitTxn (bareWalsender true) localOnlyTxn = .ok (some (commitBytes localOnlyTxn)) :=
  ⟨rfl, rfl, rfl⟩

end Pgactive.Stream
