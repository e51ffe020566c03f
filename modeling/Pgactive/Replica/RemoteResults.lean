import Pgactive.FallibleState
import Pgactive.Membership.Nodes

/-!
# What the results of remote commands are taken for

The first steps of a join look at the results of commands on a connection. The version of the
extension is read from the wrong column, and after a copy of a table nobody fetches the result
that says whether the server has kept the rows.
-/

namespace Pgactive.Replica

open FallibleState

/-- `ExecStatusType`. -/
inductive ExecStatus
  | emptyQuery
  | commandOk
  | tuplesOk
  | copyOut
  | copyIn
  | badResponse
  | nonfatalError
  | fatalError
  | copyBoth
  | singleTuple
deriving DecidableEq

/-! ### The extension on the peer -/

/-- The columns of the query on `pg_available_extensions`, number 0 and number 1. -/
inductive ExtColumn
  | defaultVersion
  | installedVersion

/-- The result of the query on `pg_available_extensions`. -/
structure ExtResult where
  status : ExecStatus
  /-- What `PQresStatus` and `PQresultErrorMessage` say about a failed query. -/
  failure : String
  tuples : List (ExtColumn → Option String)

def getvalue (tuple : ExtColumn → Option String) (column : ExtColumn) : String :=
  (tuple column).getD ""

def getRemoteExtVersion (res : ExtResult) : Except String (Option String × Option String) :=
  if res.status ≠ .tuplesOk then
    .error ("unable to get remote pgactive extension version; query " ++ res.failure)
  else
    match res.tuples with
    | [tuple] => .ok (some (getvalue tuple .defaultVersion), some (getvalue tuple .defaultVersion))
    -- With more than one tuple the variables of the caller keep their initial value, null.
    | _ => .ok (none, none)

def Blank (version : Option String) : Prop := version.getD "" = ""

instance (version : Option String) : Decidable (Blank version) :=
  inferInstanceAs (Decidable (_ = _))

def ensureExtInstalled (res : ExtResult) : Except String Unit :=
  match getRemoteExtVersion res with
  | .error e => .error e
  | .ok (defaultVersion, installedVersion) =>
    if Blank defaultVersion then
      .error ("remote PostgreSQL install for pgactive connection does not have pgactive " ++
        "extension installed")
    else if Blank installedVersion then
      .error "remote database for pgactive connection does not have the pgactive extension active"
    else .ok ()

def ReportsInstalled (res : ExtResult) : Prop :=
  ∃ tuple, res.tuples = [tuple] ∧ ¬Blank (tuple .installedVersion)

theorem ensureExtInstalled_eq_ok_iff (res : ExtResult) :
    ensureExtInstalled res = .ok () ↔
      res.status = .tuplesOk ∧ ∃ tuple, res.tuples = [tuple] ∧ ¬Blank (tuple .defaultVersion) := by
  obtain ⟨status, failure, tuples⟩ := res
  by_cases hstatus : status = .tuplesOk
  · rcases tuples with _ | ⟨tuple, _ | ⟨tuple', tuples⟩⟩
    · simp [ensureExtInstalled, getRemoteExtVersion, hstatus, Blank]
    · by_cases hblank : Blank (tuple .defaultVersion)
      all_goals
        have := hblank
        simp only [Blank] at this
        simp [ensureExtInstalled, getRemoteExtVersion, hstatus, Blank, getvalue, this]
    · simp [ensureExtInstalled, getRemoteExtVersion, hstatus, Blank]
  · simp [ensureExtInstalled, getRemoteExtVersion, hstatus]

/-- The check lets only peers pass that report an installed extension exactly if there is none
with a default version and without an installed one. -/
theorem ensureExtInstalled_sound_iff (res : ExtResult) :
    (ensureExtInstalled res = .ok () → ReportsInstalled res) ↔
      ∀ tuple, res.status = .tuplesOk → res.tuples = [tuple] → Blank (tuple .installedVersion) →
        Blank (tuple .defaultVersion) := by
  rw [ensureExtInstalled_eq_ok_iff]
  constructor
  · intro h tuple hstatus htuples hinstalled
    by_contra hdefault
    obtain ⟨tuple', htuples', hinstalled'⟩ := h ⟨hstatus, tuple, htuples, hdefault⟩
    rw [htuples] at htuples'
    obtain rfl := List.singleton_inj.mp htuples'
    exact hinstalled' hinstalled
  · rintro h ⟨hstatus, tuple, htuples, hdefault⟩
    exact ⟨tuple, htuples, fun hinstalled => hdefault (h tuple hstatus htuples hinstalled)⟩

/-- A peer where the extension is available but not created in the database. -/
def availableOnly : ExtResult := ⟨.tuplesOk, "", [fun
  | .defaultVersion => some "2.1.9"
  | .installedVersion => none]⟩

theorem ensureExtInstalled_availableOnly :
    ensureExtInstalled availableOnly = .ok () ∧ ¬ReportsInstalled availableOnly := by
  refine ⟨rfl, ?_⟩
  rintro ⟨tuple, htuple, hinstalled⟩
  obtain rfl := List.singleton_inj.mp htuple
  exact hinstalled rfl

/-! ### Copying tables -/

/-- The tables that `pgactive_sync_nodes` copies. -/
inductive SyncTable
  | pgactiveNodes
  | pgactiveConnections
deriving DecidableEq

/-- The server's side of a connection in a transaction. -/
structure Session (Row : Type) where
  /-- The transaction has failed; every command but its end is refused. -/
  failed : Bool
  stored : List (SyncTable × Row)
  committed : List (SyncTable × Row)
deriving DecidableEq

/-- The outcome of the calls that a copy of a table makes. -/
structure CopyCalls (Row : Type) where
  /-- The answer to `COPY … TO stdout`, unless the transaction has failed before. -/
  copyfromResult : ExecStatus
  /-- The answer to `COPY … FROM stdin`, unless the transaction has failed before. -/
  copytoResult : ExecStatus
  /-- The rows from `PQgetCopyData`, each with the result of `PQputCopyData`. -/
  data : List (Row × ℤ)
  /-- The result of `PQgetCopyData` that ends the loop. -/
  copyoutresult : ℤ
  copyoutresult_nonpos : copyoutresult ≤ 0
  /-- The result of `PQputCopyEnd`. -/
  copyEnd : ℤ
  /-- The source ends with an error, for which `PQgetCopyData` returns -1 like for the end. -/
  sourceFailed : Bool
  rejected : Bool

variable {Row : Type}

def Session.begin : Session Row := ⟨false, [], []⟩

def Session.execCopy (s : Session Row) (answer : ExecStatus) : ExecStatus :=
  if s.failed then .fatalError else answer

/-- A `COMMIT` that is reported as successful; one of a failed transaction rolls it back. -/
def Session.commit (s : Session Row) : Session Row :=
  ⟨false, [], if s.failed then s.committed else s.committed ++ s.stored⟩

def CopyCalls.rows (calls : CopyCalls Row) (table : SyncTable) : List (SyncTable × Row) :=
  calls.data.map fun d => (table, d.1)

section

variable (killed : Row → Bool)

/-- Whether a row gets past the triggers: `pgactive_handle_rejoin` drops those of killed nodes. -/
def handleRejoin : SyncTable × Row → Bool
  | (.pgactiveNodes, row) => !killed row
  | (.pgactiveConnections, _) => true

def CopyCalls.kept (calls : CopyCalls Row) (table : SyncTable) : List (SyncTable × Row) :=
  (calls.rows table).filter (handleRejoin killed)

def Session.receive (s : Session Row) (table : SyncTable) (calls : CopyCalls Row) : Session Row :=
  if calls.rejected then { s with failed := true }
  else { s with stored := s.stored ++ calls.kept killed table }

end

def ensure (wanted : Bool) (failure : String) : Except String Unit :=
  if wanted then .ok () else .error failure

def copyData : List (Row × ℤ) → Except String Unit
  | [] => .ok ()
  | (_, copyinresult) :: data => do
    ensure (copyinresult = 1) "writing to destination table failed"
    copyData data

def copytable (killed : Row → Bool) (source target : Session Row) (table : SyncTable)
    (calls : CopyCalls Row) : Except String (Session Row × Session Row) := do
  ensure (source.execCopy calls.copyfromResult = .copyOut) "execution of COPY ... TO stdout failed"
  ensure (target.execCopy calls.copytoResult = .copyIn) "execution of COPY ... FROM stdout failed"
  copyData calls.data
  ensure (calls.copyoutresult = -1) "reading from origin table/query failed"
  ensure (calls.copyEnd = 1) "sending copy-completion to destination connection failed"
  return ({ source with failed := calls.sourceFailed }, target.receive killed table calls)

/-- What `PQexec` returns for a command without data. -/
structure Reply where
  status : ExecStatus
  message : String

def Reply.check (reply : Reply) (failure : String) : Except String Unit :=
  ensure (reply.status = .commandOk) (failure ++ reply.message)

/-- The outcome of the calls of `pgactive_sync_nodes`. -/
structure SyncCalls (Row : Type) where
  remoteSetup : Reply
  localSetup : Reply
  /-- The copy of `pgactive_nodes` from the peer. -/
  nodes : CopyCalls Row
  ownNode : CopyCalls Row
  /-- The copy of `pgactive_connections` from the peer. -/
  connections : CopyCalls Row
  remoteCommit : Reply
  localCommit : Reply

/-- `pgactive_sync_nodes`: the sessions on the peer and on the own node at its end. -/
def syncNodes (killed : Row → Bool) (calls : SyncCalls Row) :
    Except String (Session Row × Session Row) := do
  calls.remoteSetup.check "BEGIN or table locking on remote failed: "
  calls.localSetup.check "BEGIN or table locking on local failed: "
  let (remote, own) ← copytable killed .begin .begin .pgactiveNodes calls.nodes
  let (own, remote) ← copytable killed own remote .pgactiveNodes calls.ownNode
  let (remote, own) ← copytable killed remote own .pgactiveConnections calls.connections
  calls.remoteCommit.check "COMMIT on remote failed: "
  -- The source has the same text for the own node.
  calls.localCommit.check "COMMIT on remote failed: "
  return (remote.commit, own.commit)

/-- The calls of a copy have the results that the program asks for. -/
structure CopyCalls.Accepted (calls : CopyCalls Row) : Prop where
  copyfrom : calls.copyfromResult = .copyOut
  copyto : calls.copytoResult = .copyIn
  written : ∀ d ∈ calls.data, d.2 = 1
  read : calls.copyoutresult = -1
  completed : calls.copyEnd = 1

def CopyCalls.Kept (calls : CopyCalls Row) : Prop :=
  calls.sourceFailed = false ∧ calls.rejected = false

/-- All results are as the program wants them, and nothing that a later command would be refused
for has happened. -/
structure SyncCalls.Completes (calls : SyncCalls Row) : Prop where
  remoteSetup : calls.remoteSetup.status = .commandOk
  localSetup : calls.localSetup.status = .commandOk
  nodes : calls.nodes.Accepted ∧ calls.nodes.Kept
  ownNode : calls.ownNode.Accepted ∧ calls.ownNode.Kept
  connections : calls.connections.Accepted
  remoteCommit : calls.remoteCommit.status = .commandOk
  localCommit : calls.localCommit.status = .commandOk

theorem ensure_eq_ok_iff {wanted : Bool} {failure : String} {u : Unit} :
    ensure wanted failure = .ok u ↔ wanted = true := by
  cases wanted <;> simp [ensure]

theorem copyData_eq_ok_iff {data : List (Row × ℤ)} {u : Unit} :
    copyData data = .ok u ↔ ∀ d ∈ data, d.2 = 1 := by
  induction data with
  | nil => simp [copyData]
  | cons d data ih =>
    simp only [copyData, except_bind_eq_ok, ensure_eq_ok_iff, ih, decide_eq_true_eq,
      List.forall_mem_cons]
    exact ⟨fun ⟨_, hd, h⟩ => ⟨hd, h⟩, fun ⟨hd, h⟩ => ⟨(), hd, h⟩⟩

theorem Session.execCopy_eq_iff {s : Session Row} {answer wanted : ExecStatus}
    (h : wanted ≠ .fatalError) :
    s.execCopy answer = wanted ↔ s.failed = false ∧ answer = wanted := by
  cases hs : s.failed <;> simp [Session.execCopy, hs, h.symm]

variable {killed : Row → Bool} {source target source' target' : Session Row} {table : SyncTable}

variable {calls : CopyCalls Row}

theorem copytable_eq_ok_iff :
    copytable killed source target table calls = .ok (source', target') ↔
      (source.failed = false ∧ target.failed = false ∧ calls.Accepted) ∧
        source' = { source with failed := calls.sourceFailed } ∧
        target' = target.receive killed table calls := by
  simp only [copytable, except_bind_eq_ok, ensure_eq_ok_iff, decide_eq_true_eq, copyData_eq_ok_iff,
    Session.execCopy_eq_iff (show ExecStatus.copyOut ≠ .fatalError by decide),
    Session.execCopy_eq_iff (show ExecStatus.copyIn ≠ .fatalError by decide)]
  constructor
  · rintro ⟨_, ⟨hsource, hfrom⟩, _, ⟨htarget, hto⟩, _, hdata, _, hread, _, hend, h⟩
    cases h
    exact ⟨⟨hsource, htarget, ⟨hfrom, hto, hdata, hread, hend⟩⟩, rfl, rfl⟩
  · rintro ⟨⟨hsource, htarget, ⟨hfrom, hto, hdata, hread, hend⟩⟩, rfl, rfl⟩
    exact ⟨(), ⟨hsource, hfrom⟩, (), ⟨htarget, hto⟩, (), hdata, (), hread, (), hend, rfl⟩

theorem Session.receive_of_kept (s : Session Row) (table : SyncTable)
    (h : calls.rejected = false) :
    s.receive killed table calls = { s with stored := s.stored ++ calls.kept killed table } := by
  simp [Session.receive, h]

theorem Session.rejected_of_receive {s : Session Row}
    (h : (s.receive killed table calls).failed = false) : calls.rejected = false := by
  cases hrejected : calls.rejected with
  | false => rfl
  | true => simp [Session.receive, hrejected] at h

def SyncCalls.sessions (killed : Row → Bool) (calls : SyncCalls Row) : Session Row × Session Row :=
  (⟨calls.connections.sourceFailed, calls.ownNode.kept killed .pgactiveNodes, []⟩,
    Session.receive killed ⟨false, calls.nodes.kept killed .pgactiveNodes, []⟩ .pgactiveConnections
      calls.connections)

theorem syncNodes_eq_ok_iff {calls : SyncCalls Row} {remote own : Session Row} :
    syncNodes killed calls = .ok (remote, own) ↔ calls.Completes ∧
      remote = (calls.sessions killed).1.commit ∧ own = (calls.sessions killed).2.commit := by
  simp only [syncNodes, except_bind_eq_ok, Reply.check, ensure_eq_ok_iff, decide_eq_true_eq,
    Prod.exists, copytable_eq_ok_iff]
  constructor
  · rintro ⟨_, hrs, _, hls, _, _, ⟨⟨-, -, hnodes⟩, rfl, rfl⟩, _, _, ⟨⟨htarget, hsource, hown⟩, rfl,
      rfl⟩, _, _, ⟨⟨htarget', hsource', hconn⟩, rfl, rfl⟩, _, hrc, _, hlc, h⟩
    have hkept := Session.rejected_of_receive htarget
    have hkept' := Session.rejected_of_receive htarget'
    cases h
    refine ⟨⟨hrs, hls, ⟨hnodes, hsource, hkept⟩, ⟨hown, hsource', hkept'⟩, hconn, hrc, hlc⟩, ?_⟩
    have hfailed : calls.ownNode.sourceFailed = false := hsource'
    simp only [Session.receive_of_kept _ _ hkept, Session.receive_of_kept _ _ hkept',
      Session.begin, SyncCalls.sessions, List.nil_append, hfailed, and_self]
  · rintro ⟨⟨hrs, hls, ⟨hnodes, hsource, hkept⟩, ⟨hown, hsource', hkept'⟩, hconn, hrc, hlc⟩, rfl,
      rfl⟩
    have hfailed : ∀ s : Session Row, ∀ calls : CopyCalls Row, calls.rejected = false →
        s.failed = false → (s.receive killed .pgactiveNodes calls).failed = false := by
      intro s calls hkept hs
      rw [Session.receive_of_kept _ _ hkept, hs]
    refine ⟨(), hrs, (), hls, _, _, ⟨⟨rfl, rfl, hnodes⟩, rfl, rfl⟩, _, _,
      ⟨⟨hfailed _ _ hkept rfl, hsource, hown⟩, rfl, rfl⟩, _, _,
      ⟨⟨hfailed _ _ hkept' hsource, hsource', hconn⟩, rfl, rfl⟩, (), hrc, (), hlc, ?_⟩
    simp only [Session.receive_of_kept _ _ hkept, Session.receive_of_kept _ _ hkept',
      Session.begin, SyncCalls.sessions, List.nil_append, hsource']
    rfl

theorem CopyCalls.kept_connections (calls : CopyCalls Row) :
    calls.kept killed .pgactiveConnections = calls.rows .pgactiveConnections := by
  refine List.filter_eq_self.mpr fun r hr => ?_
  obtain ⟨d, -, rfl⟩ := List.mem_map.mp hr
  rfl

theorem CopyCalls.rows_subset_kept_iff (calls : CopyCalls Row) :
    calls.rows .pgactiveNodes ⊆ calls.kept killed .pgactiveNodes ↔
      ∀ d ∈ calls.data, killed d.1 = false := by
  simp only [List.subset_def, CopyCalls.kept, List.mem_filter, CopyCalls.rows,
    List.forall_mem_map]
  refine forall₂_congr fun d hd => ?_
  simp only [List.mem_map_of_mem hd, true_and, handleRejoin, Bool.not_eq_true']

theorem SyncCalls.ownNode_subset_iff (calls : SyncCalls Row) :
    calls.ownNode.rows .pgactiveNodes ⊆ (calls.sessions killed).1.commit.committed ↔
      (∀ d ∈ calls.ownNode.data, killed d.1 = false) ∧
        (calls.connections.sourceFailed = true → calls.ownNode.data = []) := by
  cases hfailed : calls.connections.sourceFailed with
  | false => simp [sessions, Session.commit, hfailed, CopyCalls.rows_subset_kept_iff]
  | true => simp +contextual [sessions, Session.commit, hfailed, CopyCalls.rows]

theorem SyncCalls.nodes_subset_iff (calls : SyncCalls Row) :
    calls.nodes.rows .pgactiveNodes ++ calls.connections.rows .pgactiveConnections ⊆
        (calls.sessions killed).2.commit.committed ↔
      (∀ d ∈ calls.nodes.data, killed d.1 = false) ∧ (calls.connections.rejected = true →
        calls.nodes.data = [] ∧ calls.connections.data = []) := by
  cases hrejected : calls.connections.rejected with
  | false =>
    rw [← CopyCalls.rows_subset_kept_iff]
    simp only [sessions, Session.receive_of_kept _ _ hrejected, CopyCalls.kept_connections,
      Session.commit, List.nil_append, Bool.false_eq_true, false_implies, and_true, if_false]
    refine ⟨fun h r hr => ?_, fun h => List.append_subset.mpr
      ⟨List.Subset.trans h (List.subset_append_left ..), List.subset_append_right ..⟩⟩
    obtain hkept | hconnection := List.mem_append.mp (h (List.mem_append_left _ hr))
    · exact hkept
    · -- the tables are different
      obtain ⟨d, -, rfl⟩ := List.mem_map.mp hr
      obtain ⟨d', -, hd'⟩ := List.mem_map.mp hconnection
      cases hd'
  | true => simp +contextual [sessions, Session.receive, Session.commit, hrejected, CopyCalls.rows]

/-- All rows that were read are committed when `pgactive_sync_nodes` returns exactly if it raises
an error, or none is the row of a killed node and the last copy is kept: an error at its source
takes the own entry back on the peer, and a rejection at its target takes all rows back on the own
node. -/
theorem syncNodes_committed_iff (killed : Row → Bool) (calls : SyncCalls Row) :
    (∀ remote own, syncNodes killed calls = .ok (remote, own) →
      calls.ownNode.rows .pgactiveNodes ⊆ remote.committed ∧
        calls.nodes.rows .pgactiveNodes ++ calls.connections.rows .pgactiveConnections ⊆
          own.committed) ↔
      (calls.Completes →
        (∀ d ∈ calls.ownNode.data ++ calls.nodes.data, killed d.1 = false) ∧
        (calls.connections.sourceFailed = true → calls.ownNode.data = []) ∧
        (calls.connections.rejected = true →
          calls.nodes.data = [] ∧ calls.connections.data = [])) := by
  constructor
  · intro h hcompletes
    obtain ⟨hremote, hown⟩ := h _ _ (syncNodes_eq_ok_iff.mpr ⟨hcompletes, rfl, rfl⟩)
    obtain ⟨hlive, hsource⟩ := calls.ownNode_subset_iff.mp hremote
    obtain ⟨hlive', htarget⟩ := calls.nodes_subset_iff.mp hown
    exact ⟨List.forall_mem_append.mpr ⟨hlive, hlive'⟩, hsource, htarget⟩
  · intro h remote own hok
    obtain ⟨hcompletes, rfl, rfl⟩ := syncNodes_eq_ok_iff.mp hok
    obtain ⟨hlive, hsource, htarget⟩ := h hcompletes
    obtain ⟨hlive, hlive'⟩ := List.forall_mem_append.mp hlive
    exact ⟨calls.ownNode_subset_iff.mpr ⟨hlive, hsource⟩,
      calls.nodes_subset_iff.mpr ⟨hlive', htarget⟩⟩

def oneRowCopy (row : ℕ) (rejected : Bool) : CopyCalls ℕ :=
  ⟨.copyOut, .copyIn, [(row, 1)], -1, by decide, 1, false, rejected⟩

def rejectedConnections : SyncCalls ℕ :=
  ⟨⟨.commandOk, ""⟩, ⟨.commandOk, ""⟩, oneRowCopy 0 false, oneRowCopy 1 false, oneRowCopy 2 true,
    ⟨.commandOk, ""⟩, ⟨.commandOk, ""⟩⟩

theorem syncNodes_rejectedConnections :
    (syncNodes (fun _ => false) rejectedConnections).map
        (fun final => (final.1.committed, final.2.committed)) =
      .ok ([(.pgactiveNodes, 1)], []) :=
  rfl

/-! ### The table of the joining node -/

open Pgactive.Membership (NodeRow) in
/-- When the last copy is kept, the joining node has the rows that `Membership.Table.copyTo`
gives it. -/
theorem mem_committed_iff_copyTo {ν : Type} [DecidableEq ν] {calls : SyncCalls (ν × NodeRow)}
    {remote own : Session (ν × NodeRow)} {target tbl : Pgactive.Membership.Table ν} {j n : ν}
    (hread : ∀ n row, (n, row) ∈ calls.nodes.data.map Prod.fst ↔ target n = some row)
    (hkept : calls.connections.rejected = false)
    (hok : syncNodes (fun r => !r.2.live) calls = .ok (remote, own)) (hn : n ≠ j)
    (row : NodeRow) :
    (.pgactiveNodes, n, row) ∈ own.committed ↔ target.copyTo tbl j n = some row := by
  obtain ⟨-, -, rfl⟩ := syncNodes_eq_ok_iff.mp hok
  have hrow : (.pgactiveNodes, n, row) ∈ calls.nodes.rows .pgactiveNodes ↔
      (n, row) ∈ calls.nodes.data.map Prod.fst := by
    simp [CopyCalls.rows]
  simp only [SyncCalls.sessions, Session.receive_of_kept _ _ hkept, CopyCalls.kept_connections,
    Session.commit, List.nil_append, Bool.false_eq_true, if_false, List.mem_append]
  rw [CopyCalls.kept, List.mem_filter, hrow, hread, Pgactive.Membership.Table.copyTo, if_neg hn,
    Option.filter_eq_some_iff]
  simp [handleRejoin, CopyCalls.rows]

end Pgactive.Replica
