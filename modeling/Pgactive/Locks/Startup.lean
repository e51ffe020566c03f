import Pgactive.Locks.Phases

/-!
# Starting up while others run

`pgactive_locks_startup` takes no lock. It stores what it knows of a row field by field, it fails if
there is no replication origin for the owner of the row, and its worker can end at every point.
Apply workers are started behind it, while user backends are already there.
-/

namespace Pgactive.Locks

variable {ν : Type}

/-- A piece of `pgactive_locks_startup`, between two points at which another process can run. -/
inductive StartupStep (ν : Type)
  /-- A store to shared memory, which may use the local variable `wait_for_lsn`. -/
  | store (f : ℕ → LocksDb ν → LocksDb ν)
  | send (m : ℕ → LockMessage ν)
  /-- `pgactive_fetch_node_id_via_sysid`, which raises an error without an origin of the owner. -/
  | fetchNodeId (owner : ν)
  /-- The insert position is read into `wait_for_lsn`. -/
  | readInsertLsn

/-- The loop over the stored rows, for one row. -/
def LockRow.reacquire (row : LockRow ν) : List (StartupStep ν) :=
  let take (lockState : LockState) : List (StartupStep ν) :=
    [.store fun _ db => { db with lockHolder := some row.owner },
      .store fun _ db => { db with lockcount := db.lockcount + 1 },
      .store fun _ db => { db with lockType := row.lockType },
      .store fun _ db => { db with lockState := lockState }]
  .fetchNodeId row.owner :: match row.state with
    | .acquired => take .peerConfirmed
    | .catchup => [.readInsertLsn, .send .requestReplayConfirm] ++ take .peerCatchup ++
      [.store fun _ db => { db with replayConfirmed := 0 },
        .store fun lsn db => { db with replayConfirmedLsn := some lsn }]

def locksStartup (rows : List (LockRow ν)) : List (StartupStep ν) :=
  [.store fun _ db => { db with nnodes := -1 }, .send fun _ => .start] ++
    rows.flatMap LockRow.reacquire ++ [.store fun _ db => { db with lockedAndLoaded := true }]

/-- How far a node is with its startup. -/
inductive Startup (ν : Type)
  | loaded
  /-- No worker is in `pgactive_locks_startup`. -/
  | down
  | running (todo : List (StartupStep ν)) (waitForLsn : ℕ)

def Startup.isLoaded : Startup ν → Bool
  | .loaded => true
  | _ => false

theorem Startup.eq_loaded {u : Startup ν} (h : u.isLoaded = true) : u = .loaded := by
  cases u with
  | loaded => rfl
  | _ => cases h

/-- Where the worker is when it goes on with these steps; at the end, `locked_and_loaded` is set. -/
def Startup.next (waitForLsn : ℕ) : List (StartupStep ν) → Startup ν
  | [] => .loaded
  | x :: todo => .running (x :: todo) waitForLsn

/-- The nodes with their startups. -/
structure Servers (ν : Type) where
  cluster : Cluster ν
  startup : ν → Startup ν
  /-- `origin i j`: there is a replication origin of `j` on `i`. -/
  origin : ν → ν → Bool

inductive ServerAction (ν : Type)
  /-- A step of another process. -/
  | act (a : Action ν)
  | crash (i : ν)
  /-- A per-database worker is started and calls `pgactive_locks_startup`. -/
  | begin (i : ν)
  | load (i : ν)
  /-- The worker ends in `pgactive_locks_startup`. -/
  | stop (i : ν)
  | setOrigin (i j : ν) (present : Bool)

/-- Detaching a node and writing to the write-ahead log do not need pgactive to be started. -/
def Action.isAnytime : Action ν → Bool
  | .kill .. | .writeWal .. => true
  | _ => false

/-- Apply workers and the passes of the per-database worker come after the startup. User backends
find the entry of the database as soon as a worker has made it. -/
def Startup.allows : Startup ν → Action ν → Bool
  | _, .restart _ => false
  | .loaded, _ => true
  | _, .deliver .. | _, .work .. | _, .advance .. | _, .rewind .. | _, .stopWorker ..
  | _, .maintain _ | _, .forget _ | _, .setNnodes _ => false
  | _, _ => true

/-- The entry of a database in shared memory before anything is stored there. -/
def LocksDb.blank (ν : Type) (nnodes : ℤ) : LocksDb ν :=
  { LocksDb.unlocked ν nnodes with lockedAndLoaded := false }

def LocksDb.Blank (db : LocksDb ν) : Prop := db = .blank ν db.nnodes

section Steps

variable [DecidableEq ν]

/-- Shared memory is new, and the processes are gone. -/
def LockNode.crashed (n : LockNode ν) : LockNode ν :=
  { n with
    db := .blank ν 0
    backends := fun _ => .fresh
    workers := fun w => if w ∈ n.killed then .stopped else .idle
    perdb := .idle }

def Servers.setStartup (s : Servers ν) (i : ν) (u : Startup ν) : Servers ν :=
  { s with startup := Function.update s.startup i u }

def Servers.load (s : Servers ν) (i : ν) (todo : List (StartupStep ν)) (waitForLsn : ℕ) :
    StartupStep ν → Servers ν
  | .store f =>
    { s with cluster := s.cluster.put i { s.cluster.node i with
      db := f waitForLsn (s.cluster.node i).db } }.setStartup i (.next waitForLsn todo)
  | .send m =>
    { s with cluster := s.cluster.send i (s.cluster.node i) [unasked (m waitForLsn)] }.setStartup i
      (.next waitForLsn todo)
  | .fetchNodeId owner => s.setStartup i (if s.origin i owner then .next waitForLsn todo else .down)
  | .readInsertLsn => s.setStartup i (.next (s.cluster.node i).insertLsn todo)

def Servers.step [Fintype ν] (s : Servers ν) : ServerAction ν → Option (Servers ν)
  | .act a =>
    if (s.startup a.node).allows a then
      (s.cluster.step a).map fun cluster => { s with cluster := cluster }
    else none
  | .crash i =>
    let cluster := { s.cluster.put i (s.cluster.node i).crashed with
      confirmedBy := Function.update s.cluster.confirmedBy i []
      declinedBy := Function.update s.cluster.declinedBy i []
      replayedBy := Function.update s.cluster.replayedBy i [] }
    some ({ s with cluster := cluster }.setStartup i .down)
  | .begin i =>
    match s.startup i with
    | .down => some (s.setStartup i (.next 0 (locksStartup (s.cluster.node i).rows)))
    | _ => none
  | .load i =>
    match s.startup i with
    | .running (x :: todo) waitForLsn => some (s.load i todo waitForLsn x)
    | _ => none
  | .stop i =>
    match s.startup i with
    | .running (_ :: _) _ => some (s.setStartup i .down)
    | _ => none
  | .setOrigin i j present =>
    some { s with
      origin := Function.update s.origin i (Function.update (s.origin i) j present) }

/-- The condition `ok` on the steps of other processes and `recoverable` on a crash. Nobody asks for
the lock during a startup, and no startup ends when it has stored a holder. -/
def Servers.Allows (ok : Cluster ν → Action ν → Prop) (recoverable : LockNode ν → Prop)
    (s : Servers ν) : ServerAction ν → Prop
  | .act a => a.isAnytime = true ∨ (s.startup a.node).isLoaded = true ∧ ok s.cluster a
  | .crash i => recoverable (s.cluster.node i)
  | .stop i => (s.cluster.node i).db.lockHolder = none
  | _ => True

instance (ok : Cluster ν → Action ν → Prop) [∀ s a, Decidable (ok s a)]
    (recoverable : LockNode ν → Prop) [DecidablePred recoverable] (s : Servers ν) :
    DecidablePred (s.Allows ok recoverable) := fun a => by
  rcases a <;> unfold Servers.Allows <;> infer_instance

def ServerAction.acts (as : List (Action ν)) : List (ServerAction ν) := as.map .act

/-- A crash of `i`, and a startup that makes `steps` steps. -/
def ServerAction.restart (i : ν) (steps : ℕ) : List (ServerAction ν) :=
  [.crash i, .begin i] ++ List.replicate steps (.load i)

end Steps

def Servers.start (ν : Type) [DecidableEq ν] [Fintype ν] : Servers ν :=
  ⟨.start ν, fun _ => .loaded, fun _ _ => true⟩

theorem exists_row_of_fetchNodeId {rows : List (LockRow ν)} {owner : ν}
    (h : .fetchNodeId owner ∈ locksStartup rows) : ∃ row ∈ rows, row.owner = owner := by
  simp only [locksStartup, List.mem_append, List.mem_flatMap] at h
  obtain (h | ⟨row, hrow, h⟩) | h := h
  · simp at h
  · refine ⟨row, hrow, ?_⟩
    cases hstate : row.state <;> simp_all [LockRow.reacquire]
  · simp at h

/-! ### Where a startup leads to -/

/-- What the startup makes of a row. -/
def LockRow.restored (row : LockRow ν) (waitForLsn : ℕ) : LocksDb ν :=
  { LocksDb.unlocked ν (-1) with
    lockcount := 1
    lockHolder := some row.owner
    lockType := row.lockType
    lockState := row.state.restored
    replayConfirmedLsn := if row.state = .catchup then some waitForLsn else none }

def LocksDb.Restores (rows : List (LockRow ν)) (db : LocksDb ν) : Prop :=
  match rows with
  | [] => db = .unlocked ν (-1)
  | row :: _ => ∃ waitForLsn, db = row.restored waitForLsn

/-- Shared memory is blank until a holder is stored, also when an origin is not found, and the
stores lead to `Q`. -/
def LocksDb.Leads (Q : LocksDb ν → Prop) : List (StartupStep ν) → ℕ → LocksDb ν → Prop
  | [], _, db => Q db
  | x :: todo, lsn, db => (db.lockHolder = none → db.Blank) ∧
    match x with
    | .store f => Leads Q todo lsn (f lsn db)
    | .send m => (m lsn = .start ∨ ∃ k, m lsn = .requestReplayConfirm k) ∧ Leads Q todo lsn db
    | .fetchNodeId _ => db.Blank ∧ Leads Q todo lsn db
    | .readInsertLsn => ∀ k, Leads Q todo k db

theorem LocksDb.Blank.leads {db : LocksDb ν} (h : db.Blank) {rows : List (LockRow ν)}
    (hrows : rows = [] ∨ ∃ row, rows = [row]) (lsn : ℕ) :
    db.Leads (Restores rows) (locksStartup rows) lsn := by
  rw [h]
  obtain rfl | ⟨row, rfl⟩ := hrows
  · simp [locksStartup, Leads, Blank, blank, Restores, unlocked]
  · cases hstate : row.state <;>
      simp [locksStartup, LockRow.reacquire, hstate, Leads, Blank, blank, Restores,
        LockRow.restored, unlocked, RowState.restored]

/-- A startup that nothing disturbs comes to the end of a restart in one piece. -/
theorem LockNode.startup_restores [DecidableEq ν] {n : LockNode ν}
    (hrows : n.rows = [] ∨ ∃ row, n.rows = [row]) : n.startup.1.db.Restores n.rows := by
  obtain hrows | ⟨row, hrows⟩ := hrows
  · simp [LockNode.startup, hrows, LocksDb.Restores]
  · cases hstate : row.state <;>
      simp [LockNode.startup, hrows, LocksDb.Restores, LockNode.reacquire, hstate,
        LockRow.restored, LocksDb.unlocked, RowState.restored]

end Pgactive.Locks
