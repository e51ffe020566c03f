import Mathlib.Data.Finset.Basic
import Mathlib.Tactic.Simps.Basic

/-!
# State of the global lock on one node

The shared memory of `pgactive_locks.c`, the rows of `pgactive.pgactive_global_locks`, and the
places of the processes: each stops between two sections under `pgactive_locks_ctl->lock`. A
replication origin is named by its node, and `InvalidRepOriginId`, `InvalidXLogRecPtr` and the
process identifier zero are `none`.
-/

namespace Pgactive.Locks

variable {ν : Type}

inductive LockType
  | nolock
  | ddl
  | write
deriving DecidableEq, Repr

/-- The numeric value of the enumeration, by which the source compares lock types. -/
def LockType.level : LockType → ℕ
  | .nolock => 0
  | .ddl => 1
  | .write => 2

inductive LockState
  | nolock
  | acquireTallyConfirmations
  | acquireAcquired
  | peerBeginCatchup
  | peerCancelXacts
  | peerCatchup
  | peerConfirmed
deriving DecidableEq, Repr

/-- The `state` column of `pgactive_global_locks`. -/
inductive RowState
  | catchup
  | acquired
deriving DecidableEq, Repr

/-- A row of `pgactive_global_locks`: the local record of a lock that a peer owns. -/
structure LockRow (ν : Type) where
  /-- Column `locktype`. -/
  lockType : LockType
  /-- The owner's node identifier, three columns in the table. -/
  owner : ν
  /-- Column `state`. -/
  state : RowState
deriving DecidableEq

/-- `pgactiveLocksDBState` without the latches of the processes that wait on it. -/
structure LocksDb (ν : Type) where
  /-- The number of nodes that take part in locking, or `-1` while it is unknown. -/
  nnodes : ℤ
  /-- Whether startup has progressed far enough to allow writes. -/
  lockedAndLoaded : Bool
  /-- The lock counter; at most one lock may exist at a time. -/
  lockcount : ℤ
  /-- The peer that holds the lock, `none` for the local node. -/
  lockHolder : Option ν
  lockHolderLocalPid : Option ℕ
  lockType : LockType
  lockState : LockState
  /-- Confirmations counted for the local attempt. -/
  acquireConfirmed : ℤ
  /-- Declines counted for the local attempt. -/
  acquireDeclined : ℤ
  /-- Replay confirmations counted for `replayConfirmedLsn`. -/
  replayConfirmed : ℤ
  /-- The position whose replay the peers are asked to confirm. -/
  replayConfirmedLsn : Option ℕ
deriving DecidableEq

/-- The payload of a lock message (`pgactiveMessageType` and what follows the header). -/
inductive LockMessage (ν : Type)
  | start
  | acquireLock (lockType : LockType)
  | releaseLock (lock : ν)
  | confirmLock (lock : ν) (lockType : LockType)
  | declineLock (lock : ν) (lockType : LockType)
  | requestReplayConfirm (lsn : ℕ)
  | replayConfirm (lsn : ℕ)
deriving DecidableEq

/-- Where a user backend is with respect to `pgactive_acquire_ddl_lock`. -/
inductive BackendPc
  /-- Outside the function. Its last call in this transaction, if any, raised an error. -/
  | idle
  /-- In the loop that waits for the tally of a request of this type. -/
  | tallying (lockType : LockType)
  /-- Past the loop, before the state becomes `pgactive_LOCKSTATE_ACQUIRE_ACQUIRED`. -/
  | quorum (lockType : LockType)
  /-- The last call asked for this type and returned normally. -/
  | returned (lockType : LockType)
  /-- In the transaction callback, after the release message. -/
  | releasing
deriving DecidableEq, Repr

/-- A user backend. -/
structure Backend where
  thisXactAcquiredLock : Bool
  pc : BackendPc
deriving DecidableEq, Repr

/-- Whether the backend is outside `pgactive_acquire_ddl_lock` and the callback, so that its
transaction can go on. -/
def Backend.outside (b : Backend) : Bool :=
  match b.pc with
  | .idle | .returned _ => true
  | _ => false

/-- Where the apply worker of a peer is in the processing of one message. -/
inductive WorkerPc
  /-- Waiting for the next message. -/
  | idle
  /-- The message is processed and the replication origin not yet advanced. -/
  | done
  /-- Terminated because the peer was detached. -/
  | stopped
  /-- `process_confirm_ddl_lock`, after its tests. -/
  | countingConfirm
  /-- `process_decline_ddl_lock`, after its tests. -/
  | countingDecline
  /-- `process_acquire_ddl_lock`: local lock taken, confirmation to be sent. -/
  | confirming
  /-- The same after an upgrade, with the type still to be raised. -/
  | raisingConfirm (lockType : LockType)
  /-- About to enter `cancel_conflicting_transactions`; the flag tells an upgrade. -/
  | cancelling (upgrade : Bool) (lockType : LockType)
  /-- In the loop of `cancel_conflicting_transactions`. -/
  | examining (upgrade : Bool) (lockType : LockType)
  /-- Upgrade to a write lock: transactions cancelled, type still to be raised. -/
  | raising (lockType : LockType)
  /-- `request_replay_confirmation`, before it reads the insert position. -/
  | capturing
  /-- `request_replay_confirmation`, with the position it has read. -/
  | requesting (lsn : ℕ)
  /-- At the label `decline`; the flag tells that the insertion of a row was announced to
  the commit callback and has failed. -/
  | declining (announced : Bool) (lockType : LockType)
  /-- `process_remote_startup` with the number of rows still to be treated, and whether
  the scan found any. -/
  | clearing (left : ℕ) (found : Bool)
deriving DecidableEq, Repr

/-- The stations of `process_acquire_ddl_lock` from which the handler still changes the
state of the local lock or confirms it. -/
def WorkerPc.granting : WorkerPc → Bool
  | .confirming | .raisingConfirm _ | .cancelling .. | .examining .. | .raising _
  | .capturing | .requesting _ => true
  | .declining announced _ => announced
  | _ => false

/-- Where the per-database worker is in `pgactive_maintain_db_workers`. -/
inductive PerdbPc (ν : Type)
  /-- Between two passes. -/
  | idle
  /-- In a pass: the detached nodes still to be forgotten, and the nodes counted. -/
  | maintaining (nodesToForget : List ν) (counted : Finset ν)

/-- Everything about the global lock on one node. -/
structure LockNode (ν : Type) where
  db : LocksDb ν
  /-- Committed rows of `pgactive_global_locks`. -/
  rows : List (LockRow ν)
  /-- The insert position of the write-ahead log. -/
  insertLsn : ℕ
  /-- The user backends, by process identifier. -/
  backends : ℕ → Backend
  /-- The apply workers, by the peer whose changes they replay. -/
  workers : ν → WorkerPc
  /-- The nodes whose status in `pgactive_nodes` is killed. -/
  killed : List ν
  /-- The per-database worker. -/
  perdb : PerdbPc ν

/-- Shared memory without a lock, for a known number of nodes. -/
def LocksDb.unlocked (ν : Type) (nnodes : ℤ) : LocksDb ν where
  nnodes := nnodes
  lockedAndLoaded := true
  lockcount := 0
  lockHolder := none
  lockHolderLocalPid := none
  lockType := .nolock
  lockState := .nolock
  acquireConfirmed := 0
  acquireDeclined := 0
  replayConfirmed := 0
  replayConfirmedLsn := none

def Backend.fresh : Backend := ⟨false, .idle⟩

def LockNode.unlocked (ν : Type) (nnodes : ℤ) : LockNode ν where
  db := .unlocked ν nnodes
  rows := []
  insertLsn := 1
  backends := fun _ => .fresh
  workers := fun _ => .idle
  killed := []
  perdb := .idle

@[simps -fullyApplied db rows backends killed perdb]
def LockNode.setWorker [DecidableEq ν] (n : LockNode ν) (w : ν) (pc : WorkerPc) : LockNode ν :=
  { n with workers := Function.update n.workers w pc }

@[simps -fullyApplied db rows workers killed perdb]
def LockNode.setBackend (n : LockNode ν) (p : ℕ) (b : Backend) : LockNode ν :=
  { n with backends := Function.update n.backends p b }

section

variable [DecidableEq ν]

@[simp] theorem LockNode.setWorker_self (n : LockNode ν) (w : ν) (pc : WorkerPc) :
    (n.setWorker w pc).workers w = pc := by simp [setWorker]

theorem LockNode.setWorker_of_ne (n : LockNode ν) {w v : ν} (h : v ≠ w) (pc : WorkerPc) :
    (n.setWorker w pc).workers v = n.workers v := by simp [setWorker, h]

end

@[simp] theorem LockNode.setBackend_self (n : LockNode ν) (p : ℕ) (b : Backend) :
    (n.setBackend p b).backends p = b := by simp [setBackend]

theorem LockNode.setBackend_of_ne (n : LockNode ν) {p q : ℕ} (h : q ≠ p) (b : Backend) :
    (n.setBackend p b).backends q = n.backends q := by simp [setBackend, h]

end Pgactive.Locks
