import Pgactive.Locks.State
import Mathlib.Data.Finset.Card
import Mathlib.Data.Fintype.Basic

/-!
# Processing lock messages

What the apply worker of a peer does with each lock message, and the per-database worker at a start
and a detachment. `processMessage` runs a handler to the place where it leaves the lock on shared
memory, and `work` from one such place to the next. `none` is a `PANIC`.
-/

namespace Pgactive.Locks

variable {ν : Type} [DecidableEq ν]

/-- `locks_begin_scan`: the rows of the locks that `node` owns. -/
def LockNode.ownedRows (n : LockNode ν) (node : ν) : List (LockRow ν) :=
  n.rows.filter fun r => r.owner = node

/-- Apply `f` to the only row that `node` owns. No row and more than one row are the
panics "got lock in memory without corresponding lock table entry" (here also "got
confirmation for unknown lock") and "duplicate lock?". -/
def LockNode.updateOwnedRow (n : LockNode ν) (node : ν) (f : LockRow ν → LockRow ν) :
    Option (LockNode ν) :=
  if (n.ownedRows node).length = 1 then
    some { n with rows := n.rows.map fun r => if r.owner = node then f r else r }
  else none

def LockNode.sendConfirmLock (me : ν) (n : LockNode ν) (w : ν) :
    Option (LockNode ν × List (LockMessage ν)) := do
  -- an invalid origin stands for the local node
  let replay := n.db.lockHolder.getD me
  let n' ← n.updateOwnedRow replay fun r => { r with state := .acquired }
  return ({ n' with
      db := { n'.db with
        replayConfirmed := 0
        replayConfirmedLsn := none
        lockState := .peerConfirmed } }.setWorker w .done,
    [.confirmLock replay n.db.lockType])

/-- Where `pgactive_process_acquire_ddl_lock` goes on once the local lock is taken or its
upgrade is stored. Simple DDL locks are confirmed immediately. -/
def WorkerPc.afterGrant (upgrade : Bool) (lockType : LockType) : WorkerPc :=
  if LockType.write.level ≤ lockType.level then .cancelling upgrade lockType
  else if upgrade then .raisingConfirm lockType
  else .confirming

/-- `pgactive_process_acquire_ddl_lock`, the section that takes a free local lock for `w`. -/
def LockNode.takeLocalLock (n : LockNode ν) (w : ν) (lockType : LockType) : LockNode ν :=
  { n with
    rows := n.rows ++ [LockRow.mk lockType w .catchup]
    db := { n.db with
      lockState := .peerBeginCatchup
      lockcount := n.db.lockcount + 1
      lockType := lockType
      lockHolder := some w } }.setWorker w (.afterGrant false lockType)

/-- `pgactive_process_acquire_ddl_lock`, the section that stores the upgrade of a lock
that `w` holds. The type in memory is raised later. -/
def LockNode.upgradeLocalLock (n : LockNode ν) (w : ν) (lockType : LockType) :
    Option (LockNode ν) :=
  (n.updateOwnedRow w fun r => { r with lockType := lockType, state := .catchup }).map fun n' =>
    { n' with db := { n'.db with lockState := .peerBeginCatchup } }.setWorker w
      (.afterGrant true lockType)

def LockNode.processAcquireDdlLock (n : LockNode ν) (w : ν) (lockType : LockType) :
    Option (LockNode ν) :=
  if n.db.lockcount = 0 then
    -- the unique index of the table may still report a conflicting global lock; the
    -- announced state survives the aborted transaction
    if n.rows.any fun r => r.lockType = lockType ∧ r.owner = w then
      some (n.setWorker w (.declining true lockType))
    else some (n.takeLocalLock w lockType)
  else if n.db.lockHolder = some w ∧ n.db.lockType.level < lockType.level then
    n.upgradeLocalLock w lockType
  else some (n.setWorker w (.declining false lockType))

def LockNode.releaseLocalDdlLock (n : LockNode ν) (lock : ν) : LockNode ν :=
  if (n.ownedRows lock).isEmpty then n
  else { n with
    rows := n.rows.filter fun r => r.owner ≠ lock
    db := { n.db with
      lockState := .nolock
      lockcount := n.db.lockcount - 1
      lockHolder := none
      lockType := .nolock
      replayConfirmed := 0
      replayConfirmedLsn := none } }

def LockNode.processConfirmDdlLock (me : ν) (n : LockNode ν) (w lock : ν) (lockType : LockType) :
    LockNode ν :=
  if lock = me ∧ n.db.lockType = lockType then n.setWorker w .countingConfirm
  else n.setWorker w .done

/-- `pgactive_process_decline_ddl_lock` up to its section. The node that the message
names is read and not compared with anything. -/
def LockNode.processDeclineDdlLock (n : LockNode ν) (w _lock : ν) (lockType : LockType) :
    LockNode ν :=
  if n.db.lockType = lockType then n.setWorker w .countingDecline
  else n.setWorker w .done

def LocksDb.countsReplay (db : LocksDb ν) (lsn : ℕ) : Bool := db.replayConfirmedLsn = some lsn

def LockNode.processReplayConfirm (me : ν) (n : LockNode ν) (w : ν) (lsn : ℕ) :
    Option (LockNode ν × List (LockMessage ν)) :=
  if n.db.countsReplay lsn then
    let counted := { n with db := { n.db with replayConfirmed := n.db.replayConfirmed + 1 } }
    if n.db.nnodes ≤ n.db.replayConfirmed + 1 then counted.sendConfirmLock me w
    else some (counted.setWorker w .done, [])
  else some (n.setWorker w .done, [])

/-- `pgactive_locks_process_message` in the worker that replays `w`. Messages are not
relayed here, so they come from `w` and pass `check_is_my_origin_node`. -/
def LockNode.processMessage (me : ν) (n : LockNode ν) (w : ν) :
    LockMessage ν → Option (LockNode ν × List (LockMessage ν))
  | .start =>
    let found := (n.ownedRows w).length
    some (n.setWorker w (.clearing found (decide (0 < found))), [])
  | .acquireLock lockType => (n.processAcquireDdlLock w lockType).map (·, [])
  | .releaseLock lock => some ((n.releaseLocalDdlLock lock).setWorker w .done, [])
  | .confirmLock lock lockType => some (n.processConfirmDdlLock me w lock lockType, [])
  | .declineLock lock lockType => some (n.processDeclineDdlLock w lock lockType, [])
  | .requestReplayConfirm lsn => some (n.setWorker w .done, [.replayConfirm lsn])
  | .replayConfirm lsn => n.processReplayConfirm me w lsn

/-- `pgactive_locks_process_remote_startup`, the section for one row of the scan. -/
def LockNode.clearRow (n : LockNode ν) : LockNode ν :=
  if n.db.lockcount = 0 then n
  else { n with
    db := { n.db with
      lockcount := n.db.lockcount - 1
      lockHolder := none
      lockType := .nolock
      replayConfirmed := 0
      replayConfirmedLsn := none } }

/-- The worker of `w` goes on to its next cut. `cancelled` is what the loop of
`cancel_conflicting_transactions` returns, where the worker is in it. -/
def LockNode.work (me : ν) (n : LockNode ν) (w : ν) (cancelled : Bool) :
    Option (LockNode ν × List (LockMessage ν)) :=
  match n.workers w with
  | .countingConfirm =>
    some ({ n with db := { n.db with acquireConfirmed := n.db.acquireConfirmed + 1 } }.setWorker w
      .done, [])
  | .countingDecline =>
    some ({ n with db := { n.db with acquireDeclined := n.db.acquireDeclined + 1 } }.setWorker w
      .done, [])
  | .confirming => n.sendConfirmLock me w
  | .raisingConfirm lockType =>
    { n with db := { n.db with lockType := lockType } }.sendConfirmLock me w
  | .cancelling upgrade lockType =>
    some ({ n with db := { n.db with lockState := .peerCancelXacts } }.setWorker w
      (.examining upgrade lockType), [])
  | .examining upgrade lockType =>
    some (n.setWorker w (if cancelled then if upgrade then .raising lockType else .capturing
      else .declining false lockType), [])
  | .raising lockType =>
    some ({ n with db := { n.db with lockType := lockType } }.setWorker w .capturing, [])
  | .capturing => some (n.setWorker w (.requesting n.insertLsn), [])
  | .requesting lsn =>
    some ({ n with
      db := { n.db with
        replayConfirmed := 0
        replayConfirmedLsn := some lsn
        lockState := .peerCatchup } }.setWorker w .done,
      [.requestReplayConfirm lsn])
  | .declining announced lockType =>
    -- the transaction of the decline commits, and the callback stores what is announced
    some ((if announced then { n with db := { n.db with lockState := .peerBeginCatchup } }
      else n).setWorker w .done, [.declineLock w lockType])
  | .clearing (left + 1) found => some (n.clearRow.setWorker w (.clearing left found), [])
  | .clearing 0 found =>
    -- the commit deletes the rows, and its callback sets the state if there were any
    some ((if found then { n with
      rows := n.rows.filter fun r => r.owner ≠ w
      db := { n.db with lockState := .nolock } } else n).setWorker w .done, [])
  | .idle | .done | .stopped => none

/-- `pgactive_locks_startup`, the loop over the stored rows: what one row does to shared
memory and to the messages sent so far. -/
def LockNode.reacquire (acc : LockNode ν × List (LockMessage ν)) (row : LockRow ν) :
    LockNode ν × List (LockMessage ν) :=
  let (n, sent) := acc
  match row.state with
  | .acquired =>
    ({ n with
      db := { n.db with
        lockHolder := some row.owner
        lockcount := n.db.lockcount + 1
        lockType := row.lockType
        lockState := .peerConfirmed } }, sent)
  | .catchup =>
    -- restart the catchup period at the insert position of this moment
    let waitForLsn := n.insertLsn + sent.length
    ({ n with
      db := { n.db with
        lockHolder := some row.owner
        lockcount := n.db.lockcount + 1
        lockType := row.lockType
        lockState := .peerCatchup
        replayConfirmed := 0
        replayConfirmedLsn := some waitForLsn } }, sent ++ [.requestReplayConfirm waitForLsn])

/-- A crash of the node followed by `pgactive_locks_startup`: shared memory is new, the
backends are gone, and apply workers run again for the nodes that are not detached. -/
def LockNode.startup (n : LockNode ν) : LockNode ν × List (LockMessage ν) :=
  n.rows.foldl reacquire
    ({ n with
      db := .unlocked ν (-1)
      backends := fun _ => .fresh
      workers := fun w => if w ∈ n.killed then .stopped else .idle
      perdb := .idle }, [.start])

def LockNode.nodeDetached (me : ν) (n : LockNode ν) (node : ν) : LockNode ν :=
  if n.db.lockType ≠ .nolock ∧ n.db.lockHolder.getD me = node then n.releaseLocalDdlLock node
  else n

/-- `pgactive_maintain_db_workers`, the scan of the nodes. A detached node with a live
worker is still counted; one without is forgotten later in the pass. -/
def LockNode.maintainDbWorkers [Fintype ν] (me : ν) (n : LockNode ν) : LockNode ν :=
  { n with
    perdb := .maintaining (n.killed.filter fun j => n.workers j = .stopped)
      (Finset.univ.filter fun j => j ≠ me ∧ (j ∈ n.killed → n.workers j ≠ .stopped)) }

def LockNode.setNnodes (n : LockNode ν) (counted : Finset ν) : LockNode ν :=
  { n with db := { n.db with nnodes := counted.card }, perdb := .idle }

end Pgactive.Locks
