import Pgactive.Locks.State

/-!
# Acquiring the global lock in a user backend

`pgactive_acquire_ddl_lock` and the transaction callback. Each definition is one section under
`pgactive_locks_ctl->lock`, with the reads that precede the first one, and returns the messages it
sends. An error is the place `BackendPc.idle`: shared memory and `this_xact_acquired_lock` are left
as they are.
-/

namespace Pgactive.Locks

variable {ν : Type} (n : LockNode ν) (p : ℕ)

/-- The section that registers the request in shared memory and sends it. A transaction
that has acquired the lock before upgrades it, with the tally starting anew. -/
def LockNode.sendAcquire (lockType : LockType) : LockNode ν × List (LockMessage ν) :=
  let first := !(n.backends p).thisXactAcquiredLock
  ({ n with
      db := { n.db with
        lockcount := if first then n.db.lockcount + 1 else n.db.lockcount
        lockHolderLocalPid := if first then some p else n.db.lockHolderLocalPid
        lockHolder := none
        acquireConfirmed := 0
        acquireDeclined := 0
        lockType := lockType
        lockState := .acquireTallyConfirmations } }.setBackend p ⟨true, .tallying lockType⟩,
    [.acquireLock lockType])

def LockNode.acquireDdlLock (lockType : LockType) : LockNode ν × List (LockMessage ν) :=
  let b := n.backends p
  if b.thisXactAcquiredLock = true ∧ lockType.level ≤ n.db.lockType.level then
    -- No need to do anything if already holding requested lock.
    (n.setBackend p { b with pc := .returned lockType }, [])
  else if b.thisXactAcquiredLock = false ∧ n.db.nnodes < 0 then
    -- "no peer nodes or peer node count unknown, cannot acquire global lock"
    (n.setBackend p { b with pc := .idle }, [])
  else if b.thisXactAcquiredLock = false ∧ 0 < n.db.lockcount then
    -- "database is locked against ddl by another node"
    (n.setBackend p { b with pc := .idle }, [])
  else n.sendAcquire p lockType

theorem LockNode.acquireDdlLock_cases (lockType : LockType) :
    ((n.backends p).thisXactAcquiredLock = true ∧ lockType.level ≤ n.db.lockType.level ∧
      n.acquireDdlLock p lockType =
        (n.setBackend p { n.backends p with pc := .returned lockType }, [])) ∨
    ((n.backends p).thisXactAcquiredLock = false ∧
      n.acquireDdlLock p lockType = (n.setBackend p { n.backends p with pc := .idle }, [])) ∨
    (((n.backends p).thisXactAcquiredLock = true ∨ n.db.lockcount ≤ 0) ∧
      n.acquireDdlLock p lockType = n.sendAcquire p lockType) := by
  simp only [acquireDdlLock]
  split_ifs with hheld hunknown hlocked
  · exact .inl ⟨hheld.1, hheld.2, rfl⟩
  · exact .inr (.inl ⟨hunknown.1, rfl⟩)
  · exact .inr (.inl ⟨hlocked.1, rfl⟩)
  · refine .inr (.inr ⟨?_, rfl⟩)
    cases hacq : (n.backends p).thisXactAcquiredLock with
    | true => exact .inl rfl
    | false => exact .inr (not_lt.mp fun hpos => hlocked ⟨hacq, hpos⟩)

/-- One look at the tally. A single decline raises the error "could not acquire global
lock - another node has declined our lock request". -/
def LockNode.checkTally (lockType : LockType) : LockNode ν :=
  let b := n.backends p
  if 0 < n.db.acquireDeclined then n.setBackend p { b with pc := .idle }
  else if n.db.nnodes ≤ n.db.acquireConfirmed then n.setBackend p { b with pc := .quorum lockType }
  else n

/-- The last section of `pgactive_acquire_ddl_lock`, after which it returns. -/
def LockNode.finishAcquire (lockType : LockType) : LockNode ν :=
  { n with
    db := { n.db with
      acquireConfirmed := 0
      acquireDeclined := 0
      lockState := .acquireAcquired } }.setBackend p
    { n.backends p with pc := .returned lockType }

/-- `pgactive_lock_holder_xact_callback`, its message: sent before the lock on shared
memory is taken. -/
def LockNode.sendRelease (me : ν) (n : LockNode ν) (p : ℕ) : LockNode ν × List (LockMessage ν) :=
  (n.setBackend p { n.backends p with pc := .releasing }, [.releaseLock me])

def LockNode.releaseOwned : LockNode ν :=
  { n with
    db := { n.db with
      lockcount := if 0 < n.db.lockcount then n.db.lockcount - 1 else n.db.lockcount
      lockHolderLocalPid := none
      lockType := .nolock
      lockState := .nolock
      replayConfirmed := 0
      replayConfirmedLsn := none } }.setBackend p .fresh

def LocksDb.peerHasLock (db : LocksDb ν) (thisXactAcquiredLock : Bool) (minMode : LockType) :
    Bool :=
  !thisXactAcquiredLock && 0 < db.lockcount && minMode.level ≤ db.lockType.level &&
    db.lockHolder.isSome

/-- Whether `pgactive_locks_check_dml` lets the statement of backend `p` run now. -/
def LockNode.passesCheckDml : Bool :=
  n.db.lockedAndLoaded && !n.db.peerHasLock (n.backends p).thisXactAcquiredLock .write

end Pgactive.Locks
