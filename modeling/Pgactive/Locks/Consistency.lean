import Pgactive.Locks.Acquire
import Pgactive.Locks.Peer

/-!
# The phases of the local lock

As long as no node crashes, the lock of a node is free, acquired by one of its backends, or held for
a peer. Each phase fixes the counter, the holder, the rows and the places of the processes, and
implies the assertions of `pgactive_locks.c`.
-/

namespace Pgactive.Locks

variable {ν : Type}

/-- What the place of the holder's worker says about shared memory while it grants the
lock: a DDL lock is confirmed at once, a write lock after the transactions are cancelled,
and an upgrade raises the type in memory only then. -/
def WorkerPc.Fits : WorkerPc → LockType → LockState → Prop
  | .confirming, held, state => held = .ddl ∧ state = .peerBeginCatchup
  | .raisingConfirm _, _, _ => False
  | .cancelling upgrade lockType, held, state =>
    lockType = .write ∧ held = (if upgrade then .ddl else .write) ∧ state = .peerBeginCatchup
  | .examining upgrade lockType, held, state =>
    lockType = .write ∧ held = (if upgrade then .ddl else .write) ∧ state = .peerCancelXacts
  | .raising lockType, _, state => lockType = .write ∧ state = .peerCancelXacts
  | .capturing, held, state | .requesting _, held, state =>
    held = .write ∧ state = .peerCancelXacts
  | .declining announced _, _, _ => announced = false
  | _, _, _ => True

/-- Nobody holds the lock. -/
structure LockNode.Free (n : LockNode ν) : Prop where
  lockcount : n.db.lockcount = 0
  lockHolder : n.db.lockHolder = none
  localPid : n.db.lockHolderLocalPid = none
  lockState : n.db.lockState = .nolock
  replayLsn : n.db.replayConfirmedLsn = none
  rows : n.rows = []
  backends : ∀ p, n.backends p = .fresh
  workers : ∀ w, (n.workers w).granting = false

/-- The local backend `p` holds the lock or is acquiring it. -/
structure LockNode.OwnedBy (n : LockNode ν) (p : ℕ) : Prop where
  lockcount : n.db.lockcount = 1
  lockHolder : n.db.lockHolder = none
  localPid : n.db.lockHolderLocalPid = some p
  lockState : n.db.lockState = .acquireTallyConfirmations ∨ n.db.lockState = .acquireAcquired
  replayLsn : n.db.replayConfirmedLsn = none
  rows : n.rows = []
  acquired : (n.backends p).thisXactAcquiredLock = true
  /-- Only the place of `p` says for which type it waits. -/
  waits : ∀ lockType, (n.backends p).pc = .tallying lockType ∨
    (n.backends p).pc = .quorum lockType → n.db.lockType = lockType
  backends : ∀ q, q ≠ p → n.backends q = .fresh
  workers : ∀ w, (n.workers w).granting = false

/-- The peer `h` holds the lock or its request is being granted. -/
structure LockNode.HeldFor (n : LockNode ν) (h : ν) : Prop where
  lockcount : n.db.lockcount = 1
  lockHolder : n.db.lockHolder = some h
  localPid : n.db.lockHolderLocalPid = none
  lockType : n.db.lockType ≠ .nolock
  lockState : n.db.lockState = .peerBeginCatchup ∨ n.db.lockState = .peerCancelXacts ∨
    n.db.lockState = .peerCatchup ∨ n.db.lockState = .peerConfirmed
  replayLsn : n.db.replayConfirmedLsn ≠ none →
    n.db.lockType = .write ∧ n.db.lockState = .peerCatchup
  rows : ∃ r, n.rows = [r] ∧ r.owner = h
  backends : ∀ p, n.backends p = .fresh
  fits : (n.workers h).Fits n.db.lockType n.db.lockState
  workers : ∀ w, w ≠ h → (n.workers w).granting = false

/-- The lock of a node is in one of its phases. -/
inductive LockNode.Consistent (n : LockNode ν) : Prop
  | free (h : n.Free)
  | own (p : ℕ) (h : n.OwnedBy p)
  | held (w : ν) (h : n.HeldFor w)

theorem LockNode.unlocked_consistent (nnodes : ℤ) : (unlocked ν nnodes).Consistent :=
  .free (by constructor <;> simp [unlocked, LocksDb.unlocked, WorkerPc.granting])

/-- The local lock is taken for `k` and not confirmed yet. -/
def LockNode.Pending (n : LockNode ν) (k : ν) : Prop :=
  (n.workers k).granting = true ∨ n.db.replayConfirmedLsn ≠ none ∧ n.db.lockHolder = some k

theorem WorkerPc.fits_of_granting {pc : WorkerPc} (h : pc.granting = false)
    (lockType : LockType) (lockState : LockState) : pc.Fits lockType lockState := by
  cases pc <;> trivial

variable {n : LockNode ν}

theorem LockNode.Free.not_pending (h : n.Free) (k : ν) : ¬n.Pending k := by
  simp [Pending, h.workers, h.replayLsn]

variable {p : ℕ}

theorem LockNode.OwnedBy.not_pending (h : n.OwnedBy p) (k : ν) : ¬n.Pending k := by
  simp [Pending, h.workers, h.replayLsn]

variable {w : ν}

theorem LockNode.HeldFor.eq_of_pending {k : ν} (h : n.HeldFor w) (hk : n.Pending k) : k = w := by
  rcases hk with hk | ⟨-, hk⟩
  · by_contra hne
    simp [h.workers k hne] at hk
  · rw [h.lockHolder] at hk
    exact (Option.some.inj hk).symm

section

variable (h : n.Consistent)
include h

theorem LockNode.Consistent.free_of_lockcount (hcount : n.db.lockcount = 0) : n.Free := by
  cases h with
  | free h => exact h
  | own p h => simp [h.lockcount] at hcount
  | held w h => simp [h.lockcount] at hcount

theorem LockNode.Consistent.heldFor (hw : n.db.lockHolder = some w) : n.HeldFor w := by
  cases h with
  | free h => simp [h.lockHolder] at hw
  | own p h => simp [h.lockHolder] at hw
  | held v h =>
    rw [h.lockHolder] at hw
    exact Option.some.inj hw ▸ h

theorem LockNode.Consistent.heldFor_of_granting (hw : (n.workers w).granting = true) :
    n.HeldFor w := by
  cases h with
  | free h => simp [h.workers] at hw
  | own p h => simp [h.workers] at hw
  | held v h => exact h.eq_of_pending (.inl hw) ▸ h

theorem LockNode.Consistent.announced_eq_false {announced : Bool}
    {lockType : LockType} (hw : n.workers w = .declining announced lockType) :
    announced = false := by
  cases announced with
  | false => rfl
  | true =>
    have hheld := h.heldFor_of_granting (w := w) (by simp [hw, WorkerPc.granting])
    have hfits := hheld.fits
    rw [hw] at hfits
    exact hfits

theorem LockNode.Consistent.ownedBy (hp : n.backends p ≠ .fresh) : n.OwnedBy p := by
  cases h with
  | free h => exact absurd (h.backends p) hp
  | own q h =>
    by_cases hq : p = q
    · exact hq ▸ h
    · exact absurd (h.backends p hq) hp
  | held w h => exact absurd (h.backends p) hp

theorem LockNode.Consistent.localPid_ne_none
    (hq : n.db.lockState = .acquireAcquired ∨ ∃ p lockType, (n.backends p).pc = .quorum lockType) :
    n.db.lockHolderLocalPid ≠ none := by
  rcases hq with hstate | ⟨p, lockType, hpc⟩
  · cases h with
    | free h => simp [h.lockState] at hstate
    | own p h => simp [h.localPid]
    | held k h => rcases h.lockState with hk | hk | hk | hk <;> simp [hk] at hstate
  · have howned := h.ownedBy (p := p) fun hp => by simp [hp, Backend.fresh] at hpc
    simp [howned.localPid]

theorem LockNode.Consistent.setPerdb (nnodes : ℤ) (lsn : ℕ) (killed : List ν) (perdb : PerdbPc ν) :
    { n with
      db := { n.db with nnodes := nnodes }
      insertLsn := lsn
      killed := killed
      perdb := perdb }.Consistent := by
  cases h with
  | free h => exact .free { h with }
  | own p h => exact .own p { h with }
  | held k h => exact .held k { h with }

end

/-! ### Steps of a backend -/

theorem LockNode.OwnedBy.setBackend (h : n.OwnedBy p) {pc : BackendPc}
    (htype : ∀ lockType, pc = .tallying lockType ∨ pc = .quorum lockType →
      n.db.lockType = lockType) : (n.setBackend p { n.backends p with pc := pc }).OwnedBy p :=
  { h with
    acquired := by simp [h.acquired]
    waits := by simpa using htype
    backends := fun q hq => by rw [n.setBackend_of_ne hq, h.backends q hq] }

theorem LockNode.Consistent.sendAcquire (h : n.Consistent)
    (hfree : (n.backends p).thisXactAcquiredLock = true ∨ n.db.lockcount ≤ 0)
    (lockType : LockType) : (n.sendAcquire p lockType).1.OwnedBy p := by
  cases hacq : (n.backends p).thisXactAcquiredLock with
  | true =>
    have h := h.ownedBy (p := p) fun hp => by simp [hp, Backend.fresh] at hacq
    constructor <;> simp [LockNode.sendAcquire, hacq, h.lockcount, h.localPid, h.replayLsn, h.rows,
      h.workers]
    intro q hq
    simp [LockNode.setBackend, hq, h.backends q hq]
  | false =>
    have hcount := hfree.resolve_left (by simp [hacq])
    have h : n.Free := by
      cases h with
      | free h => exact h
      | own q h => simp [h.lockcount] at hcount
      | held w h => simp [h.lockcount] at hcount
    constructor <;> simp [LockNode.sendAcquire, hacq, h.lockcount, h.replayLsn, h.rows, h.workers]
    intro q hq
    simp [LockNode.setBackend, hq, h.backends q]

theorem LockNode.Consistent.backend_eq_fresh (h : n.Consistent)
    (hacq : (n.backends p).thisXactAcquiredLock = false) : n.backends p = .fresh := by
  by_contra hne
  simp [(h.ownedBy hne).acquired] at hacq

theorem LockNode.Consistent.setBackend_idle (h : n.Consistent)
    (hacq : (n.backends p).thisXactAcquiredLock = false) :
    n.setBackend p { n.backends p with pc := .idle } = n := by
  have hself : ({ n.backends p with pc := .idle } : Backend) = n.backends p := by
    rw [h.backend_eq_fresh hacq]
    rfl
  rw [hself, setBackend, Function.update_eq_self]

theorem LockNode.Consistent.ownedBy_of_acquired (h : n.Consistent)
    (hacq : (n.backends p).thisXactAcquiredLock = true) : n.OwnedBy p :=
  h.ownedBy fun hp => by simp [hp, Backend.fresh] at hacq

theorem LockNode.OwnedBy.checkTally (h : n.OwnedBy p) {lockType : LockType}
    (hpc : (n.backends p).pc = .tallying lockType) : (n.checkTally p lockType).OwnedBy p := by
  unfold LockNode.checkTally
  split_ifs
  · exact h.setBackend (by simp)
  · exact h.setBackend fun t ht => by
      rw [h.waits lockType (.inl hpc)]
      simpa using ht
  · exact h

theorem LockNode.OwnedBy.finishAcquire (h : n.OwnedBy p) (lockType : LockType) :
    (n.finishAcquire p lockType).OwnedBy p :=
  { h with
    lockState := .inr rfl
    acquired := by simp [LockNode.finishAcquire, h.acquired]
    waits := by simp [LockNode.finishAcquire]
    backends := fun q hq => by
      simp [LockNode.finishAcquire, LockNode.setBackend, hq, h.backends q] }

theorem LockNode.OwnedBy.releaseOwned (h : n.OwnedBy p) : (n.releaseOwned p).Free := by
  refine ⟨by simp [LockNode.releaseOwned, h.lockcount], h.lockHolder, rfl, rfl, rfl, h.rows,
    fun q => ?_, h.workers⟩
  by_cases hq : q = p
  · simp [LockNode.releaseOwned, hq]
  · simp [LockNode.releaseOwned, LockNode.setBackend, hq, h.backends q]

/-! ### Steps of an apply worker -/

section

variable [DecidableEq ν]

variable {n : LockNode ν} {w : ν}

theorem LockNode.Consistent.setWorker (h : n.Consistent) {pc : WorkerPc}
    (hpc : pc.granting = false) : (n.setWorker w pc).Consistent := by
  have hworkers (v : ν) (hv : (n.workers v).granting = false) :
      ((n.setWorker w pc).workers v).granting = false := by
    by_cases hvw : v = w
    · simpa [hvw] using hpc
    · rwa [n.setWorker_of_ne hvw]
  cases h with
  | free h => exact .free { h with workers := fun v => hworkers v (h.workers v) }
  | own p h => exact .own p { h with workers := fun v => hworkers v (h.workers v) }
  | held k h =>
    refine .held k { h with fits := ?_, workers := fun v hv => hworkers v (h.workers v hv) }
    by_cases hk : k = w
    · simpa [hk] using WorkerPc.fits_of_granting hpc _ _
    · rw [n.setWorker_of_ne hk]
      exact h.fits

theorem LockNode.HeldFor.ownedRows {k : ν} (h : n.HeldFor k) (w : ν) :
    n.ownedRows w = if w = k then n.rows else [] := by
  obtain ⟨r, hr, rfl⟩ := h.rows
  by_cases hw : w = r.owner
  · simp [LockNode.ownedRows, hr, hw]
  · simp [LockNode.ownedRows, hr, hw, Ne.symm hw]

theorem LockNode.Consistent.releaseLocalDdlLock_eq (h : n.Consistent)
    (hw : n.db.lockHolder ≠ some w) : n.releaseLocalDdlLock w = n := by
  have hrows : n.ownedRows w = [] := by
    cases h with
    | free h => simp [ownedRows, h.rows]
    | own p h => simp [ownedRows, h.rows]
    | held k h =>
      rw [h.ownedRows, if_neg]
      rintro rfl
      exact hw h.lockHolder
  simp [releaseLocalDdlLock, hrows]

theorem LockNode.HeldFor.releaseLocalDdlLock_eq (h : n.HeldFor w) :
    n.releaseLocalDdlLock w = { n with
      rows := []
      db := { n.db with
        lockState := .nolock
        lockcount := 0
        lockHolder := none
        lockType := .nolock
        replayConfirmed := 0
        replayConfirmedLsn := none } } := by
  obtain ⟨r, hr, howner⟩ := h.rows
  simp [releaseLocalDdlLock, h.ownedRows, hr, howner, h.lockcount]

theorem LockNode.HeldFor.releaseLocalDdlLock (h : n.HeldFor w)
    (hw : (n.workers w).granting = false) : (n.releaseLocalDdlLock w).Free := by
  rw [h.releaseLocalDdlLock_eq]
  refine ⟨rfl, rfl, h.localPid, rfl, rfl, rfl, h.backends, fun v => ?_⟩
  by_cases hv : v = w
  · rw [hv]
    exact hw
  · exact h.workers v hv

theorem LockNode.Consistent.nodeDetached_cases (h : n.Consistent) (me j : ν) :
    n.nodeDetached me j = n ∨
      n.HeldFor j ∧ n.nodeDetached me j = n.releaseLocalDdlLock j := by
  unfold nodeDetached
  split_ifs
  · by_cases hholder : n.db.lockHolder = some j
    · exact .inr ⟨h.heldFor hholder, rfl⟩
    · exact .inl (h.releaseLocalDdlLock_eq hholder)
  · exact .inl rfl

theorem LockNode.HeldFor.updateOwnedRow (h : n.HeldFor w) {f : LockRow ν → LockRow ν} :
    ∃ r, n.rows = [r] ∧ r.owner = w ∧ n.updateOwnedRow w f = some { n with rows := [f r] } := by
  obtain ⟨r, hr, rfl⟩ := h.rows
  exact ⟨r, hr, rfl, by simp [updateOwnedRow, h.ownedRows, hr]⟩

end

end Pgactive.Locks
