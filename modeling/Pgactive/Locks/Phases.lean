import Pgactive.Locks.Grants
import Pgactive.Locks.Sections

/-!
# The phases of the local lock across crashes

A crash loses shared memory and the places of all processes, a restarted worker reads messages
again, and the startup message of a peer clears its lock in two sections. The lock is then free,
owned by a backend, held for a peer with one row, or cleared with the row still there. Three hazards
of a run decide how much the phases say.
-/

namespace Pgactive.Locks

open BroadcastLog

variable {ν : Type}

/-- The situations in which shared memory and the stored row can differ. -/
structure Hazards where
  /-- The holder of a lock asks for a stronger one. -/
  upgrade : Bool
  /-- A node that owns a row sends a startup message. -/
  startup : Bool
  /-- A node restarts with the row of a DDL lock in state catchup. -/
  ddlCatchup : Bool

def LockState.isPeer : LockState → Bool
  | .peerBeginCatchup | .peerCancelXacts | .peerCatchup | .peerConfirmed => true
  | _ => false

/-- The worker is in the handler of a startup message and has found rows. -/
def WorkerPc.clears : WorkerPc → Bool
  | .clearing 0 false => false
  | .clearing .. => true
  | _ => false

def WorkerPc.raises : WorkerPc → Bool
  | .cancelling upgrade _ | .examining upgrade _ => upgrade
  | .raising _ | .raisingConfirm _ => true
  | _ => false

/-- The peer `k` holds the lock or its request is being granted, and `r` is its row. -/
structure LockNode.HeldRow (z : Hazards) (n : LockNode ν) (k : ν) (r : LockRow ν) : Prop where
  lockcount : n.db.lockcount = 1
  lockHolder : n.db.lockHolder = some k
  localPid : n.db.lockHolderLocalPid = none
  lockType : n.db.lockType ≠ .nolock
  lockState : n.db.lockState.isPeer = true
  replayLsn : n.db.replayConfirmedLsn ≠ none →
    n.db.lockState = .peerCatchup ∧ (n.db.lockType = .write ∨ z.ddlCatchup = true)
  rows : n.rows = [r]
  owner : r.owner = k
  rowState : r.state = .acquired ↔ n.db.lockState = .peerConfirmed
  rowType : r.lockType = n.db.lockType ∨ z.upgrade = true ∧ r.lockType = .write
  raises : (n.workers k).raises = true → z.upgrade = true ∧ r.lockType = .write
  clearing : (n.workers k).clears = true → z.startup = true ∧ n.workers k = .clearing 1 true
  fits : (n.workers k).Fits n.db.lockType n.db.lockState
  backends : ∀ p, n.backends p = .fresh
  workers : ∀ w, w ≠ k → (n.workers w).granting = false ∧ (n.workers w).clears = false

/-- The startup message of `k` has cleared the lock in memory, and its row `r` is still
stored. -/
structure LockNode.Cleared (n : LockNode ν) (k : ν) (r : LockRow ν) : Prop where
  lockcount : n.db.lockcount = 0
  lockHolder : n.db.lockHolder = none
  localPid : n.db.lockHolderLocalPid = none
  lockType : n.db.lockType = .nolock
  replayLsn : n.db.replayConfirmedLsn = none
  rows : n.rows = [r]
  owner : r.owner = k
  rowType : r.lockType ≠ .nolock
  granting : (n.workers k).granting = false
  clearing : (n.workers k).clears = true → ∃ left ≤ 1, n.workers k = .clearing left true
  backends : ∀ p, n.backends p = .fresh
  workers : ∀ w, w ≠ k → (n.workers w).granting = false ∧ (n.workers w).clears = false

/-- The lock of a node is in one of its phases. -/
inductive LockNode.Phase (z : Hazards) (n : LockNode ν) : Prop
  | free (h : n.Free) (htype : n.db.lockType = .nolock)
      (hclears : ∀ w, (n.workers w).clears = false)
  | own (p : ℕ) (h : n.OwnedBy p) (htype : n.db.lockType ≠ .nolock)
      (hclears : ∀ w, (n.workers w).clears = false)
  | held (k : ν) (r : LockRow ν) (h : n.HeldRow z k r)
  | cleared (k : ν) (r : LockRow ν) (h : n.Cleared k r) (hz : z.startup = true)

/-- A row is stored of which shared memory knows nothing. -/
def LockNode.Exposed (n : LockNode ν) : Prop := n.db.lockcount = 0 ∧ n.rows ≠ []

instance [DecidableEq ν] (n : LockNode ν) : Decidable n.Exposed :=
  inferInstanceAs (Decidable (_ ∧ _))

def LockNode.CatchupIsWrite (n : LockNode ν) : Prop :=
  ∀ r ∈ n.rows, r.state = .catchup → r.lockType = .write

instance (n : LockNode ν) : Decidable n.CatchupIsWrite :=
  inferInstanceAs (Decidable (∀ r ∈ n.rows, _))

theorem LockNode.unlocked_phase (z : Hazards) (nnodes : ℤ) :
    (unlocked ν nnodes).Phase z :=
  .free (by constructor <;> simp [unlocked, LocksDb.unlocked, WorkerPc.granting]) rfl
    fun _ => rfl

variable {pc : WorkerPc}

theorem WorkerPc.raises_of_granting (h : pc.granting = false) : pc.raises = false := by
  cases pc <;> first | rfl | cases h

variable {z : Hazards} {n : LockNode ν} {k : ν} {r : LockRow ν}

theorem LockNode.HeldRow.granting_eq_false (h : n.HeldRow z k r)
    (hlsn : n.db.replayConfirmedLsn ≠ none) : (n.workers k).granting = false := by
  have hfits := h.fits
  rw [(h.replayLsn hlsn).1] at hfits
  cases hpc : n.workers k with
  | declining announced lockType => rwa [hpc] at hfits
  | _ => simp [hpc, WorkerPc.Fits, WorkerPc.granting] at hfits ⊢

theorem LockNode.HeldRow.replayLsn_eq_none (h : n.HeldRow z k r)
    (hgrant : (n.workers k).granting = true) : n.db.replayConfirmedLsn = none := by
  by_contra hlsn
  simp [h.granting_eq_false hlsn] at hgrant

theorem LockNode.HeldRow.row_lockType_ne (h : n.HeldRow z k r) : r.lockType ≠ .nolock := by
  rcases h.rowType with htype | ⟨-, htype⟩
  · exact htype ▸ h.lockType
  · simp [htype]

theorem LockNode.Phase.rows_cases (h : n.Phase z) :
    n.rows = [] ∨ ∃ r, n.rows = [r] ∧ r.lockType ≠ .nolock := by
  cases h with
  | free h => exact .inl h.rows
  | own p h => exact .inl h.rows
  | held k r h => exact .inr ⟨r, h.rows, h.row_lockType_ne⟩
  | cleared k r h => exact .inr ⟨r, h.rows, h.rowType⟩

/-! ### What no phase depends on -/

theorem LockNode.Phase.setCounters (h : n.Phase z) (nnodes confirmed declined replayed : ℤ)
    (lsn : ℕ) (killed : List ν) (perdb : PerdbPc ν) :
    { n with
      db := { n.db with
        nnodes := nnodes
        acquireConfirmed := confirmed
        acquireDeclined := declined
        replayConfirmed := replayed }
      insertLsn := lsn
      killed := killed
      perdb := perdb }.Phase z := by
  cases h with
  | free h htype hclears => exact .free { h with } htype hclears
  | own p h htype hclears => exact .own p { h with } htype hclears
  | held k r h => exact .held k r { h with }
  | cleared k r h hz => exact .cleared k r { h with } hz

/-! ### Steps of a backend -/

variable {p : ℕ}

theorem LockNode.Phase.ownedBy (h : n.Phase z) (hp : n.backends p ≠ .fresh) :
    n.OwnedBy p ∧ n.db.lockType ≠ .nolock ∧ ∀ w, (n.workers w).clears = false := by
  cases h with
  | free h => exact absurd (h.backends p) hp
  | own q h htype hclears =>
    by_cases hq : p = q
    · exact ⟨hq ▸ h, htype, hclears⟩
    · exact absurd (h.backends p hq) hp
  | held k r h => exact absurd (h.backends p) hp
  | cleared k r h => exact absurd (h.backends p) hp

theorem LockNode.Phase.ownedBy_of_acquired (h : n.Phase z)
    (hacq : (n.backends p).thisXactAcquiredLock = true) :
    n.OwnedBy p ∧ n.db.lockType ≠ .nolock ∧ ∀ w, (n.workers w).clears = false :=
  h.ownedBy fun hp => by simp [hp, Backend.fresh] at hacq

theorem LockNode.Phase.setBackend_idle (h : n.Phase z)
    (hacq : (n.backends p).thisXactAcquiredLock = false) :
    n.setBackend p { n.backends p with pc := .idle } = n := by
  have hfresh : n.backends p = .fresh := by
    by_contra hne
    simp [(h.ownedBy hne).1.acquired] at hacq
  have hself : ({ n.backends p with pc := .idle } : Backend) = n.backends p := by
    rw [hfresh]
    rfl
  rw [hself, setBackend, Function.update_eq_self]

variable {lockType : LockType}

theorem LockNode.Phase.sendAcquire (h : n.Phase z)
    (hfree : (n.backends p).thisXactAcquiredLock = true ∨ n.db.lockcount ≤ 0)
    (hexposed : (n.backends p).thisXactAcquiredLock = true ∨ ¬n.Exposed)
    (htype : lockType ≠ .nolock) : (n.sendAcquire p lockType).1.Phase z := by
  cases h with
  | free h _ hclears =>
    exact .own p (Consistent.free h |>.sendAcquire hfree _) htype hclears
  | own q h _ hclears =>
    exact .own p (Consistent.own q h |>.sendAcquire hfree _) htype hclears
  | held k r h => simp [h.backends p, Backend.fresh, h.lockcount] at hfree
  | cleared k r h =>
    simp [h.backends p, Backend.fresh, Exposed, h.lockcount, h.rows] at hexposed

/-! ### Steps of an apply worker -/

theorem LockNode.HeldRow.confirm (h : n.HeldRow z k r) (hgrant : (n.workers k).granting = false) :
    { n with
      rows := [{ r with state := .acquired }]
      db := { n.db with
        replayConfirmed := 0
        replayConfirmedLsn := none
        lockState := .peerConfirmed } }.HeldRow z k { r with state := .acquired } :=
  { h with
    lockState := rfl
    replayLsn := by simp
    rows := rfl
    rowState := by simp
    fits := WorkerPc.fits_of_granting hgrant _ _ }

variable [DecidableEq ν]

variable {w : ν}

theorem LockNode.quiet_setWorker {v : ν} (hpc : pc.granting = false ∧ pc.clears = false)
    (hv : (n.workers v).granting = false ∧ (n.workers v).clears = false) :
    ((n.setWorker w pc).workers v).granting = false ∧
      ((n.setWorker w pc).workers v).clears = false := by
  by_cases hvw : v = w
  · simpa [hvw] using hpc
  · rwa [n.setWorker_of_ne hvw]

theorem LockNode.HeldRow.setWorker (h : n.HeldRow z k r)
    (hpc : pc.granting = false ∧ pc.clears = false) : (n.setWorker w pc).HeldRow z k r := by
  have hothers := fun v hv => quiet_setWorker (w := w) hpc (h.workers v hv)
  by_cases hk : k = w
  · subst hk
    have hraises := WorkerPc.raises_of_granting hpc.1
    exact { h with
      raises := by simp [hraises]
      clearing := by simp [hpc.2]
      fits := by simpa using WorkerPc.fits_of_granting hpc.1 _ _
      workers := hothers }
  · have hsame := n.setWorker_of_ne hk pc
    exact { h with
      raises := hsame ▸ h.raises
      clearing := hsame ▸ h.clearing
      fits := hsame ▸ h.fits
      workers := hothers }

theorem LockNode.Cleared.setWorker (h : n.Cleared k r)
    (hpc : pc.granting = false ∧ pc.clears = false) : (n.setWorker w pc).Cleared k r := by
  have hothers := fun v hv => quiet_setWorker (w := w) hpc (h.workers v hv)
  by_cases hk : k = w
  · subst hk
    exact { h with
      granting := by simpa using hpc.1
      clearing := by simp [hpc.2]
      workers := hothers }
  · have hsame := n.setWorker_of_ne hk pc
    exact { h with
      granting := hsame ▸ h.granting
      clearing := hsame ▸ h.clearing
      workers := hothers }

theorem LockNode.Phase.setWorker (h : n.Phase z) (hgrant : pc.granting = false)
    (hclears : pc.clears = false) : (n.setWorker w pc).Phase z := by
  have hworkers (v : ν) (hv : (n.workers v).granting = false ∧ (n.workers v).clears = false) :=
    quiet_setWorker (w := w) ⟨hgrant, hclears⟩ hv
  cases h with
  | free h htype hold =>
    exact .free { h with workers := fun v => (hworkers v ⟨h.workers v, hold v⟩).1 } htype
      fun v => (hworkers v ⟨h.workers v, hold v⟩).2
  | own p h htype hold =>
    exact .own p { h with workers := fun v => (hworkers v ⟨h.workers v, hold v⟩).1 } htype
      fun v => (hworkers v ⟨h.workers v, hold v⟩).2
  | held k r h => exact .held k r (h.setWorker ⟨hgrant, hclears⟩)
  | cleared k r h hz => exact .cleared k r (h.setWorker ⟨hgrant, hclears⟩) hz

theorem LockNode.Phase.heldRow_of_granting (h : n.Phase z) (hw : (n.workers w).granting = true) :
    ∃ r, n.HeldRow z w r := by
  cases h with
  | free h => simp [h.workers] at hw
  | own p h => simp [h.workers] at hw
  | held k r h =>
    by_cases hk : w = k
    · exact ⟨r, hk ▸ h⟩
    · simp [(h.workers w hk).1] at hw
  | cleared k r h =>
    by_cases hk : w = k
    · simp [hk, h.granting] at hw
    · simp [(h.workers w hk).1] at hw

theorem LockNode.Phase.of_clears (h : n.Phase z) (hw : (n.workers w).clears = true) :
    z.startup = true ∧
      ∃ r, n.HeldRow z w r ∧ n.workers w = .clearing 1 true ∨
        n.Cleared w r ∧ ∃ left ≤ 1, n.workers w = .clearing left true := by
  cases h with
  | free h _ hclears => simp [hclears] at hw
  | own p h _ hclears => simp [hclears] at hw
  | held k r h =>
    by_cases hk : w = k
    · subst hk
      obtain ⟨hz, hpc⟩ := h.clearing hw
      exact ⟨hz, r, .inl ⟨h, hpc⟩⟩
    · simp [(h.workers w hk).2] at hw
  | cleared k r h hz =>
    by_cases hk : w = k
    · subst hk
      exact ⟨hz, r, .inr ⟨h, h.clearing hw⟩⟩
    · simp [(h.workers w hk).2] at hw

theorem LockNode.ownedRows_of_rows_eq (h : n.rows = [r]) (w : ν) :
    n.ownedRows w = if r.owner = w then [r] else [] := by
  by_cases hw : r.owner = w <;> simp [ownedRows, h, hw]

theorem LockNode.ownedRows_of_rows_nil (h : n.rows = []) (w : ν) : n.ownedRows w = [] := by
  simp [ownedRows, h]

theorem LockNode.updateOwnedRow_of_rows_eq (h : n.rows = [r]) (f : LockRow ν → LockRow ν) :
    n.updateOwnedRow r.owner f = some { n with rows := [f r] } := by
  simp [updateOwnedRow, ownedRows_of_rows_eq h, h]

variable {me : ν} {n' : LockNode ν} {ms : List (LockMessage ν)}

theorem LockNode.HeldRow.sendConfirmLock (h : n.HeldRow z k r)
    (hplace : w = k ∨ (n.workers k).granting = false)
    (hn : n.sendConfirmLock me w = some (n', ms)) : n'.Phase z := by
  obtain rfl := h.owner
  have hreplay : n.db.lockHolder.getD me = r.owner := by rw [h.lockHolder, Option.getD_some]
  have hupdate := updateOwnedRow_of_rows_eq h.rows fun r => { r with state := .acquired }
  simp only [sendConfirmLock, hreplay, hupdate, Option.bind_eq_bind, Option.bind_some,
    Option.pure_def, Option.some.injEq, Prod.mk.injEq] at hn
  obtain ⟨rfl, -⟩ := hn
  have hdone : ((n.setWorker w .done).workers r.owner).granting = false := by
    rcases hplace with rfl | hgrant
    · simp [WorkerPc.granting]
    · by_cases hk : r.owner = w
      · simp [hk, WorkerPc.granting]
      · rwa [n.setWorker_of_ne hk]
  exact .held r.owner _ ((h.setWorker ⟨rfl, rfl⟩).confirm hdone)

theorem WorkerPc.afterGrant_eq (htype : lockType ≠ .nolock) (upgrade : Bool)
    (hupgrade : upgrade = true → lockType = .write) :
    afterGrant upgrade lockType =
      if lockType = .write then .cancelling upgrade .write else .confirming := by
  cases lockType with
  | nolock => exact absurd rfl htype
  | ddl => cases upgrade <;> simp_all [afterGrant, LockType.level]
  | write => simp [afterGrant]

theorem LockNode.Free.takeLocalLock_heldRow (h : n.Free)
    (hclears : ∀ w, (n.workers w).clears = false) (w : ν) (htype : lockType ≠ .nolock) :
    (n.takeLocalLock w lockType).HeldRow z w ⟨lockType, w, .catchup⟩ := by
  have hself : (n.takeLocalLock w lockType).workers w =
      if lockType = .write then .cancelling false .write else .confirming := by
    rw [← WorkerPc.afterGrant_eq htype false (by simp)]
    exact LockNode.setWorker_self _ _ _
  refine ⟨?_, rfl, h.localPid, htype, rfl, fun hlsn => absurd h.replayLsn hlsn, ?_, rfl, ?_,
    .inl rfl, ?_, ?_, ?_, h.backends, ?_⟩
  · simp [LockNode.takeLocalLock, h.lockcount]
  · simp [LockNode.takeLocalLock, h.rows]
  · simp [LockNode.takeLocalLock]
  · rw [hself]
    split <;> simp [WorkerPc.raises]
  · rw [hself]
    split <;> simp [WorkerPc.clears]
  · rw [hself]
    cases lockType with
    | nolock => exact absurd rfl htype
    | ddl => exact ⟨rfl, rfl⟩
    | write => exact ⟨rfl, rfl, rfl⟩
  · intro v hv
    rw [LockNode.takeLocalLock, LockNode.setWorker_of_ne _ hv]
    exact ⟨h.workers v, hclears v⟩

theorem LockNode.HeldRow.upgradeLocalLock (h : n.HeldRow z w r)
    (hz : z.upgrade = true ∧ z.ddlCatchup = false) (hlevel : n.db.lockType.level < lockType.level)
    (hn : n.upgradeLocalLock w lockType = some n') : n'.Phase z := by
  obtain ⟨hddl, rfl⟩ : n.db.lockType = .ddl ∧ lockType = .write := by
    have hheld := h.lockType
    cases htype : n.db.lockType <;> cases lockType <;> simp_all [LockType.level]
  obtain rfl := h.owner
  have hlsn : n.db.replayConfirmedLsn = none := by
    by_contra hlsn
    simpa [hddl, hz.2] using (h.replayLsn hlsn).2
  rw [upgradeLocalLock, updateOwnedRow_of_rows_eq h.rows, Option.map_some,
    Option.some.injEq] at hn
  subst hn
  refine .held r.owner ⟨.write, r.owner, .catchup⟩ ⟨h.lockcount, h.lockHolder, h.localPid,
    h.lockType, rfl, fun hne => absurd hlsn hne, rfl, rfl, by simp, .inr ⟨hz.1, rfl⟩, ?_, ?_, ?_,
    h.backends, ?_⟩
  all_goals simp only [setWorker_self, setWorker_db]
  · simp [hz.1]
  · simp [WorkerPc.afterGrant, WorkerPc.clears]
  · simp [WorkerPc.afterGrant, WorkerPc.Fits, hddl]
  · intro v hv
    rw [setWorker_of_ne _ hv]
    exact h.workers v hv

def LockNode.Accepts (z : Hazards) (n : LockNode ν) (w : ν) : LockMessage ν → Prop
  | .start => z.startup = true ∨ n.ownedRows w = []
  | .acquireLock lockType => ¬n.Exposed ∧ (n.db.lockHolder = some w →
    n.db.lockType.level < lockType.level → z.upgrade = true ∧ z.ddlCatchup = false)
  | .releaseLock _ => ¬n.Exposed
  | _ => True

theorem LockNode.Phase.processAcquireDdlLock (h : n.Phase z) (htype : lockType ≠ .nolock)
    (haccepts : n.Accepts z w (.acquireLock lockType))
    (hn : n.processAcquireDdlLock w lockType = some n') : n'.Phase z := by
  unfold LockNode.processAcquireDdlLock at hn
  split_ifs at hn with hcount hrow hupgrade
  · have hrows : n.rows ≠ [] := by
      intro hnil
      simp [hnil] at hrow
    exact absurd ⟨hcount, hrows⟩ haccepts.1
  · rw [← Option.some.inj hn]
    cases h with
    | free h _ hclears => exact .held w _ (h.takeLocalLock_heldRow hclears w htype)
    | own p h => simp [h.lockcount] at hcount
    | held k r h => simp [h.lockcount] at hcount
    | cleared k r h => exact absurd ⟨hcount, by simp [h.rows]⟩ haccepts.1
  · obtain ⟨hholder, hlevel⟩ := hupgrade
    cases h with
    | free h => simp [h.lockHolder] at hholder
    | own p h => simp [h.lockHolder] at hholder
    | held k r h =>
      obtain rfl : k = w := Option.some.inj (h.lockHolder.symm.trans hholder)
      exact h.upgradeLocalLock (haccepts.2 hholder hlevel) hlevel hn
    | cleared k r h => simp [h.lockHolder] at hholder
  · exact Option.some.inj hn ▸ h.setWorker rfl rfl

theorem LockNode.HeldRow.releaseLocalDdlLock (h : n.HeldRow z w r)
    (hgrant : (n.workers w).granting = false) (hclears : (n.workers w).clears = false) :
    (n.releaseLocalDdlLock w).Phase z := by
  obtain rfl := h.owner
  have hothers (v : ν) : (n.workers v).granting = false ∧ (n.workers v).clears = false := by
    by_cases hv : v = r.owner
    · exact hv ▸ ⟨hgrant, hclears⟩
    · exact h.workers v hv
  rw [releaseLocalDdlLock, ownedRows_of_rows_eq h.rows, if_pos rfl]
  refine .free ⟨?_, rfl, h.localPid, rfl, rfl, ?_, h.backends, fun v => (hothers v).1⟩ rfl
    fun v => (hothers v).2
  · simp [h.lockcount]
  · simp [h.rows]

theorem LockNode.releaseLocalDdlLock_of_not_owned (h : n.ownedRows w = []) :
    n.releaseLocalDdlLock w = n := by
  simp [releaseLocalDdlLock, h]

theorem LockNode.Phase.releaseLocalDdlLock (h : n.Phase z) (hexposed : ¬n.Exposed)
    (hgrant : (n.workers w).granting = false) (hclears : (n.workers w).clears = false) :
    (n.releaseLocalDdlLock w).Phase z := by
  cases h with
  | free h htype hold =>
    rw [releaseLocalDdlLock_of_not_owned (ownedRows_of_rows_nil h.rows w)]
    exact .free h htype hold
  | own p h htype hold =>
    rw [releaseLocalDdlLock_of_not_owned (ownedRows_of_rows_nil h.rows w)]
    exact .own p h htype hold
  | held k r h =>
    by_cases hk : k = w
    · exact (hk ▸ h).releaseLocalDdlLock hgrant hclears
    · rw [releaseLocalDdlLock_of_not_owned]
      · exact .held k r h
      · rw [ownedRows_of_rows_eq h.rows, h.owner, if_neg hk]
  | cleared k r h => exact absurd ⟨h.lockcount, by simp [h.rows]⟩ hexposed

theorem LockNode.Phase.processStart (h : n.Phase z) (haccepts : n.Accepts z w .start) :
    (n.setWorker w (.clearing (n.ownedRows w).length
      (decide (0 < (n.ownedRows w).length)))).Phase z := by
  by_cases howned : n.ownedRows w = []
  · rw [howned]
    exact h.setWorker rfl rfl
  have hz : z.startup = true := haccepts.resolve_right howned
  cases h with
  | free h => exact absurd (ownedRows_of_rows_nil h.rows w) howned
  | own p h => exact absurd (ownedRows_of_rows_nil h.rows w) howned
  | held k r h =>
    have hrows := ownedRows_of_rows_eq h.rows w
    obtain rfl : k = w := by
      by_contra hk
      exact howned (by rw [hrows, h.owner, if_neg hk])
    rw [hrows, if_pos h.owner]
    refine .held k r { h with raises := ?_, clearing := ?_, fits := ?_, workers := ?_ }
    · simp [WorkerPc.raises]
    · simp [hz]
    · simp [WorkerPc.Fits]
    · intro v hv
      rw [setWorker_of_ne _ hv]
      exact h.workers v hv
  | cleared k r h hz =>
    have hrows := ownedRows_of_rows_eq h.rows w
    obtain rfl : k = w := by
      by_contra hk
      exact howned (by rw [hrows, h.owner, if_neg hk])
    rw [hrows, if_pos h.owner]
    refine .cleared k r { h with granting := ?_, clearing := ?_, workers := ?_ } hz
    · simp [WorkerPc.granting]
    · exact fun _ => ⟨1, le_rfl, by simp⟩
    · intro v hv
      rw [setWorker_of_ne _ hv]
      exact h.workers v hv

theorem LockNode.Phase.processReplayConfirm (h : n.Phase z) {lsn : ℕ}
    (hn : n.processReplayConfirm me w lsn = some (n', ms)) : n'.Phase z := by
  have hcounted := h.setCounters n.db.nnodes n.db.acquireConfirmed n.db.acquireDeclined
    (n.db.replayConfirmed + 1) n.insertLsn n.killed n.perdb
  unfold LockNode.processReplayConfirm at hn
  split_ifs at hn with hcounts hfull
  · have hlsn : n.db.replayConfirmedLsn ≠ none := by
      have heq : n.db.replayConfirmedLsn = some lsn := of_decide_eq_true hcounts
      simp [heq]
    cases hcounted with
    | free h => exact absurd h.replayLsn hlsn
    | own p h => exact absurd h.replayLsn hlsn
    | held k r h => exact h.sendConfirmLock (.inr (h.granting_eq_false hlsn)) hn
    | cleared k r h => exact absurd h.replayLsn hlsn
  · cases hn
    exact hcounted.setWorker rfl rfl
  · cases hn
    exact h.setWorker rfl rfl

theorem LockNode.Phase.processMessage (h : n.Phase z) {m : LockMessage ν}
    (hw : n.workers w = .idle) (hm : m = .start ∨ m.SentBy w) (haccepts : n.Accepts z w m)
    (hn : n.processMessage me w m = some (n', ms)) : n'.Phase z := by
  cases m with
  | start =>
    cases hn
    exact h.processStart haccepts
  | acquireLock lockType =>
    obtain ⟨n₁, hn₁, heq⟩ := Option.map_eq_some_iff.mp hn
    obtain ⟨rfl, -⟩ := Prod.mk.inj heq
    exact h.processAcquireDdlLock (hm.resolve_left (by simp)) haccepts hn₁
  | releaseLock lock =>
    cases hn
    obtain rfl : lock = w := hm.resolve_left (by simp)
    exact (h.releaseLocalDdlLock haccepts (by simp [hw, WorkerPc.granting])
      (by simp [hw, WorkerPc.clears])).setWorker rfl rfl
  | confirmLock lock lockType =>
    cases hn
    unfold processConfirmDdlLock
    split_ifs <;> exact h.setWorker rfl rfl
  | declineLock lock lockType =>
    cases hn
    unfold processDeclineDdlLock
    split_ifs <;> exact h.setWorker rfl rfl
  | requestReplayConfirm lsn =>
    cases hn
    exact h.setWorker rfl rfl
  | replayConfirm lsn => exact h.processReplayConfirm hn

theorem LockNode.HeldRow.progress (h : n.HeldRow z k r)
    (hunconfirmed : n.db.lockState ≠ .peerConfirmed) {lockState : LockState} {replayed : ℤ}
    {lsn : Option ℕ} (htype : lockType = n.db.lockType ∨ lockType = .write ∧ r.lockType = .write)
    (hstate : lockState.isPeer = true) (hnew : lockState ≠ .peerConfirmed)
    (hlsn : lsn ≠ none → lockState = .peerCatchup ∧ lockType = .write)
    (hclears : pc.clears = false)
    (hraises : pc.raises = true → z.upgrade = true ∧ r.lockType = .write)
    (hfits : pc.Fits lockType lockState) :
    ({ n with
      db := { n.db with
        lockType := lockType
        lockState := lockState
        replayConfirmed := replayed
        replayConfirmedLsn := lsn } }.setWorker k pc).HeldRow z k r := by
  have hrow : r.state ≠ .acquired := fun hacq => hunconfirmed (h.rowState.mp hacq)
  refine { h with
    lockType := ?_, lockState := hstate, rowType := ?_, rowState := ?_
    replayLsn := fun hne => ⟨(hlsn hne).1, .inl (hlsn hne).2⟩
    raises := ?_, clearing := ?_, fits := ?_, workers := fun v hv => ?_ }
  · rcases htype with rfl | ⟨rfl, -⟩
    · exact h.lockType
    · simp
  · simp [hrow, hnew]
  · rcases htype with rfl | ⟨rfl, htype⟩
    · exact h.rowType
    · exact .inl htype
  · simpa using hraises
  · simp [hclears]
  · simpa using hfits
  · rw [setWorker_of_ne _ hv]
    exact h.workers v hv

theorem LockNode.HeldRow.clearRow (h : n.HeldRow z k r) :
    (n.clearRow.setWorker k (.clearing 0 true)).Cleared k r := by
  rw [LockNode.clearRow, if_neg (by simp [h.lockcount])]
  refine ⟨?_, rfl, h.localPid, rfl, rfl, h.rows, h.owner, h.row_lockType_ne, ?_, ?_, h.backends,
    fun v hv => ?_⟩
  · simp [h.lockcount]
  · simp [WorkerPc.granting]
  · exact fun _ => ⟨0, Nat.zero_le 1, by simp⟩
  · rw [LockNode.setWorker_of_ne _ hv]
    exact h.workers v hv

theorem LockNode.Cleared.deleteRow (h : n.Cleared k r) :
    ({ n with
      rows := n.rows.filter fun r => r.owner ≠ k
      db := { n.db with lockState := .nolock } }.setWorker k .done).Phase z := by
  have hworkers (v : ν) : ((n.setWorker k .done).workers v).granting = false ∧
      ((n.setWorker k .done).workers v).clears = false := by
    by_cases hv : v = k
    · subst hv
      simp [WorkerPc.granting, WorkerPc.clears]
    · exact quiet_setWorker ⟨rfl, rfl⟩ (h.workers v hv)
  refine .free ⟨h.lockcount, h.lockHolder, h.localPid, rfl, h.replayLsn, ?_, h.backends,
    fun v => (hworkers v).1⟩ h.lockType fun v => (hworkers v).2
  simp [h.rows, h.owner]

variable {cancelled : Bool}

theorem LockNode.Phase.work_clearing (h : n.Phase z) {left : ℕ} {found : Bool}
    (hpc : n.workers w = .clearing left found) (hn : n.work me w cancelled = some (n', ms)) :
    n'.Phase z := by
  simp only [work, hpc] at hn
  by_cases hclears : (n.workers w).clears = true
  · obtain ⟨hz, r, ⟨h, hplace⟩ | ⟨h, left', hleft, hplace⟩⟩ := h.of_clears hclears
    · obtain ⟨rfl, rfl⟩ : left = 1 ∧ found = true := by simpa [hpc] using hplace
      cases hn
      exact .cleared w r h.clearRow hz
    · obtain ⟨rfl, rfl⟩ : left = left' ∧ found = true := by simpa [hpc] using hplace
      rcases left with _ | left
      · cases hn
        exact h.deleteRow
      · -- shared memory is clear already
        cases hn
        obtain rfl : left = 0 := by omega
        rw [clearRow, if_pos h.lockcount]
        refine .cleared w r { h with granting := ?_, clearing := ?_, workers := fun v hv => ?_ } hz
        · simp [WorkerPc.granting]
        · exact fun _ => ⟨0, Nat.zero_le 1, by simp⟩
        · rw [setWorker_of_ne _ hv]
          exact h.workers v hv
  · obtain ⟨rfl, rfl⟩ : left = 0 ∧ found = false := by
      rw [hpc] at hclears
      rcases left with _ | left <;> cases found <;> simp_all [WorkerPc.clears]
    cases hn
    exact h.setWorker rfl rfl

theorem LockNode.HeldRow.work (h : n.HeldRow z w r) (hgrant : (n.workers w).granting = true)
    (hn : n.work me w cancelled = some (n', ms)) : n'.Phase z := by
  have hlsn := h.replayLsn_eq_none hgrant
  have hfits := h.fits
  have hraises := h.raises
  cases hpc : n.workers w with
  | confirming =>
    simp only [LockNode.work, hpc] at hn
    exact h.sendConfirmLock (.inl rfl) hn
  | raisingConfirm lockType =>
    rw [hpc] at hfits
    exact hfits.elim
  | cancelling upgrade lockType =>
    simp only [LockNode.work, hpc] at hn hfits hraises
    cases hn
    obtain ⟨rfl, htype, hstate⟩ := hfits
    exact .held w r (h.progress (by simp [hstate]) (.inl rfl) rfl (by simp)
      (fun hne => absurd hlsn hne) rfl hraises ⟨rfl, htype, rfl⟩)
  | examining upgrade lockType =>
    simp only [LockNode.work, hpc] at hn hfits hraises
    cases hn
    obtain ⟨rfl, htype, hstate⟩ := hfits
    cases cancelled with
    | false => exact .held w r (h.setWorker ⟨rfl, rfl⟩)
    | true =>
      cases upgrade with
      | false =>
        exact .held w r (h.progress (by simp [hstate]) (.inl rfl) h.lockState (by simp [hstate])
          (fun hne => absurd hlsn hne) rfl (by simp [WorkerPc.raises]) ⟨htype, hstate⟩)
      | true =>
        exact .held w r (h.progress (by simp [hstate]) (.inl rfl) h.lockState (by simp [hstate])
          (fun hne => absurd hlsn hne) rfl (fun _ => hraises rfl) ⟨rfl, hstate⟩)
  | raising lockType =>
    simp only [LockNode.work, hpc] at hn hfits hraises
    cases hn
    obtain ⟨rfl, hstate⟩ := hfits
    exact .held w r (h.progress (by simp [hstate]) (.inr ⟨rfl, (hraises rfl).2⟩) h.lockState
      (by simp [hstate]) (fun hne => absurd hlsn hne) rfl (by simp [WorkerPc.raises])
      ⟨rfl, hstate⟩)
  | capturing =>
    simp only [LockNode.work, hpc] at hn hfits
    cases hn
    obtain ⟨htype, hstate⟩ := hfits
    exact .held w r (h.progress (by simp [hstate]) (.inl rfl) h.lockState (by simp [hstate])
      (fun hne => absurd hlsn hne) rfl (by simp [WorkerPc.raises]) ⟨htype, hstate⟩)
  | requesting lsn =>
    simp only [LockNode.work, hpc] at hn hfits
    cases hn
    obtain ⟨htype, hstate⟩ := hfits
    exact .held w r (h.progress (by simp [hstate]) (.inl rfl) rfl (by simp)
      (fun _ => ⟨rfl, htype⟩) rfl (by simp [WorkerPc.raises]) trivial)
  | declining announced lockType =>
    rw [hpc] at hfits hgrant
    obtain rfl : announced = false := hfits
    cases hgrant
  | _ => simp [hpc, WorkerPc.granting] at hgrant

theorem LockNode.Phase.work (h : n.Phase z) (hn : n.work me w cancelled = some (n', ms)) :
    n'.Phase z := by
  by_cases hgrant : (n.workers w).granting = true
  · obtain ⟨r, hheld⟩ := h.heldRow_of_granting hgrant
    exact hheld.work hgrant hn
  cases hpc : n.workers w with
  | clearing left found => exact h.work_clearing hpc hn
  | countingConfirm =>
    simp only [LockNode.work, hpc] at hn
    cases hn
    exact (h.setCounters n.db.nnodes (n.db.acquireConfirmed + 1) n.db.acquireDeclined
      n.db.replayConfirmed n.insertLsn n.killed n.perdb).setWorker rfl rfl
  | countingDecline =>
    simp only [LockNode.work, hpc] at hn
    cases hn
    exact (h.setCounters n.db.nnodes n.db.acquireConfirmed (n.db.acquireDeclined + 1)
      n.db.replayConfirmed n.insertLsn n.killed n.perdb).setWorker rfl rfl
  | declining announced lockType =>
    obtain rfl : announced = false := by simpa [hpc, WorkerPc.granting] using hgrant
    simp only [LockNode.work, hpc] at hn
    cases hn
    exact h.setWorker rfl rfl
  | idle | done | stopped =>
    simp only [LockNode.work, hpc] at hn
    cases hn
  | _ => simp [hpc, WorkerPc.granting] at hgrant

/-! ### Detaching and starting again -/

def RowState.restored : RowState → LockState
  | .acquired => .peerConfirmed
  | .catchup => .peerCatchup

theorem RowState.acquired_iff_restored (state : RowState) :
    state = .acquired ↔ state.restored = .peerConfirmed := by
  cases state <;> simp [restored]

theorem LockNode.Phase.nodeDetached (h : n.Phase z) (me : ν) {j : ν} (hj : n.workers j = .stopped) :
    (n.nodeDetached me j).Phase z := by
  unfold LockNode.nodeDetached
  split_ifs with hheld
  · refine h.releaseLocalDdlLock ?_ (by simp [hj, WorkerPc.granting])
      (by simp [hj, WorkerPc.clears])
    rintro ⟨hcount, hrows⟩
    cases h with
    | free h => exact hrows h.rows
    | own p h => exact hrows h.rows
    | held k r h => simp [h.lockcount] at hcount
    | cleared k r h => exact hheld.1 h.lockType
  · exact h

end Pgactive.Locks
