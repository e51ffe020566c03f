import Pgactive.Locks.Consistency

/-!
# What an apply worker can do to its node

A worker either takes the local lock for the node it replays, or confirms a lock that was
taken, or does neither. This is said once, for the sections of all handlers together, and
the properties of the whole cluster are derived from it.
-/

namespace Pgactive.Locks

variable {ν : Type}

def LockMessage.neutral : LockMessage ν → Bool
  | .declineLock .. | .requestReplayConfirm _ | .replayConfirm _ => true
  | _ => false

/-- The messages that the nodes send as long as none of them crashes: a request names a
real type, and a release names its sender. -/
def LockMessage.SentBy (w : ν) : LockMessage ν → Prop
  | .start => False
  | .acquireLock lockType => lockType ≠ .nolock
  | .releaseLock lock => lock = w
  | _ => True

/-- What a step of the worker of `w` leaves alone. -/
structure LockNode.WorkerFrame (n : LockNode ν) (w : ν) (n' : LockNode ν) : Prop where
  backends : n'.backends = n.backends
  killed : n'.killed = n.killed
  perdb : n'.perdb = n.perdb
  localPid : n'.db.lockHolderLocalPid = n.db.lockHolderLocalPid
  nnodes : n'.db.nnodes = n.db.nnodes
  own : n.db.lockHolderLocalPid ≠ none →
    n'.db.lockType = n.db.lockType ∧ n'.db.lockState = n.db.lockState
  workers : ∀ v, v ≠ w → n'.workers v = n.workers v
  busy : n'.workers w ≠ .idle
  confirmed : n.workers w ≠ .countingConfirm → n'.db.acquireConfirmed = n.db.acquireConfirmed
  noClearing : ∀ left found, n'.workers w ≠ .clearing left found

/-- What a step of the worker of `w` does about the lock. -/
inductive LockNode.WorkerEffect (n : LockNode ν) (w : ν) (n' : LockNode ν) :
    List (LockMessage ν) → Prop
  | quiet {ms : List (LockMessage ν)} (hms : ∀ m ∈ ms, m.neutral = true)
      (hgrant : (n'.workers w).granting = true → (n.workers w).granting = true)
      (hpending : ∀ k, n'.Pending k → n.Pending k) : WorkerEffect n w n' ms
  /-- It takes or upgrades the local lock for `w`. -/
  | grant (hpid : n.db.lockHolderLocalPid = none) (hheld : n'.HeldFor w)
      (hgrant : (n'.workers w).granting = true) (hidle : n.workers w = .idle) :
      WorkerEffect n w n' []
  /-- It confirms the lock that was taken for `k`. -/
  | confirm {k : ν} {lockType : LockType} (hpending : n.Pending k)
      (hdone : ∀ v, ¬n'.Pending v) : WorkerEffect n w n' [.confirmLock k lockType]

theorem LockNode.WorkerFrame.idle {n n' : LockNode ν} {w : ν} (h : n.WorkerFrame w n') (v : ν)
    (hv : n'.workers v = .idle) : n.workers v = .idle := by
  by_cases hvw : v = w
  · exact absurd (hvw ▸ hv) h.busy
  · exact h.workers v hvw ▸ hv

theorem WorkerPc.granting_afterGrant (upgrade : Bool) (lockType : LockType) :
    (afterGrant upgrade lockType).granting = true := by
  unfold afterGrant
  split_ifs <;> rfl

/-- Where a message leads the worker that starts on it. -/
inductive LockNode.Delivered (me : ν) (n n' : LockNode ν) : LockMessage ν → WorkerPc → Prop
  | done (m : LockMessage ν) : Delivered me n n' m .done
  | clearing (left : ℕ) (found : Bool) : Delivered me n n' .start (.clearing left found)
  | declining (announced : Bool) (lockType : LockType) :
      Delivered me n n' (.acquireLock lockType) (.declining announced lockType)
  | granting (upgrade : Bool) (lockType : LockType) :
      Delivered me n n' (.acquireLock lockType) (.afterGrant upgrade lockType)
  | confirm (hdb : n'.db = n.db) :
      Delivered me n n' (.confirmLock me n.db.lockType) .countingConfirm
  | decline (lock : ν) : Delivered me n n' (.declineLock lock n.db.lockType) .countingDecline

variable {me : ν} {n n' : LockNode ν} {m : LockMessage ν} {pc : WorkerPc}

theorem LockNode.Delivered.acquireLock (h : Delivered me n n' m pc)
    (hgrant : pc.granting = true) : ∃ lockType, m = .acquireLock lockType := by
  cases h with
  | granting _ lockType | declining _ lockType => exact ⟨lockType, rfl⟩
  | _ => simp [WorkerPc.granting] at hgrant

theorem LockNode.Delivered.confirmLock (h : Delivered me n n' m .countingConfirm) :
    m = .confirmLock me n'.db.lockType := by
  generalize hpc : WorkerPc.countingConfirm = pc at h
  cases h with
  | granting upgrade lockType =>
    have hgrant := WorkerPc.granting_afterGrant upgrade lockType
    simp [← hpc, WorkerPc.granting] at hgrant
  | confirm hdb => rw [hdb]
  | _ => cases hpc

variable [DecidableEq ν]

variable {w : ν} {ms : List (LockMessage ν)}

theorem LockNode.place_of_sendConfirmLock (hn : n.sendConfirmLock me w = some (n', ms)) :
    n'.workers w = .done := by
  simp only [sendConfirmLock, Option.bind_eq_bind, Option.bind_eq_some_iff,
    Option.pure_def, Option.some.injEq, Prod.mk.injEq] at hn
  obtain ⟨_, -, rfl, -⟩ := hn
  simp

variable {lockType : LockType}

theorem LockNode.place_of_processAcquireDdlLock
    (hn : n.processAcquireDdlLock w lockType = some n') :
    Delivered me n n' (.acquireLock lockType) (n'.workers w) := by
  unfold processAcquireDdlLock at hn
  split_ifs at hn
  · rw [← Option.some.inj hn, setWorker_self]
    exact .declining _ lockType
  · rw [← Option.some.inj hn, takeLocalLock, setWorker_self]
    exact .granting _ lockType
  · obtain ⟨n₁, -, rfl⟩ := Option.map_eq_some_iff.mp hn
    rw [setWorker_self]
    exact .granting _ lockType
  · rw [← Option.some.inj hn, setWorker_self]
    exact .declining _ lockType

theorem LockNode.place_of_processMessage (hn : n.processMessage me w m = some (n', ms)) :
    Delivered me n n' m (n'.workers w) := by
  cases m with
  | start =>
    cases hn
    rw [setWorker_self]
    exact .clearing _ _
  | acquireLock lockType =>
    obtain ⟨n₁, hn₁, heq⟩ := Option.map_eq_some_iff.mp hn
    obtain ⟨rfl, -⟩ := Prod.mk.inj heq
    exact place_of_processAcquireDdlLock hn₁
  | releaseLock | requestReplayConfirm =>
    cases hn
    rw [setWorker_self]
    exact .done _
  | confirmLock lock lockType =>
    cases hn
    unfold processConfirmDdlLock
    split_ifs with hmine
    · obtain ⟨rfl, rfl⟩ := hmine
      rw [setWorker_self]
      exact .confirm rfl
    · rw [setWorker_self]
      exact .done _
  | declineLock lock lockType =>
    cases hn
    unfold processDeclineDdlLock
    split_ifs with htype
    · subst htype
      rw [setWorker_self]
      exact .decline lock
    · rw [setWorker_self]
      exact .done _
  | replayConfirm lsn =>
    have hdone : n'.workers w = .done := by
      simp only [processMessage, processReplayConfirm] at hn
      split_ifs at hn
      · exact place_of_sendConfirmLock hn
      all_goals
        cases hn
        simp
    exact hdone ▸ .done _

variable {cancelled : Bool}

theorem LockNode.place_of_work {r : LockNode ν × List (LockMessage ν)}
    (hn : n.work me w cancelled = some r) :
    n.workers w ≠ .idle ∧ n.workers w ≠ .done ∧ n.workers w ≠ .stopped := by
  refine ⟨?_, ?_, ?_⟩ <;> intro hw <;> simp [work, hw] at hn

theorem LockNode.place_after_work (hn : n.work me w cancelled = some (n', ms)) :
    n'.workers w ≠ .countingConfirm ∧ n'.workers w ≠ .countingDecline := by
  unfold work at hn
  split at hn
  case h_3 | h_4 => simp [place_of_sendConfirmLock hn]
  case h_6 upgrade lockType _ =>
    cases hn
    cases cancelled <;> cases upgrade <;> simp
  case h_13 | h_14 | h_15 => cases hn
  all_goals
    cases hn
    simp

theorem LockNode.workerFrame_setWorker (n : LockNode ν) (w : ν) (hpc : pc ≠ .idle)
    (hclear : ∀ left found, pc ≠ .clearing left found) : n.WorkerFrame w (n.setWorker w pc) where
  backends := rfl
  killed := rfl
  perdb := rfl
  localPid := rfl
  nnodes := rfl
  own := fun _ => ⟨rfl, rfl⟩
  workers := fun v hv => n.setWorker_of_ne hv pc
  busy := by simpa using hpc
  confirmed := fun _ => rfl
  noClearing := by simpa using hclear

variable {k : ν}

theorem LockNode.pending_of_setWorker (hpc : pc.granting = true → (n.workers w).granting = true)
    (hk : (n.setWorker w pc).Pending k) : n.Pending k := by
  rcases hk with hk | hk
  · by_cases hkw : k = w
    · subst hkw
      exact .inl (hpc (by simpa using hk))
    · rw [n.setWorker_of_ne hkw] at hk
      exact .inl hk
  · exact .inr hk

theorem LockNode.HeldFor.granting_eq_false (h : n.HeldFor k)
    (hlsn : n.db.replayConfirmedLsn ≠ none) (v : ν) : (n.workers v).granting = false := by
  by_cases hv : v = k
  · subst hv
    have hstate := (h.replayLsn hlsn).2
    have hfits := h.fits
    cases hpc : n.workers v <;> simp_all [WorkerPc.granting, WorkerPc.Fits]
  · exact h.workers v hv

theorem LockNode.HeldFor.sendConfirmLock (h : n.HeldFor k)
    (hworkers : ∀ v, v ≠ w → (n.workers v).granting = false)
    (hn : n.sendConfirmLock me w = some (n', ms)) :
    n'.HeldFor k ∧ n.WorkerFrame w n' ∧ ms = [.confirmLock k n.db.lockType] ∧
      ∀ v, ¬n'.Pending v := by
  obtain ⟨r, hr, howner, hrow⟩ := h.updateOwnedRow (f := fun r => { r with state := .acquired })
  simp only [LockNode.sendConfirmLock, h.lockHolder, Option.getD_some, hrow, Option.pure_def,
    Option.bind_eq_bind, Option.bind_some, Option.some.injEq, Prod.mk.injEq] at hn
  obtain ⟨rfl, rfl⟩ := hn
  have hgrant (v : ν) : (Function.update n.workers w WorkerPc.done v).granting = false := by
    by_cases hv : v = w
    · simp [hv, WorkerPc.granting]
    · simpa [hv] using hworkers v hv
  refine ⟨⟨h.lockcount, rfl, h.localPid, h.lockType, by simp, by simp, ?_, h.backends, ?_,
    fun v _ => hgrant v⟩, ?_, rfl, ?_⟩
  · exact ⟨_, rfl, howner⟩
  · exact WorkerPc.fits_of_granting (hgrant k) _ _
  · refine ⟨rfl, rfl, rfl, rfl, rfl, fun hpid => absurd h.localPid hpid, fun v hv => ?_, by simp,
      fun _ => rfl, by simp⟩
    simp [LockNode.setWorker, hv]
  · rintro v (hv | ⟨hlsn, -⟩)
    · exact Bool.false_ne_true ((hgrant v).symm.trans hv)
    · exact hlsn rfl

/-- Everything about one step of the worker of `w`. -/
structure LockNode.WorkerStep (n : LockNode ν) (w : ν) (n' : LockNode ν)
    (ms : List (LockMessage ν)) : Prop where
  consistent : n'.Consistent
  frame : n.WorkerFrame w n'
  effect : n.WorkerEffect w n' ms

theorem LockNode.Consistent.workerStep_setWorker (h : n.Consistent) (hidle : pc ≠ .idle)
    (hclear : ∀ left found, pc ≠ .clearing left found) (hpc : pc.granting = false)
    (hms : ∀ m ∈ ms, m.neutral = true) : n.WorkerStep w (n.setWorker w pc) ms where
  consistent := h.setWorker hpc
  frame := n.workerFrame_setWorker w hidle hclear
  effect := .quiet hms (by simp [hpc]) fun _ hk => pending_of_setWorker (by simp [hpc]) hk

theorem LockNode.Free.takeLocalLock (h : n.Free) (w : ν) (hw : n.workers w = .idle)
    (htype : lockType ≠ .nolock) : n.WorkerStep w (n.takeLocalLock w lockType) [] := by
  have hheld : (n.takeLocalLock w lockType).HeldFor w := by
    refine ⟨by simp [LockNode.takeLocalLock, h.lockcount], rfl, h.localPid, htype, .inl rfl,
      fun hlsn => absurd h.replayLsn hlsn, ⟨⟨lockType, w, .catchup⟩, ?_, rfl⟩, h.backends, ?_,
      fun v hv => ?_⟩
    · simp [LockNode.takeLocalLock, h.rows]
    · cases lockType <;> simp_all [LockNode.takeLocalLock, WorkerPc.afterGrant, LockType.level,
        WorkerPc.Fits]
    · simp [LockNode.takeLocalLock, LockNode.setWorker, hv, h.workers v]
  have hgrant : ((n.takeLocalLock w lockType).workers w).granting = true := by
    cases lockType <;> simp [LockNode.takeLocalLock, WorkerPc.afterGrant, LockType.level,
      WorkerPc.granting]
  refine ⟨.held w hheld, ⟨rfl, rfl, rfl, rfl, rfl, fun hpid => absurd h.localPid hpid,
    fun v hv => ?_, fun hidle => ?_, fun _ => rfl, fun left found hclear => ?_⟩,
    .grant h.localPid hheld hgrant hw⟩
  · simp [LockNode.takeLocalLock, LockNode.setWorker, hv]
  · simp [hidle, WorkerPc.granting] at hgrant
  · simp [hclear, WorkerPc.granting] at hgrant

theorem LockNode.HeldFor.upgradeLocalLock (h : n.HeldFor w) (hw : n.workers w = .idle)
    (htype : n.db.lockType.level < lockType.level) (hn : n.upgradeLocalLock w lockType = some n') :
    n.WorkerStep w n' [] := by
  obtain ⟨r, hr, howner, hrow⟩ :=
    h.updateOwnedRow (f := fun r => { r with lockType := lockType, state := .catchup })
  simp only [LockNode.upgradeLocalLock, hrow, Option.map_some, Option.some.injEq] at hn
  subst hn
  -- the held type is at least DDL, so this is the upgrade from DDL to write
  have hnolock := h.lockType
  have hddl : n.db.lockType = .ddl ∧ lockType = .write := by
    cases hheld : n.db.lockType <;> cases lockType <;> simp_all [LockType.level]
  obtain ⟨hddl, rfl⟩ := hddl
  have hlsn : n.db.replayConfirmedLsn = none := by
    by_contra hne
    simp [(h.replayLsn hne).1] at hddl
  have hheld : ({ { n with rows := [{ r with lockType := .write, state := .catchup }] } with
      db := { n.db with lockState := .peerBeginCatchup } }.setWorker w
      (.afterGrant true .write)).HeldFor w := by
    refine ⟨h.lockcount, h.lockHolder, h.localPid, h.lockType, .inl rfl,
      fun hne => absurd hlsn hne, ⟨_, rfl, howner⟩, h.backends, ?_, fun v hv => ?_⟩
    · simp [WorkerPc.afterGrant, WorkerPc.Fits, hddl]
    · simp [LockNode.setWorker, hv, h.workers v]
  refine ⟨.held w hheld, ⟨rfl, rfl, rfl, rfl, rfl, fun hpid => absurd h.localPid hpid,
    fun v hv => ?_, by simp [WorkerPc.afterGrant], fun _ => rfl,
    by simp [WorkerPc.afterGrant]⟩,
    .grant h.localPid hheld ?_ hw⟩
  · simp [LockNode.setWorker, hv]
  · simp [WorkerPc.afterGrant, WorkerPc.granting]

section

variable (h : n.Consistent)
include h

theorem LockNode.Consistent.processAcquireDdlLock (hw : n.workers w = .idle)
    (htype : lockType ≠ .nolock) (hn : n.processAcquireDdlLock w lockType = some n') :
    n.WorkerStep w n' [] := by
  have hdecline : n.WorkerStep w (n.setWorker w (.declining false lockType)) [] :=
    h.workerStep_setWorker (by simp) (by simp) rfl (by simp)
  unfold LockNode.processAcquireDdlLock at hn
  split_ifs at hn with hcount hdup hupgrade
  · simp [(h.free_of_lockcount hcount).rows] at hdup
  · exact Option.some.inj hn ▸ (h.free_of_lockcount hcount).takeLocalLock w hw htype
  · exact (h.heldFor hupgrade.1).upgradeLocalLock hw hupgrade.2 hn
  · exact Option.some.inj hn ▸ hdecline

theorem LockNode.Consistent.workerStep_count {confirmed : ℤ} (declined replayed : ℤ)
    (hconfirmed : n.workers w ≠ .countingConfirm → confirmed = n.db.acquireConfirmed) :
    n.WorkerStep w ({ n with
      db := { n.db with
        acquireConfirmed := confirmed
        acquireDeclined := declined
        replayConfirmed := replayed } }.setWorker w .done) [] := by
  refine ⟨?_, { n.workerFrame_setWorker w (by simp) (by simp) with confirmed := hconfirmed },
    .quiet (by simp) (by simp [WorkerPc.granting]) fun _ hk =>
      pending_of_setWorker (n := n) (by simp [WorkerPc.granting]) hk⟩
  have hdone : (n.setWorker w .done).Consistent := h.setWorker rfl
  cases hdone with
  | free h => exact .free { h with }
  | own p h => exact .own p { h with }
  | held k h => exact .held k { h with }

theorem LockNode.Consistent.processReplayConfirm {lsn : ℕ}
    (hn : n.processReplayConfirm me w lsn = some (n', ms)) : n.WorkerStep w n' ms := by
  simp only [LockNode.processReplayConfirm] at hn
  split_ifs at hn with hlsn hquorum
  · have hne : n.db.replayConfirmedLsn ≠ none := by
      simp only [LocksDb.countsReplay, decide_eq_true_eq] at hlsn
      simp [hlsn]
    cases h with
    | free h => exact absurd h.replayLsn hne
    | own p h => exact absurd h.replayLsn hne
    | held k h =>
      have hcounted : LockNode.HeldFor
          { n with db := { n.db with replayConfirmed := n.db.replayConfirmed + 1 } } k := { h with }
      obtain ⟨hheld, hframe, rfl, hdone⟩ :=
        hcounted.sendConfirmLock (fun v _ => h.granting_eq_false hne v) hn
      exact ⟨.held k hheld, { hframe with }, .confirm (.inr ⟨hne, h.lockHolder⟩) hdone⟩
  · cases hn
    exact h.workerStep_count _ _ fun _ => rfl
  · cases hn
    exact h.workerStep_setWorker (by simp) (by simp) rfl (by simp)

theorem LockNode.Consistent.workerStep_release (hw : n.workers w = .idle) :
    n.WorkerStep w ((n.releaseLocalDdlLock w).setWorker w .done) [] := by
  by_cases hholder : n.db.lockHolder = some w
  · have hheld := h.heldFor hholder
    have hfree := hheld.releaseLocalDdlLock (by simp [hw, WorkerPc.granting])
    refine ⟨(LockNode.Consistent.free hfree).setWorker rfl, ?_,
      .quiet (by simp) (by simp [WorkerPc.granting]) fun k hk => ?_⟩
    · rw [hheld.releaseLocalDdlLock_eq]
      refine ⟨rfl, rfl, rfl, rfl, rfl, fun hpid => absurd hheld.localPid hpid, fun v hv => ?_,
        by simp, fun _ => rfl, by simp⟩
      simp [LockNode.setWorker, hv]
    · have hreleased := LockNode.pending_of_setWorker (by simp [WorkerPc.granting]) hk
      exact absurd hreleased (hfree.not_pending k)
  · rw [h.releaseLocalDdlLock_eq hholder]
    exact h.workerStep_setWorker (by simp) (by simp) rfl (by simp)

theorem LockNode.Consistent.processMessage (hw : n.workers w = .idle)
    (hm : m.SentBy w) (hn : n.processMessage me w m = some (n', ms)) : n.WorkerStep w n' ms := by
  cases m with
  | start => cases hm
  | acquireLock lockType =>
    obtain ⟨n₁, hn₁, heq⟩ := Option.map_eq_some_iff.mp hn
    obtain ⟨rfl, rfl⟩ := Prod.mk.inj heq
    exact h.processAcquireDdlLock hw hm hn₁
  | releaseLock lock =>
    obtain rfl : lock = w := hm
    cases hn
    exact h.workerStep_release hw
  | confirmLock lock lockType =>
    cases hn
    unfold processConfirmDdlLock
    split_ifs <;> exact h.workerStep_setWorker (by simp) (by simp) rfl (by simp)
  | declineLock lock lockType =>
    cases hn
    unfold processDeclineDdlLock
    split_ifs <;> exact h.workerStep_setWorker (by simp) (by simp) rfl (by simp)
  | requestReplayConfirm lsn =>
    cases hn
    exact h.workerStep_setWorker (by simp) (by simp) rfl (by simp [LockMessage.neutral])
  | replayConfirm lsn => exact h.processReplayConfirm hn

end

theorem LockNode.HeldFor.workerStep_progress (h : n.HeldFor w)
    (hgrant : (n.workers w).granting = true) {lockState : LockState} {replayed : ℤ}
    {lsn : Option ℕ} (htype : lockType ≠ .nolock)
    (hstate : lockState = .peerBeginCatchup ∨ lockState = .peerCancelXacts ∨
      lockState = .peerCatchup ∨ lockState = .peerConfirmed)
    (hlsn : lsn ≠ none → lockType = .write ∧ lockState = .peerCatchup)
    (hfits : pc.Fits lockType lockState) (hidle : pc ≠ .idle)
    (hclear : ∀ left found, pc ≠ .clearing left found) (hms : ∀ m ∈ ms, m.neutral = true) :
    n.WorkerStep w ({ n with
      db := { n.db with
        lockType := lockType
        lockState := lockState
        replayConfirmed := replayed
        replayConfirmedLsn := lsn } }.setWorker w pc) ms := by
  refine ⟨.held w ⟨h.lockcount, h.lockHolder, h.localPid, htype, hstate, hlsn, h.rows, h.backends,
    by simpa using hfits, fun v hv => ?_⟩, ⟨rfl, rfl, rfl, rfl, rfl,
    fun hpid => absurd h.localPid hpid, fun v hv => ?_, by simpa using hidle,
    fun _ => rfl, by simpa using hclear⟩, .quiet hms (fun _ => hgrant) fun k hk => ?_⟩
  · simp [setWorker, hv, h.workers v]
  · simp [setWorker, hv]
  · -- the lock stays the one that is being granted to `w`
    have hkw : k = w := by
      by_contra hne
      rcases hk with hk | ⟨-, hk⟩
      · simp [setWorker, hne, h.workers k] at hk
      · exact hne (Option.some.inj (hk.symm.trans h.lockHolder))
    exact hkw ▸ .inl hgrant

theorem LockNode.Consistent.work (h : n.Consistent) (hclear : ∀ l f, n.workers w ≠ .clearing l f)
    (hn : n.work me w cancelled = some (n', ms)) : n.WorkerStep w n' ms := by
  -- a worker at a granting place works for the holder, and no replay is awaited yet
  have hgranting {pc : WorkerPc} (hw : n.workers w = pc) (hpc : pc.granting = true) :
      n.HeldFor w ∧ (n.workers w).granting = true ∧ n.db.replayConfirmedLsn = none ∧
        pc.Fits n.db.lockType n.db.lockState := by
    subst hw
    have hheld := h.heldFor_of_granting hpc
    refine ⟨hheld, hpc, ?_, hheld.fits⟩
    by_contra hne
    simp [hheld.granting_eq_false hne w] at hpc
  unfold LockNode.work at hn
  split at hn
  case h_1 hw =>
    cases hn
    exact h.workerStep_count _ _ fun hne => absurd hw hne
  case h_2 =>
    cases hn
    exact h.workerStep_count _ _ fun _ => rfl
  case h_3 hw =>
    obtain ⟨hheld, hgrant, -, -⟩ := hgranting hw rfl
    obtain ⟨hheld', hframe, rfl, hdone⟩ := hheld.sendConfirmLock hheld.workers hn
    exact ⟨.held w hheld', hframe, .confirm (.inl hgrant) hdone⟩
  case h_4 lockType hw => exact absurd (hgranting hw rfl).2.2.2 id
  case h_5 upgrade lockType hw =>
    cases hn
    obtain ⟨hheld, hgrant, hlsn, htype, hheldType, -⟩ := hgranting hw rfl
    exact hheld.workerStep_progress hgrant hheld.lockType (by simp) (absurd hlsn)
      ⟨htype, hheldType, rfl⟩ (by simp) (by simp) (by simp)
  case h_6 upgrade lockType hw =>
    cases hn
    obtain ⟨hheld, hgrant, hlsn, htype, hheldType, hstate⟩ := hgranting hw rfl
    refine hheld.workerStep_progress hgrant hheld.lockType hheld.lockState (absurd hlsn) ?_ ?_ ?_
      (by simp)
    · cases cancelled <;> cases upgrade <;> simp_all [WorkerPc.Fits]
    · cases cancelled <;> cases upgrade <;> simp
    · cases cancelled <;> cases upgrade <;> simp
  case h_7 lockType hw =>
    cases hn
    obtain ⟨hheld, hgrant, hlsn, rfl, hstate⟩ := hgranting hw rfl
    exact hheld.workerStep_progress hgrant (by simp) hheld.lockState (absurd hlsn)
      ⟨rfl, hstate⟩ (by simp) (by simp) (by simp)
  case h_8 hw =>
    cases hn
    obtain ⟨hheld, hgrant, hlsn, hfits⟩ := hgranting hw rfl
    exact hheld.workerStep_progress hgrant hheld.lockType hheld.lockState (absurd hlsn) hfits
      (by simp) (by simp) (by simp)
  case h_9 lsn hw =>
    cases hn
    obtain ⟨hheld, hgrant, -, htype, -⟩ := hgranting hw rfl
    exact hheld.workerStep_progress hgrant hheld.lockType (by simp) (fun _ => ⟨htype, rfl⟩) trivial
      (by simp) (by simp) (by simp [LockMessage.neutral])
  case h_10 announced lockType hw =>
    obtain rfl := h.announced_eq_false hw
    cases hn
    exact h.workerStep_setWorker (by simp) (by simp) rfl (by simp [LockMessage.neutral])
  case h_11 hw | h_12 hw => exact absurd hw (hclear _ _)
  all_goals cases hn

end Pgactive.Locks
