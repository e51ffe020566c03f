import Pgactive.Locks.Peer

/-!
# Lock states that take effect at commit

A worker announces the state that the lock is to have once its transaction commits, in a variable of
the process that a callback stores at the next commit. The callback does not react to aborts, so
what an aborted transaction has announced waits for the next one that commits.
-/

namespace Pgactive.Locks

inductive XactEvent
  | commit
  | parallelCommit
  | abort
  | parallelAbort
  | prepare
  | preCommit
  | parallelPreCommit
  | prePrepare
  deriving DecidableEq

structure LockXactCallbackInfo where
  commitPendingLockState : LockState
  pending : Bool
  deriving DecidableEq

/-- What a worker process works on. -/
structure LockWorker where
  /-- `pgactive_lock_state_xact_callback_info`. -/
  info : LockXactCallbackInfo
  registered : Bool
  /-- `lock_state` in shared memory. -/
  lockState : LockState
  deriving DecidableEq

def LockWorker.start (lockState : LockState) : LockWorker := ⟨⟨.nolock, false⟩, false, lockState⟩

def LockWorker.setCommitPendingState (w : LockWorker) (state : LockState) : LockWorker :=
  { w with registered := true, info := ⟨state, true⟩ }

def LockWorker.stateXactCallback (w : LockWorker) (event : XactEvent) :
    LockWorker × Option LockState :=
  if event = .commit ∧ w.info.pending then
    ({ w with lockState := w.info.commitPendingLockState, info.pending := false },
      some w.info.commitPendingLockState)
  else (w, none)

def LockWorker.callXactCallbacks (w : LockWorker) (event : XactEvent) :
    LockWorker × Option LockState :=
  if w.registered then w.stateXactCallback event else (w, none)

/-- A transaction of the worker. -/
structure LockXact where
  sets : List LockState
  commits : Bool
  deriving DecidableEq

def LockXact.events (x : LockXact) : List XactEvent :=
  if x.commits then [.preCommit, .commit] else [.abort]

def LockWorker.fire (w : LockWorker) : List XactEvent → LockWorker × List LockState
  | [] => (w, [])
  | event :: events =>
    let (w', stored) := w.callXactCallbacks event
    let (w'', rest) := w'.fire events
    (w'', stored.toList ++ rest)

/-- A transaction from its start to its end: the process afterwards, and what the end of the
transaction stores in `lock_state`. -/
def LockWorker.runXact (w : LockWorker) (x : LockXact) : LockWorker × List LockState :=
  (x.sets.foldl setCommitPendingState w).fire x.events

/-- What happens to a worker. -/
inductive LockWorkerStep
  | xact (x : LockXact)
  /-- Somebody stores a state in shared memory directly. -/
  | store (state : LockState)
  /-- The process ends, and the postmaster starts it again. -/
  | restart
  deriving DecidableEq

def LockWorker.step (w : LockWorker) : LockWorkerStep → LockWorker
  | .xact x => (w.runXact x).1
  | .store state => { w with lockState := state }
  | .restart => .start w.lockState

def LockWorker.run (w : LockWorker) (steps : List LockWorkerStep) : LockWorker :=
  steps.foldl step w

def LockXact.due (x : LockXact) : List LockState :=
  if x.commits then x.sets.getLast?.toList else []

def TiedToXact (lockState : LockState) (steps : List LockWorkerStep) : Prop :=
  ∀ before x after, steps = before ++ .xact x :: after →
    (((LockWorker.start lockState).run before).runXact x).2 = x.due

def LockXact.Abandons (x : LockXact) : Prop := x.commits = false ∧ x.sets ≠ []

def LockWorkerStep.KeepsPending : LockWorkerStep → Prop
  | .xact x => x.commits = false
  | .store _ => True
  | .restart => False

/-- After a transaction that announces a state and aborts, the next transaction of the process
that commits announces nothing. -/
def AbandonedThenCommit (steps : List LockWorkerStep) : Prop :=
  ∃ before a between b after,
    steps = before ++ .xact a :: between ++ .xact b :: after ∧ a.Abandons ∧
      (∀ step ∈ between, step.KeepsPending) ∧ b.commits = true ∧ b.sets = []

section Xact

variable {w : LockWorker} {x : LockXact}

theorem LockWorker.foldl_setCommitPendingState (w : LockWorker) (sets : List LockState) :
    sets.foldl setCommitPendingState w =
      match sets.getLast? with
      | none => w
      | some state => w.setCommitPendingState state := by
  induction sets using List.reverseRecOn with
  | nil => rfl
  | append_singleton sets state ih =>
    rw [List.foldl_append, ih, List.getLast?_concat]
    cases sets.getLast? <;> rfl

theorem LockWorker.runXact_of_abort (h : x.commits = false) :
    w.runXact x = (x.sets.foldl setCommitPendingState w, []) := by
  simp [runXact, LockXact.events, h, fire, callXactCallbacks,
    stateXactCallback]

theorem LockWorker.fire_commit (hreg : w.info.pending = true → w.registered = true) :
    w.fire [.preCommit, .commit] =
      if w.info.pending then
        ({ w with lockState := w.info.commitPendingLockState, info.pending := false },
          [w.info.commitPendingLockState])
      else (w, []) := by
  cases hpending : w.info.pending with
  | true =>
    simp [fire, callXactCallbacks, stateXactCallback, hpending,
      hreg hpending]
  | false =>
    simp [fire, callXactCallbacks, stateXactCallback, hpending]

def LockWorker.Sound (w : LockWorker) : Prop := w.info.pending = true → w.registered = true

theorem LockWorker.Sound.foldl_set (h : w.Sound) (sets : List LockState) :
    (sets.foldl setCommitPendingState w).Sound := by
  rw [foldl_setCommitPendingState]
  cases sets.getLast? with
  | none => exact h
  | some state =>
    intro _
    rfl

theorem LockWorker.Sound.stored (h : w.Sound) (x : LockXact) :
    (w.runXact x).2 =
      if x.commits = true ∧ x.sets = [] ∧ w.info.pending = true then
        [w.info.commitPendingLockState]
      else x.due := by
  cases hcommit : x.commits with
  | false => simp [runXact_of_abort hcommit, LockXact.due, hcommit]
  | true =>
    rw [runXact, LockXact.events, hcommit, if_pos rfl,
      fire_commit (h.foldl_set x.sets), foldl_setCommitPendingState]
    cases hlast : x.sets.getLast? with
    | none =>
      have hnil : x.sets = [] := by simpa using hlast
      cases w.info.pending <;> simp [hnil, LockXact.due]
    | some state =>
      have hne : x.sets ≠ [] := by
        rintro hnil
        simp [hnil] at hlast
      simp [setCommitPendingState, LockXact.due, hcommit, hlast, hne]

theorem LockWorker.Sound.pending_runXact (h : w.Sound) (x : LockXact) :
    (w.runXact x).1.info.pending = true ↔
      x.commits = false ∧ (x.sets ≠ [] ∨ w.info.pending = true) := by
  cases hcommit : x.commits with
  | false =>
    rw [runXact_of_abort hcommit, foldl_setCommitPendingState]
    cases hlast : x.sets.getLast? with
    | none =>
      have hnil : x.sets = [] := by simpa using hlast
      simp [hnil]
    | some state =>
      have hne : x.sets ≠ [] := by
        rintro hnil
        simp [hnil] at hlast
      simp [setCommitPendingState, hne]
  | true =>
    rw [runXact, LockXact.events, hcommit, if_pos rfl,
      fire_commit (h.foldl_set x.sets)]
    split_ifs with hpending
    · simp
    · simpa using hpending

theorem LockWorker.Sound.step (h : w.Sound) (step : LockWorkerStep) : (w.step step).Sound := by
  cases step with
  | store state => exact h
  | restart =>
    intro hpending
    cases hpending
  | xact x =>
    intro hpending
    obtain ⟨hcommit, -⟩ := (h.pending_runXact x).mp hpending
    have hset := h.foldl_set x.sets
    simp only [LockWorker.step, LockWorker.runXact_of_abort hcommit] at hpending ⊢
    exact hset hpending

theorem LockWorker.run_concat (w : LockWorker) (steps : List LockWorkerStep)
    (step : LockWorkerStep) : w.run (steps ++ [step]) = (w.run steps).step step := by
  simp [run]

theorem LockWorker.sound_run (lockState : LockState) (steps : List LockWorkerStep) :
    ((start lockState).run steps).Sound := by
  induction steps using List.reverseRecOn with
  | nil =>
    intro hpending
    cases hpending
  | append_singleton steps step ih =>
    rw [run_concat]
    exact ih.step step

theorem LockWorker.Sound.pending_step_iff (h : w.Sound) (step : LockWorkerStep) :
    (w.step step).info.pending = true ↔
      (∃ a, step = .xact a ∧ a.Abandons) ∨ step.KeepsPending ∧ w.info.pending = true := by
  cases step with
  | xact x =>
    rw [LockWorker.step, h.pending_runXact x]
    simp only [LockWorkerStep.xact.injEq, LockXact.Abandons, LockWorkerStep.KeepsPending]
    constructor
    · rintro ⟨hcommit, hne | hpending⟩
      · exact Or.inl ⟨x, rfl, hcommit, hne⟩
      · exact Or.inr ⟨hcommit, hpending⟩
    · rintro (⟨a, rfl, hcommit, hne⟩ | ⟨hcommit, hpending⟩)
      · exact ⟨hcommit, Or.inl hne⟩
      · exact ⟨hcommit, Or.inr hpending⟩
  | store state => simp [LockWorker.step, LockWorkerStep.KeepsPending]
  | restart => simp [LockWorker.step, LockWorkerStep.KeepsPending, LockWorker.start]

end Xact

/-- An aborted transaction has announced a state, and no commit or restart came after it. -/
def LeftPending (steps : List LockWorkerStep) : Prop :=
  ∃ before a between, steps = before ++ .xact a :: between ∧ a.Abandons ∧
    ∀ step ∈ between, step.KeepsPending

theorem leftPending_concat_iff (steps : List LockWorkerStep) (step : LockWorkerStep) :
    LeftPending (steps ++ [step]) ↔
      (∃ a, step = .xact a ∧ a.Abandons) ∨ step.KeepsPending ∧ LeftPending steps := by
  constructor
  · rintro ⟨before, a, between, hsplit, ha, hbetween⟩
    -- the abandoned transaction is the last step, or it comes before it
    rcases List.eq_nil_or_concat between with rfl | ⟨between', last, rfl⟩
    · obtain ⟨-, hstep⟩ := List.append_inj' hsplit rfl
      exact Or.inl ⟨a, List.singleton_inj.mp hstep, ha⟩
    · have hsplit' : steps ++ [step] = (before ++ .xact a :: between') ++ [last] := by
        simpa using hsplit
      obtain ⟨rfl, hstep⟩ := List.append_inj' hsplit' rfl
      obtain rfl := List.singleton_inj.mp hstep
      exact Or.inr ⟨hbetween _ (by simp), before, a, between', rfl, ha,
        fun s hs => hbetween s (by simp [hs])⟩
  · rintro (⟨a, rfl, ha⟩ | ⟨hkeeps, before, a, between, rfl, ha, hbetween⟩)
    · exact ⟨steps, a, [], rfl, ha, by simp⟩
    · refine ⟨before, a, between ++ [step], by simp, ha, fun s hs => ?_⟩
      rcases List.mem_append.mp hs with hs | hs
      · exact hbetween s hs
      · rwa [List.mem_singleton.mp hs]

theorem LockWorker.pending_run_iff (lockState : LockState) (steps : List LockWorkerStep) :
    ((start lockState).run steps).info.pending = true ↔ LeftPending steps := by
  induction steps using List.reverseRecOn with
  | nil => simp [run, start, LeftPending]
  | append_singleton steps step ih =>
    have hsound := sound_run lockState steps
    rw [run_concat, hsound.pending_step_iff step, ih, leftPending_concat_iff]

/-- **Pending lock states.** In a run of a worker every transaction stores the state that it
has announced, exactly if it commits, unless a transaction that announces nothing is the
first to commit after one that has announced something and aborted. -/
theorem tiedToXact_iff (lockState : LockState) (steps : List LockWorkerStep) :
    TiedToXact lockState steps ↔ ¬AbandonedThenCommit steps := by
  constructor
  · rintro htied ⟨before, a, between, b, after, rfl, ha, hbetween, hcommit, hsets⟩
    have hpending := (LockWorker.pending_run_iff lockState (before ++ .xact a :: between)).mpr
      ⟨before, a, between, rfl, ha, hbetween⟩
    have hdue := htied _ b after rfl
    rw [(LockWorker.sound_run lockState _).stored b, if_pos ⟨hcommit, hsets, hpending⟩] at hdue
    simp [LockXact.due, hcommit, hsets] at hdue
  · rintro hnot before b after rfl
    rw [(LockWorker.sound_run lockState before).stored b]
    apply if_neg
    rintro ⟨hcommit, hsets, hpending⟩
    obtain ⟨before', a, between, rfl, ha, hbetween⟩ :=
      (LockWorker.pending_run_iff lockState before).mp hpending
    exact hnot ⟨before', a, between, b, after, rfl, ha, hbetween, hcommit, hsets⟩

/-- What the insert of the row for a new lock ends with. -/
inductive InsertEnd
  | inserted
  | uniqueViolation
  deriving DecidableEq

/-- The transactions of `pgactive_process_acquire_ddl_lock` for a lock that is not held. With a
conflicting row the insert is rolled back and the request declined, which looks up the name
of the holder in a transaction of its own. -/
def acquireXacts : InsertEnd → List LockWorkerStep
  | .inserted => [.xact ⟨[.peerBeginCatchup], true⟩]
  | .uniqueViolation => [.xact ⟨[.peerBeginCatchup], false⟩, .xact ⟨[], true⟩]

section Handler

variable {ν : Type} [DecidableEq ν]

/-- How the insert ends for a request of `w`. -/
def LockNode.insertEnd (n : LockNode ν) (w : ν) (lockType : LockType) : InsertEnd :=
  if n.rows.any fun r => r.lockType = lockType ∧ r.owner = w then .uniqueViolation else .inserted

/-- The handler that takes the lock stores what the transactions of its worker do. -/
theorem LockNode.lockState_of_inserted {n n' : LockNode ν} {w : ν} {lockType : LockType}
    (hcount : n.db.lockcount = 0) (hend : n.insertEnd w lockType = .inserted)
    (hn : n.processAcquireDdlLock w lockType = some n') :
    n'.db.lockState =
      ((LockWorker.start n.db.lockState).run (acquireXacts .inserted)).lockState := by
  unfold insertEnd at hend
  unfold processAcquireDdlLock at hn
  split_ifs at hend hn with hrow
  rw [← Option.some.inj hn]
  rfl

/-- So does the handler that declines because of a conflicting row, whatever the other
processes do to the node before its second transaction. -/
theorem LockNode.lockState_of_uniqueViolation {me : ν} {n n' m m' : LockNode ν} {w : ν}
    {lockType : LockType} {cancelled : Bool} {sent : List (LockMessage ν)}
    (hcount : n.db.lockcount = 0) (hend : n.insertEnd w lockType = .uniqueViolation)
    (hn : n.processAcquireDdlLock w lockType = some n') (hm : m.workers w = n'.workers w)
    (hwork : m.work me w cancelled = some (m', sent)) :
    m'.db.lockState =
        ((LockWorker.start n.db.lockState).run (acquireXacts .uniqueViolation)).lockState ∧
      sent = [.declineLock w lockType] := by
  have hplace : m.workers w = .declining true lockType := by
    unfold insertEnd at hend
    unfold processAcquireDdlLock at hn
    split_ifs at hend hn with hrow
    rw [hm, ← Option.some.inj hn, setWorker_self]
  simp only [work, hplace] at hwork
  obtain ⟨rfl, rfl⟩ := Prod.mk.inj (Option.some.inj hwork)
  exact ⟨rfl, rfl⟩

end Handler

/-- After a declined request the lock is in the state of one that is being granted. -/
theorem acquireXacts_uniqueViolation :
    ((LockWorker.start .nolock).run (acquireXacts .uniqueViolation)).lockState =
        .peerBeginCatchup ∧
      ¬TiedToXact .nolock (acquireXacts .uniqueViolation) := by
  refine ⟨by decide, fun htied => ?_⟩
  have hdue := htied [.xact ⟨[.peerBeginCatchup], false⟩] ⟨[], true⟩ [] rfl
  revert hdue
  decide

end Pgactive.Locks
