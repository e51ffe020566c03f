import Pgactive.Polling
import Pgactive.Workers.Slots

/-!
# Looking up a worker to act on its process

`pgactive_worker_get_entry` looks for the worker of a peer; the variable of its scan is its result,
so that it returns the last slot if there is no match. `find_perdb_worker_slot` returns an index or
a negative code, and `pgactive_terminate_perdb_worker` compares the index with the code for "found".
-/

namespace Pgactive.Workers

variable {n : ℕ} {δ ν : Type}

/-- What is read of `PGPROC`. -/
structure Proc (δ : Type) where
  pid : ℕ
  databaseId : δ
deriving DecidableEq

/-- The union `data`, with the type that goes with it. -/
inductive WorkerData (δ ν : Type)
  | empty
  | apply (dboid : δ) (remoteNode : ν)
  | perdb (cDboid : δ) (pDboid : Option δ) (unregistered : Bool)
  | walsender (remoteNode : ν)
deriving DecidableEq

/-- `pgactiveWorker`. -/
structure WorkerEntry (δ ν : Type) where
  data : WorkerData δ ν
  /-- 0 before the worker runs. -/
  workerPid : ℕ
  /-- `none` is `NULL`. -/
  workerProc : Option (Proc δ)
deriving DecidableEq

namespace WorkerEntry

variable (worker : WorkerEntry δ ν)

def slot : Slot δ ν :=
  match worker.data with
  | .empty => .empty
  | .apply dboid remoteNode => .apply dboid remoteNode
  | .perdb cDboid pDboid unregistered => .perdb cDboid pDboid unregistered
  | .walsender _ => .walsender

def workerType : WorkerType := worker.slot.workerType

def remoteNode : Option ν :=
  match worker.data with
  | .apply _ remoteNode | .walsender remoteNode => some remoteNode
  | .empty | .perdb .. => none

/-- The pid that `pgactive_get_worker_pid_byid` reads from a slot. -/
def pid : ℕ :=
  match worker.workerProc with
  | none => 0
  | some proc =>
    match worker.data with
    | .perdb _ _ unregistered => if unregistered then 0 else proc.pid
    | _ => proc.pid

variable [DecidableEq δ] [DecidableEq ν]

/-- The body of the loop in `pgactive_worker_get_entry`: whether it breaks. -/
def isEntry (worker : WorkerEntry δ ν) (myDatabaseId : δ) (nodeid : ν) (workerType : WorkerType) :
    Bool :=
  if worker.workerType ≠ workerType then false
  else
    match worker.workerProc with
    | none => false
    | some proc =>
      if proc.databaseId ≠ myDatabaseId then false
      else
        match worker.data with
        | .apply _ remoteNode => remoteNode = nodeid
        | .walsender remoteNode => remoteNode = nodeid
        | .empty | .perdb .. => false

end WorkerEntry

/-- The loop of `pgactive_worker_get_entry` over the slots that are left, with its variable
`worker`. -/
def scanEntries (isEntry : Fin n → Bool) : Option (Fin n) → List (Fin n) → Option (Fin n)
  | worker, [] => worker
  | _, i :: rest => if isEntry i then some i else scanEntries isEntry (some i) rest

/-- "attempt to get non-peer-specific worker of type ... by peer identity". -/
inductive LookupError
  | nonPeerSpecific (workerType : WorkerType)
deriving DecidableEq

section

variable [DecidableEq δ] [DecidableEq ν] (slots : Fin n → WorkerEntry δ ν) (myDatabaseId : δ)

def workerGetEntry (nodeid : ν) (workerType : WorkerType) :
    Except LookupError (Option (Fin n)) :=
  if workerType = .apply ∨ workerType = .walsender then
    .ok (scanEntries (fun i => (slots i).isEntry myDatabaseId nodeid workerType) none
      (List.finRange n))
  else .error (.nonPeerSpecific workerType)

def getWorkerPidById (node : ν) (workerType : WorkerType) : Except LookupError ℕ := do
  match ← workerGetEntry slots myDatabaseId node workerType with
  | none => .ok 0
  | some i => .ok (slots i).pid

/-- `pgactive_terminate_workers_byid`: the process that is given to `pg_terminate_backend`. -/
def terminateWorkersById (node : ν) (workerType : WorkerType) :
    Except LookupError (Option ℕ) := do
  let pid ← getWorkerPidById slots myDatabaseId node workerType
  if pid = 0 then .ok none else .ok (some pid)

/-- The condition of the loop in `pgactive_skip_changes` that waits for the apply worker to exit, at
a turn. The slots may change from turn to turn. -/
def waitTurn (views : ℕ → Fin n → WorkerEntry δ ν) (remote : ν) (turn : ℕ) : Option Unit :=
  if getWorkerPidById (views turn) myDatabaseId remote .apply = .ok 0 then some () else none

def skipChangesWait (views : ℕ → Fin n → WorkerEntry δ ν) (remote : ν) (turns : ℕ) :
    Option (ℕ × Unit) :=
  Polling.poll (waitTurn myDatabaseId views remote) turns 0

end

/-! ### What the scan returns -/

theorem scanEntries_of_exists (isEntry : Fin n → Bool) (worker : Option (Fin n)) {is : List (Fin n)}
    (h : ∃ i ∈ is, isEntry i = true) :
    ∃ i, scanEntries isEntry worker is = some i ∧ isEntry i = true := by
  induction is generalizing worker with
  | nil => simp at h
  | cons i rest ih =>
    rw [scanEntries]
    split_ifs with hi
    · exact ⟨i, rfl, hi⟩
    · apply ih
      obtain ⟨j, hj, hentry⟩ := h
      rcases List.mem_cons.mp hj with rfl | hrest
      · exact absurd hentry hi
      · exact ⟨j, hrest, hentry⟩

theorem scanEntries_of_forall {isEntry : Fin n → Bool} {worker : Option (Fin n)}
    {is : List (Fin n)} (h : ∀ i ∈ is, isEntry i = false) :
    scanEntries isEntry worker is = is.getLast?.or worker := by
  induction is generalizing worker with
  | nil => rfl
  | cons i rest ih =>
    rw [scanEntries, h i List.mem_cons_self, if_neg Bool.false_ne_true,
      ih fun j hj => h j (List.mem_cons_of_mem i hj)]
    cases hlast : rest.getLast? with
    | none => simp [List.getLast?_eq_none_iff.mp hlast]
    | some j => simp [List.getLast?_cons, hlast]

theorem getLast?_finRange_eq_some {i : Fin n} (h : i.val + 1 = n) :
    (List.finRange n).getLast? = some i := by
  obtain ⟨k, rfl⟩ : ∃ k, n = k + 1 := ⟨i.val, h.symm⟩
  have hlast : i = Fin.last k := Fin.ext (by simpa using h)
  rw [List.finRange_succ_last, List.getLast?_concat, hlast]

/-! ### The worker of a peer -/

/-- The slot is of this type, its process is connected to the current database, and it serves the
peer. -/
def WorkerEntry.Serves (worker : WorkerEntry δ ν) (myDatabaseId : δ) (nodeid : ν)
    (workerType : WorkerType) : Prop :=
  worker.workerType = workerType ∧
    (∃ proc, worker.workerProc = some proc ∧ proc.databaseId = myDatabaseId) ∧
    worker.remoteNode = some nodeid

def OwnsProcess (slots : Fin n → WorkerEntry δ ν) (myDatabaseId : δ) (nodeid : ν)
    (workerType : WorkerType) (pid : ℕ) : Prop :=
  ∃ i, (slots i).Serves myDatabaseId nodeid workerType ∧
    (slots i).workerProc.map Proc.pid = some pid

section

variable {slots : Fin n → WorkerEntry δ ν} {views : ℕ → Fin n → WorkerEntry δ ν} {myDatabaseId : δ}
  {nodeid : ν} {workerType : WorkerType}

theorem WorkerEntry.Serves.pid_eq {worker : WorkerEntry δ ν}
    (h : worker.Serves myDatabaseId nodeid workerType) :
    worker.workerProc.map Proc.pid = some worker.pid := by
  obtain ⟨-, ⟨proc, hproc, -⟩, hremote⟩ := h
  unfold pid remoteNode at *
  rw [hproc]
  cases hdata : worker.data <;> simp [hdata] at hremote ⊢

variable [DecidableEq δ] [DecidableEq ν]

theorem WorkerEntry.isEntry_iff {worker : WorkerEntry δ ν} :
    worker.isEntry myDatabaseId nodeid workerType = true ↔
      worker.Serves myDatabaseId nodeid workerType := by
  obtain ⟨data, workerPid, workerProc⟩ := worker
  unfold isEntry Serves
  cases workerProc with
  | none => simp
  | some proc => cases data <;> simp [remoteNode]

def HasEntry (slots : Fin n → WorkerEntry δ ν) (myDatabaseId : δ) (nodeid : ν)
    (workerType : WorkerType) : Prop :=
  ∃ i, (slots i).Serves myDatabaseId nodeid workerType

theorem workerGetEntry_of_hasEntry (htype : workerType = .apply ∨ workerType = .walsender)
    (h : HasEntry slots myDatabaseId nodeid workerType) :
    ∃ i, workerGetEntry slots myDatabaseId nodeid workerType = .ok (some i) ∧
      (slots i).Serves myDatabaseId nodeid workerType := by
  obtain ⟨i, hserves⟩ := h
  obtain ⟨j, hscan, hentry⟩ := scanEntries_of_exists
    (fun i => (slots i).isEntry myDatabaseId nodeid workerType) none
    ⟨i, List.mem_finRange i, WorkerEntry.isEntry_iff.mpr hserves⟩
  refine ⟨j, ?_, WorkerEntry.isEntry_iff.mp hentry⟩
  rw [workerGetEntry, if_pos htype, hscan]

theorem workerGetEntry_of_not_hasEntry (htype : workerType = .apply ∨ workerType = .walsender)
    (h : ¬HasEntry slots myDatabaseId nodeid workerType) :
    workerGetEntry slots myDatabaseId nodeid workerType = .ok (List.finRange n).getLast? := by
  rw [workerGetEntry, if_pos htype, scanEntries_of_forall, Option.or_none]
  intro i _
  rw [← Bool.not_eq_true, WorkerEntry.isEntry_iff]
  exact fun hserves => h ⟨i, hserves⟩

def EntryRight (slots : Fin n → WorkerEntry δ ν) (myDatabaseId : δ) (nodeid : ν)
    (workerType : WorkerType) : Prop :=
  (∃ i, workerGetEntry slots myDatabaseId nodeid workerType = .ok (some i) ∧
    (slots i).Serves myDatabaseId nodeid workerType) ∨
  (workerGetEntry slots myDatabaseId nodeid workerType = .ok none ∧
    ¬HasEntry slots myDatabaseId nodeid workerType)

theorem entryRight_iff (htype : workerType = .apply ∨ workerType = .walsender) :
    EntryRight slots myDatabaseId nodeid workerType ↔
      HasEntry slots myDatabaseId nodeid workerType ∨ n = 0 := by
  by_cases h : HasEntry slots myDatabaseId nodeid workerType
  · exact iff_of_true (.inl (workerGetEntry_of_hasEntry htype h)) (.inl h)
  · rw [EntryRight, workerGetEntry_of_not_hasEntry htype h, and_iff_left h, or_iff_right h,
      or_iff_right fun ⟨i, _, hserves⟩ => h ⟨i, hserves⟩, Except.ok.injEq,
      List.getLast?_eq_none_iff, List.finRange_eq_nil_iff]

def LastSlotIdle (slots : Fin n → WorkerEntry δ ν) : Prop :=
  ∀ i : Fin n, i.val + 1 = n → (slots i).pid = 0

theorem getWorkerPidById_cases (slots : Fin n → WorkerEntry δ ν) (myDatabaseId : δ) (nodeid : ν)
    (htype : workerType = .apply ∨ workerType = .walsender) :
    ∃ pid, getWorkerPidById slots myDatabaseId nodeid workerType = .ok pid ∧
      ((HasEntry slots myDatabaseId nodeid workerType ∧
          OwnsProcess slots myDatabaseId nodeid workerType pid) ∨
        (¬HasEntry slots myDatabaseId nodeid workerType ∧ (pid = 0 ↔ LastSlotIdle slots))) := by
  unfold getWorkerPidById
  by_cases h : HasEntry slots myDatabaseId nodeid workerType
  · obtain ⟨i, hentry, hserves⟩ := workerGetEntry_of_hasEntry htype h
    rw [hentry]
    exact ⟨(slots i).pid, rfl, .inl ⟨h, i, hserves, hserves.pid_eq⟩⟩
  · rw [workerGetEntry_of_not_hasEntry htype h]
    cases n with
    | zero => exact ⟨0, rfl, .inr ⟨h, iff_of_true rfl fun i => i.elim0⟩⟩
    | succ k =>
      rw [getLast?_finRange_eq_some (i := Fin.last k) rfl]
      refine ⟨(slots (Fin.last k)).pid, rfl, .inr ⟨h, fun hpid i hi => ?_, fun hidle => ?_⟩⟩
      · have hlast : i = Fin.last k := Fin.ext (by simpa using hi)
        rw [hlast, hpid]
      · exact hidle (Fin.last k) rfl

/-- `pgactive_get_worker_pid_byid` returns only processes of the worker of the peer. -/
def PidRight (slots : Fin n → WorkerEntry δ ν) (myDatabaseId : δ) (nodeid : ν)
    (workerType : WorkerType) : Prop :=
  ∀ pid, getWorkerPidById slots myDatabaseId nodeid workerType = .ok pid → pid ≠ 0 →
    OwnsProcess slots myDatabaseId nodeid workerType pid

theorem pidRight_iff (htype : workerType = .apply ∨ workerType = .walsender) :
    PidRight slots myDatabaseId nodeid workerType ↔
      HasEntry slots myDatabaseId nodeid workerType ∨ LastSlotIdle slots := by
  obtain ⟨pid, hpid, ⟨hentry, howns⟩ | ⟨hnone, hidle⟩⟩ :=
    getWorkerPidById_cases slots myDatabaseId nodeid htype
  · refine iff_of_true (fun pid' hpid' _ => ?_) (.inl hentry)
    obtain rfl := Except.ok.inj (hpid.symm.trans hpid')
    exact howns
  · rw [or_iff_right hnone, ← hidle]
    constructor
    · intro hright
      by_contra hne
      obtain ⟨i, hserves, -⟩ := hright pid hpid hne
      exact hnone ⟨i, hserves⟩
    · rintro hzero pid' hpid' hne
      obtain rfl := Except.ok.inj (hpid.symm.trans hpid')
      exact absurd hzero hne

theorem skipChangesWait_succ_eq_none_iff {turn : ℕ} :
    skipChangesWait myDatabaseId views nodeid (turn + 1) = none ↔
      skipChangesWait myDatabaseId views nodeid turn = none ∧
        getWorkerPidById (views turn) myDatabaseId nodeid .apply ≠ .ok 0 := by
  unfold skipChangesWait
  constructor
  · intro h
    have hturns := Polling.poll_eq_none_iff.mp h
    refine ⟨Polling.poll_eq_none_iff.mpr fun m hle hlt => hturns m hle (by omega), fun hzero => ?_⟩
    have hturn := hturns turn (Nat.zero_le turn) (by omega)
    rw [waitTurn, if_pos hzero] at hturn
    cases hturn
  · rintro ⟨hbefore, hpid⟩
    rw [Polling.poll_succ_of_none hbefore, waitTurn, if_neg hpid, Option.map_none]

def WaitRight (views : ℕ → Fin n → WorkerEntry δ ν) (myDatabaseId : δ) (remote : ν) : Prop :=
  ∀ turn, skipChangesWait myDatabaseId views remote (turn + 1) = none →
    ∃ pid, getWorkerPidById (views turn) myDatabaseId remote .apply = .ok pid ∧
      OwnsProcess (views turn) myDatabaseId remote .apply pid

theorem waitRight_iff :
    WaitRight views myDatabaseId nodeid ↔
      ∀ turn, skipChangesWait myDatabaseId views nodeid turn = none →
        HasEntry (views turn) myDatabaseId nodeid .apply ∨ LastSlotIdle (views turn) := by
  refine forall_congr' fun turn => ?_
  rw [skipChangesWait_succ_eq_none_iff, and_imp]
  refine forall_congr' fun _ => ?_
  rw [← pidRight_iff (.inl rfl)]
  obtain ⟨pid, hpid, -⟩ := getWorkerPidById_cases (views turn) myDatabaseId nodeid (.inl rfl)
  unfold PidRight
  simp [hpid]

/-- The lookup is right, and none of its callers acts on a process that serves another peer or has
another role. -/
structure LookupRight (slots : Fin n → WorkerEntry δ ν) (views : ℕ → Fin n → WorkerEntry δ ν)
    (myDatabaseId : δ) (nodeid : ν) (workerType : WorkerType) : Prop where
  entry : EntryRight slots myDatabaseId nodeid workerType
  pid : PidRight slots myDatabaseId nodeid workerType
  terminate : ∀ pid, terminateWorkersById slots myDatabaseId nodeid workerType = .ok (some pid) →
    OwnsProcess slots myDatabaseId nodeid workerType pid
  wait : WaitRight views myDatabaseId nodeid

theorem PidRight.terminate {pid : ℕ} (h : PidRight slots myDatabaseId nodeid workerType)
    (hterminate : terminateWorkersById slots myDatabaseId nodeid workerType = .ok (some pid)) :
    OwnsProcess slots myDatabaseId nodeid workerType pid := by
  unfold terminateWorkersById at hterminate
  cases hpid : getWorkerPidById slots myDatabaseId nodeid workerType with
  | error e =>
    rw [hpid] at hterminate
    cases hterminate
  | ok read =>
    rw [hpid] at hterminate
    change (if read = 0 then Except.ok none else .ok (some read)) = _ at hterminate
    split_ifs at hterminate with hread
    · cases hterminate
    · cases hterminate
      exact h pid hpid hread

/-- For every content of the slots, every peer and both types of workers: the lookup returns the
worker of the peer in the current database or nothing, and its callers act on the process of this
worker, exactly if there is such a worker, or no slot at all, and each time that
`pgactive_skip_changes` looks, there is an apply worker of the peer, or the last slot has no
process. -/
theorem workerLookup_right (slots : Fin n → WorkerEntry δ ν) (views : ℕ → Fin n → WorkerEntry δ ν)
    (myDatabaseId : δ) (nodeid : ν) (workerType : WorkerType)
    (htype : workerType = .apply ∨ workerType = .walsender) :
    LookupRight slots views myDatabaseId nodeid workerType ↔
      (HasEntry slots myDatabaseId nodeid workerType ∨ n = 0) ∧
        ∀ turn, skipChangesWait myDatabaseId views nodeid turn = none →
          HasEntry (views turn) myDatabaseId nodeid .apply ∨ LastSlotIdle (views turn) := by
  rw [← entryRight_iff htype, ← waitRight_iff]
  constructor
  · intro h
    exact ⟨h.entry, h.wait⟩
  · rintro ⟨hentry, hwait⟩
    have hpid : PidRight slots myDatabaseId nodeid workerType := by
      rw [pidRight_iff htype]
      apply ((entryRight_iff htype).mp hentry).imp_right
      rintro rfl i
      exact i.elim0
    exact ⟨hentry, hpid, fun _ => hpid.terminate, hwait⟩

def applyAndWalsender (i : Fin 2) : WorkerEntry ℕ ℕ :=
  if i.val = 0 then ⟨.apply 5 1, 4001, some ⟨4001, 5⟩⟩
  else ⟨.walsender 2, 4002, some ⟨4002, 5⟩⟩

theorem workerLookup_right_applyAndWalsender :
    LookupRight applyAndWalsender (fun _ => applyAndWalsender) 5 1 .apply := by
  have hentry : HasEntry applyAndWalsender 5 1 .apply := ⟨⟨0, by decide⟩, rfl, ⟨_, rfl, rfl⟩, rfl⟩
  rw [workerLookup_right applyAndWalsender (fun _ => applyAndWalsender) 5 1 .apply (.inl rfl)]
  exact ⟨.inl hentry, fun _ _ => .inl hentry⟩

/-- The lookup of an apply worker for peer 3 returns the walsender for peer 2, which is then
terminated. -/
theorem workerLookup_returns_last :
    workerGetEntry applyAndWalsender 5 3 .apply = .ok (some ⟨1, by decide⟩) ∧
      terminateWorkersById applyAndWalsender 5 3 .apply = .ok (some 4002) ∧
      ¬LookupRight applyAndWalsender (fun _ => applyAndWalsender) 5 3 .apply := by
  refine ⟨by decide, by decide, fun h => ?_⟩
  obtain ⟨i, hserves, -⟩ := h.terminate 4002 (by decide)
  have hnone : ∀ i, (applyAndWalsender i).isEntry 5 3 .apply = false := by decide
  exact Bool.false_ne_true ((hnone i).symm.trans (WorkerEntry.isEntry_iff.mpr hserves))

end

/-! ### The per-db worker of a database -/

def PerdbSlot.code : PerdbSlot n → ℤ
  | .unregistered => -2
  | .notFound => -1
  | .found i => i.val

def slotNotFound : ℤ := -1

def slotFound : ℤ := 0

/-- Whom `kill` sends a signal to. -/
inductive Target
  | process (pid : ℕ)
  | group (pid : ℕ)
  | callerGroup
  /-- Every process that the caller may send a signal to. -/
  | everyProcess
deriving DecidableEq

def killTarget (pid : ℤ) : Target :=
  if pid = 0 then .callerGroup
  else if pid = -1 then .everyProcess
  else if 0 < pid then .process pid.toNat
  else .group (-pid).toNat

def Target.Reaches (target : Target) (pid : ℕ) : Prop :=
  target = .process pid ∨ target = .group pid

/-- The server on which per-db workers are terminated. -/
structure SignalEnv where
  haveSetsid : Bool
  /-- The result of `_pgactive_has_required_privs()`. -/
  hasRequiredPrivs : Bool
  /-- The error with which `kill` fails, if it does. -/
  killError : Target → Option String

inductive PerdbWarning (δ : Type)
  /-- "pgactive per-db worker for database with OID ... is not found". -/
  | notFound (dboid : δ)
  /-- "could not send signal to pgactive per-db worker ...". -/
  | couldNotSend (pid : ℕ) (error : String)
deriving DecidableEq

/-- What `pgactive_terminate_perdb_worker` has done. -/
structure Termination (δ : Type) where
  warning : Option (PerdbWarning δ)
  signal : Option Target
deriving DecidableEq

def SignalEnv.signal (env : SignalEnv) (pid : ℕ) : Termination δ :=
  let target := killTarget (if env.haveSetsid then -pid else pid)
  { warning := (env.killError target).map (.couldNotSend pid), signal := some target }

variable [DecidableEq δ] {slots : Fin n → WorkerEntry δ ν}

/-- `pgactive_terminate_perdb_worker`. Without a result it raises "must be superuser to terminate
pgactive per-db worker". -/
def terminatePerdbWorker (env : SignalEnv) (slots : Fin n → WorkerEntry δ ν) (dboid : δ) :
    Option (Termination δ) :=
  if !env.hasRequiredPrivs then none
  else
    let slotno := findPerdbWorkerSlot (fun i => (slots i).slot) dboid
    if slotno.code = slotNotFound then some ⟨some (.notFound dboid), none⟩
    else if slotno.code = slotFound then
      match slotno with
      | .found i => some (env.signal (slots i).workerPid)
      | _ => some ⟨none, none⟩
    else some ⟨none, none⟩

def perdbSignal (env : SignalEnv) (slots : Fin n → WorkerEntry δ ν) (dboid : δ) : Option Target :=
  (terminatePerdbWorker env slots dboid).bind Termination.signal

/-- The signal reaches the per-db worker that has been found, and none is sent if none has been
found. -/
def TerminatesPerdb (env : SignalEnv) (slots : Fin n → WorkerEntry δ ν) (dboid : δ) : Prop :=
  match findPerdbWorkerSlot (fun i => (slots i).slot) dboid with
  | .found i => ∃ target, perdbSignal env slots dboid = some target ∧
      target.Reaches (slots i).workerPid
  | .notFound | .unregistered => perdbSignal env slots dboid = none

theorem killTarget_reaches_iff (haveSetsid : Bool) (pid : ℕ) :
    (killTarget (if haveSetsid then -pid else pid)).Reaches pid ↔
      pid ≠ 0 ∧ (haveSetsid = true → pid ≠ 1) := by
  unfold killTarget Target.Reaches
  cases haveSetsid with
  | true =>
    by_cases hzero : pid = 0
    · simp [hzero]
    by_cases hone : pid = 1
    · simp [hone]
    rw [if_pos rfl, if_neg (by omega), if_neg (by omega), if_neg (by omega)]
    simp [hzero, hone]
  | false =>
    by_cases hzero : pid = 0
    · simp [hzero]
    rw [if_neg Bool.false_ne_true, if_neg (by omega), if_neg (by omega), if_pos (by omega)]
    simp [hzero]

theorem PerdbSlot.code_found_eq_slotFound_iff (i : Fin n) :
    (found i).code = slotFound ↔ i.val = 0 := by
  simp [code, slotFound]

theorem PerdbSlot.code_found_ne_slotNotFound (i : Fin n) :
    (found i).code ≠ slotNotFound := by
  simp only [code, slotNotFound]
  omega

theorem perdbSignal_of_found {env : SignalEnv} {dboid : δ} {i : Fin n}
    (h : findPerdbWorkerSlot (fun i => (slots i).slot) dboid = .found i) :
    perdbSignal env slots dboid =
      if env.hasRequiredPrivs = true ∧ i.val = 0 then
        some (killTarget (if env.haveSetsid then -(slots i).workerPid else (slots i).workerPid))
      else none := by
  unfold perdbSignal terminatePerdbWorker
  rw [h]
  cases env.hasRequiredPrivs with
  | false => rfl
  | true =>
    dsimp only
    rw [Bool.not_true, if_neg Bool.false_ne_true, if_neg (PerdbSlot.code_found_ne_slotNotFound i)]
    by_cases hi : i.val = 0
    · rw [if_pos ((PerdbSlot.code_found_eq_slotFound_iff i).mpr hi), if_pos ⟨rfl, hi⟩]
      rfl
    · rw [if_neg (mt (PerdbSlot.code_found_eq_slotFound_iff i).mp hi), if_neg fun h => hi h.2]
      rfl

/-- For every content of the slots and every database, the signal goes to the per-db worker of the
database if it is found, and nowhere otherwise, exactly if a worker that is found is in the first
slot, the caller may terminate it, and its process id is set: `kill` takes 0 for the process group
of the caller, and -1 for all processes. -/
theorem terminatePerdbWorker_signals (env : SignalEnv) (slots : Fin n → WorkerEntry δ ν)
    (dboid : δ) :
    TerminatesPerdb env slots dboid ↔
      ∀ i, findPerdbWorkerSlot (fun i => (slots i).slot) dboid = .found i →
        env.hasRequiredPrivs = true ∧ i.val = 0 ∧ (slots i).workerPid ≠ 0 ∧
          (env.haveSetsid = true → (slots i).workerPid ≠ 1) := by
  unfold TerminatesPerdb
  cases h : findPerdbWorkerSlot (fun i => (slots i).slot) dboid with
  | notFound | unregistered =>
    refine iff_of_true ?_ (by simp)
    unfold perdbSignal terminatePerdbWorker
    rw [h]
    cases env.hasRequiredPrivs <;> rfl
  | found i =>
    have hsignal : (∃ target, perdbSignal env slots dboid = some target ∧
        target.Reaches (slots i).workerPid) ↔
        env.hasRequiredPrivs = true ∧ i.val = 0 ∧ (slots i).workerPid ≠ 0 ∧
          (env.haveSetsid = true → (slots i).workerPid ≠ 1) := by
      rw [perdbSignal_of_found h, ← killTarget_reaches_iff, ← and_assoc]
      by_cases hfirst : env.hasRequiredPrivs = true ∧ i.val = 0
      · rw [if_pos hfirst, and_iff_right hfirst]
        simp
      · rw [if_neg hfirst]
        exact iff_of_false (by simp) fun h => hfirst h.1
    refine hsignal.trans ⟨?_, fun hall => hall i rfl⟩
    intro hright j hj
    obtain rfl := PerdbSlot.found.inj hj
    exact hright

def applyAndPerdb (i : Fin 2) : WorkerEntry ℕ ℕ :=
  if i.val = 0 then ⟨.apply 5 1, 4001, some ⟨4001, 5⟩⟩
  else ⟨.perdb 5 (some 5) false, 4002, some ⟨4002, 5⟩⟩

/-- The per-db worker is found, but no signal is sent. -/
theorem terminatePerdbWorker_secondSlot :
    findPerdbWorkerSlot (fun i => (applyAndPerdb i).slot) 5 = .found ⟨1, by decide⟩ ∧
      terminatePerdbWorker ⟨true, true, fun _ => none⟩ applyAndPerdb 5 = some ⟨none, none⟩ ∧
      ¬TerminatesPerdb ⟨true, true, fun _ => none⟩ applyAndPerdb 5 := by
  refine ⟨by decide, by decide, ?_⟩
  rintro ⟨target, hsignal, -⟩
  have hnone : perdbSignal ⟨true, true, fun _ => none⟩ applyAndPerdb 5 = none := by decide
  cases hnone.symm.trans hsignal

end Pgactive.Workers
