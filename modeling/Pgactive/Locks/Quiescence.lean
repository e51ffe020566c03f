import Pgactive.Locks.Sections

/-!
# User transactions during the catchup for a write lock

A node that grants a write lock cancels its transactions and then reads the position that its peers
have to replay. `cancel_conflicting_transactions` passes over transactions without an id, even in
the middle of a write, and an upgrade raises the type of the lock only after the loop. As long as
neither matters, no write commits between the reading and the release.
-/

namespace Pgactive.Locks

open Transition

variable {ν : Type}

/-- A user transaction. -/
structure UserXact where
  running : Bool
  /-- Its current statement has passed `pgactive_locks_check_dml`. -/
  checked : Bool
  hasXid : Bool
  wrote : Bool
deriving DecidableEq, Repr

def UserXact.ended : UserXact := ⟨false, false, false, false⟩

def UserXact.begun : UserXact := ⟨true, false, false, false⟩

/-- A node with its user transactions, numbered as they begin; transaction `x` runs in the
backend `x`. -/
structure UserNode (ν : Type) where
  node : LockNode ν
  xacts : ℕ → UserXact
  /-- How many transactions have begun. -/
  started : ℕ
  /-- What is left of the list `conflict` in `cancel_conflicting_transactions`, by the
  peer whose worker runs the function. -/
  conflicts : ν → Option (List ℕ)
  /-- The position for the replay request has been read, and the lock is not released. -/
  captured : Bool
  /-- The transactions that committed a replicated write in the meantime. -/
  lateCommits : List ℕ

/-- A step of a user transaction or of an apply worker. -/
inductive UserAction (ν : Type)
  | begin
  /-- A statement that writes passes the check of `ExecutorStart`. -/
  | checkDml (x : ℕ)
  | assignXid (x : ℕ)
  /-- The running statement writes a replicated row. -/
  | write (x : ℕ)
  /-- A command that is not checked, such as `COPY`, writes a replicated row. -/
  | writeUnchecked (x : ℕ)
  | endStatement (x : ℕ)
  | commit (x : ℕ)
  | abort (x : ℕ)
  /-- The worker of `w` starts on a message. -/
  | receive (w : ν) (m : LockMessage ν)
  /-- The worker of `w` goes on with its message. -/
  | work (w : ν)
  /-- `GetConflictingVirtualXIDs` in the worker of `w`. -/
  | takeConflicts (w : ν)
  /-- The loop goes on to the next transaction. -/
  | passConflict (w : ν)
  /-- The loop gives up on a writing transaction. -/
  | refuse (w : ν)
  /-- The worker of `w` is done with its message. -/
  | resume (w : ν)

def UserNode.setXact (s : UserNode ν) (x : ℕ) (xact : UserXact) : UserNode ν :=
  { s with xacts := Function.update s.xacts x xact }

@[simp] theorem UserNode.setXact_self (s : UserNode ν) (x : ℕ) (xact : UserXact) :
    (s.setXact x xact).xacts x = xact := by simp [setXact]

variable {x : ℕ}

theorem UserNode.setXact_of_ne (s : UserNode ν) {q : ℕ} (h : q ≠ x) (xact : UserXact) :
    (s.setXact x xact).xacts q = s.xacts q := by simp [setXact, h]

/-- `GetConflictingVirtualXIDs` without a limit: all running transactions. -/
def UserNode.conflictingXids (s : UserNode ν) : List ℕ :=
  (List.range s.started).filter fun x => (s.xacts x).running

def LockNode.log (n : LockNode ν) (records : ℕ) : LockNode ν :=
  { n with insertLsn := n.insertLsn + records }

instance [DecidableEq ν] (w : ν) (m : LockMessage ν) : Decidable (m.SentBy w) := by
  rcases m <;> unfold LockMessage.SentBy <;> infer_instance

def UserNode.start (ν : Type) (nnodes : ℤ) : UserNode ν where
  node := .unlocked ν nnodes
  xacts := fun _ => .ended
  started := 0
  conflicts := fun _ => none
  captured := false
  lateCommits := []

/-- A transaction that cannot write in its current statement and has nothing to commit. -/
def UserXact.Quiet (xact : UserXact) : Prop :=
  xact.running = true → xact.checked = false ∧ xact.wrote = false

/-- The stations between the loop of `cancel_conflicting_transactions` and the replay
request. -/
def WorkerPc.closing : WorkerPc → Bool
  | .raising _ | .capturing | .requesting _ => true
  | _ => false

/-- A worker has its list of transactions or is past its loop, or the position has been read. -/
def UserNode.Closing (s : UserNode ν) : Prop :=
  s.captured = true ∨ ∃ w, s.conflicts w ≠ none ∨ (s.node.workers w).closing = true

/-- The loop passes over no transaction in the middle of a checked statement, and no
statement passes the check while a worker has a list of transactions or is about to raise
the type of the lock. Nothing is written without a check from the taking of the list until the
release. -/
def UserNode.StaysQuiet (s : UserNode ν) : UserAction ν → Prop
  | .passConflict w => ∀ conflicts ∈ s.conflicts w, ∀ x ∈ conflicts.head?,
    (s.xacts x).running = true → (s.xacts x).checked = false
  | .checkDml _ => ∀ w, s.conflicts w = none ∧ ∀ lockType, s.node.workers w ≠ .raising lockType
  | .writeUnchecked _ => ¬s.Closing
  | _ => True

/-- What holds of a node and its transactions. -/
structure UserNode.Quiescent (s : UserNode ν) : Prop where
  consistent : s.node.Consistent
  noClearing : ∀ w left found, s.node.workers w ≠ .clearing left found
  hasXid : ∀ x, (s.xacts x).wrote = true → (s.xacts x).hasXid = true
  started : ∀ x, (s.xacts x).running = true → x < s.started
  /-- In the loop every transaction that can still write is on the list. -/
  listed : ∀ w conflicts, s.conflicts w = some conflicts →
    (∃ upgrade lockType, s.node.workers w = .examining upgrade lockType) ∧
      ∀ x, (s.xacts x).Quiet ∨ x ∈ conflicts
  closed : ∀ w, (s.node.workers w).closing = true → ∀ x, (s.xacts x).Quiet
  /-- From the reading of the position on, a peer holds the write lock. -/
  captured : s.captured = true → s.node.db.lockType = .write ∧
    (∃ k, s.node.db.lockHolder = some k) ∧ ∀ x, (s.xacts x).Quiet
  lateCommits : s.lateCommits = []

theorem UserNode.start_quiescent (nnodes : ℤ) : (start ν nnodes).Quiescent where
  consistent := LockNode.unlocked_consistent nnodes
  noClearing := by simp [start, LockNode.unlocked]
  hasXid := by simp [start, UserXact.ended]
  started := by simp [start, UserXact.ended]
  listed := by simp [start]
  closed := by simp [start, UserXact.ended, UserXact.Quiet]
  captured := by simp [start]
  lateCommits := rfl

variable {n : LockNode ν} {k : ν}

theorem LockNode.HeldFor.passesCheckDml (h : n.HeldFor k) (hwrite : n.db.lockType = .write)
    (x : ℕ) : n.passesCheckDml x = false := by
  simp [LockNode.passesCheckDml, LocksDb.peerHasLock, h.backends, Backend.fresh, h.lockcount,
    h.lockHolder, hwrite]

variable {s : UserNode ν}

theorem UserNode.Quiescent.of_passesCheckDml (h : s.Quiescent)
    (hpass : s.node.passesCheckDml x = true) :
    s.captured = false ∧ ∀ w, (s.node.workers w).closing = true →
      ∃ lockType, s.node.workers w = .raising lockType := by
  have hfree {k : ν} (hk : s.node.HeldFor k) : s.node.db.lockType ≠ .write := by
    intro hwrite
    simp [hk.passesCheckDml hwrite x] at hpass
  refine ⟨?_, fun w hw => ?_⟩
  · by_contra hne
    obtain ⟨hwrite, ⟨k, hk⟩, -⟩ := h.captured (by simpa using hne)
    exact hfree (h.consistent.heldFor hk) hwrite
  · cases hpc : s.node.workers w with
    | raising lockType => exact ⟨lockType, rfl⟩
    | capturing | requesting =>
      have hheld := h.consistent.heldFor_of_granting (w := w) (by simp [hpc, WorkerPc.granting])
      have hfits := hheld.fits
      rw [hpc] at hfits
      exact absurd hfits.1 (hfree hheld)
    | _ => simp [hpc, WorkerPc.closing] at hw

theorem UserNode.Quiescent.setXact (h : s.Quiescent) {started : ℕ} {xact : UserXact}
    (hstarted : s.started ≤ started) (hxid : xact.wrote = true → xact.hasXid = true)
    (hrunning : xact.running = true → x < started)
    (hquiet : s.Closing → (s.xacts x).Quiet → xact.Quiet) :
    { s.setXact x xact with started := started }.Quiescent := by
  have hall (hclosing : s.Closing) (q : ℕ) (hq : (s.xacts q).Quiet) :
      ((s.setXact x xact).xacts q).Quiet := by
    by_cases hqx : q = x
    · subst hqx
      simpa using hquiet hclosing hq
    · rwa [s.setXact_of_ne hqx]
  refine ⟨h.consistent, h.noClearing, fun q hq => ?_, fun q hq => ?_, fun w conflicts hw => ?_,
    fun w hw q => hall (.inr ⟨w, .inr hw⟩) q (h.closed w hw q), fun hcaptured => ?_, h.lateCommits⟩
  · by_cases hqx : q = x
    · subst hqx
      simpa using hxid (by simpa using hq)
    · rw [s.setXact_of_ne hqx] at hq ⊢
      exact h.hasXid q hq
  · by_cases hqx : q = x
    · subst hqx
      exact hrunning (by simpa using hq)
    · rw [s.setXact_of_ne hqx] at hq
      exact (h.started q hq).trans_le hstarted
  · obtain ⟨hplace, hlist⟩ := h.listed w conflicts hw
    have hclosing : s.Closing := .inr ⟨w, .inl (Option.ne_none_iff_exists'.mpr ⟨conflicts, hw⟩)⟩
    exact ⟨hplace, fun q => (hlist q).imp_left (hall hclosing q)⟩
  · obtain ⟨hwrite, hholder, hq⟩ := h.captured hcaptured
    exact ⟨hwrite, hholder, fun q => hall (.inl hcaptured) q (hq q)⟩

theorem UserNode.Quiescent.endXact (h : s.Quiescent) (x : ℕ) : (s.setXact x .ended).Quiescent :=
  h.setXact le_rfl (by simp [UserXact.ended]) (by simp [UserXact.ended])
    fun _ _ => by simp [UserXact.Quiet, UserXact.ended]

theorem UserNode.Quiescent.log (h : s.Quiescent) (records : ℕ) :
    { s with node := s.node.log records }.Quiescent :=
  { h with consistent := h.consistent.setPerdb s.node.db.nnodes _ _ _ }

variable {me : ν} {n' : LockNode ν} {m : LockMessage ν}

theorem LockNode.Delivered.closing {pc : WorkerPc} (h : Delivered me n n' m pc) :
    pc.closing = false := by
  cases h with
  | granting upgrade lockType =>
    unfold WorkerPc.afterGrant
    split_ifs <;> rfl
  | _ => rfl

variable [DecidableEq ν]

def UserNode.goOn (me : ν) (s : UserNode ν) (w : ν) (cancelled : Bool) : Option (UserNode ν) := do
  let (n, ms) ← s.node.work me w cancelled
  return { s with
    node := n.log ms.length
    conflicts := Function.update s.conflicts w none
    captured := s.captured || s.node.workers w = .capturing }

def UserNode.step (me : ν) (s : UserNode ν) : UserAction ν → Option (UserNode ν)
  | .begin => some { s.setXact s.started .begun with started := s.started + 1 }
  | .checkDml x =>
    if (s.xacts x).running ∧ s.node.passesCheckDml x then
      some (s.setXact x { s.xacts x with checked := true })
    else none
  | .assignXid x =>
    if (s.xacts x).running then some (s.setXact x { s.xacts x with hasXid := true }) else none
  | .write x =>
    if (s.xacts x).running ∧ (s.xacts x).checked ∧ (s.xacts x).hasXid then
      some { s.setXact x { s.xacts x with wrote := true } with node := s.node.log 1 }
    else none
  | .writeUnchecked x =>
    if (s.xacts x).running ∧ (s.xacts x).hasXid then
      some { s.setXact x { s.xacts x with wrote := true } with node := s.node.log 1 }
    else none
  | .endStatement x =>
    if (s.xacts x).running then some (s.setXact x { s.xacts x with checked := false }) else none
  | .commit x =>
    if (s.xacts x).running then
      some { s.setXact x .ended with
        node := s.node.log 1
        lateCommits :=
          if s.captured ∧ (s.xacts x).wrote then x :: s.lateCommits else s.lateCommits }
    else none
  | .abort x => if (s.xacts x).running then some (s.setXact x .ended) else none
  | .receive w m => do
    guard (w ≠ me ∧ s.node.workers w = .idle ∧ m.SentBy w)
    let (n, ms) ← s.node.processMessage me w m
    return { s with
      node := n.log ms.length
      captured := s.captured && n.db.lockcount ≠ 0 }
  | .work w =>
    match s.node.workers w with
    | .examining .. => if s.conflicts w = some [] then s.goOn me w true else none
    | _ => s.goOn me w true
  | .takeConflicts w =>
    match s.node.workers w, s.conflicts w with
    | .examining .., none =>
      some { s with conflicts := Function.update s.conflicts w (some s.conflictingXids) }
    | _, _ => none
  | .passConflict w =>
    match s.conflicts w with
    | some (x :: rest) =>
      -- the transaction is gone or did not do any writes
      if (s.xacts x).running = false ∨ (s.xacts x).hasXid = false then
        some { s with conflicts := Function.update s.conflicts w (some rest) }
      else none
    | _ => none
  | .refuse w =>
    match s.conflicts w with
    | some (x :: _) =>
      if (s.xacts x).running ∧ (s.xacts x).hasXid then s.goOn me w false else none
    | _ => none
  | .resume w =>
    if s.node.workers w = .done then some { s with node := s.node.setWorker w .idle } else none

variable {w : ν} {ms : List (LockMessage ν)}

theorem LockNode.HeldFor.processMessage_write (h : n.HeldFor k) (hwrite : n.db.lockType = .write)
    (hm : m.SentBy w) (hn : n.processMessage me w m = some (n', ms)) :
    n'.db.lockcount = 0 ∨ n'.db.lockType = .write ∧ n'.db.lockHolder = some k := by
  cases m with
  | start => exact absurd hm id
  | acquireLock lockType =>
    -- nothing is stronger than a write lock, so this is no upgrade
    have hlevel : ¬n.db.lockType.level < lockType.level := by
      cases lockType <;> simp [hwrite, LockType.level]
    simp only [processMessage, processAcquireDdlLock, h.lockcount, hlevel,
      and_false, if_false, one_ne_zero, Option.map_some, Option.some.injEq, Prod.mk.injEq] at hn
    obtain ⟨rfl, -⟩ := hn
    exact .inr ⟨hwrite, h.lockHolder⟩
  | releaseLock lock =>
    cases hn
    by_cases hlock : lock = k
    · rw [hlock, h.releaseLocalDdlLock_eq]
      exact .inl rfl
    · have hholder : n.db.lockHolder ≠ some lock := by
        simpa [h.lockHolder] using Ne.symm hlock
      rw [(Consistent.held k h).releaseLocalDdlLock_eq hholder]
      exact .inr ⟨hwrite, h.lockHolder⟩
  | confirmLock lock lockType =>
    cases hn
    unfold processConfirmDdlLock
    split_ifs <;> exact .inr ⟨hwrite, h.lockHolder⟩
  | declineLock lock lockType =>
    cases hn
    unfold processDeclineDdlLock
    split_ifs <;> exact .inr ⟨hwrite, h.lockHolder⟩
  | requestReplayConfirm lsn =>
    cases hn
    exact .inr ⟨hwrite, h.lockHolder⟩
  | replayConfirm lsn =>
    simp only [processMessage, processReplayConfirm] at hn
    split_ifs at hn
    · obtain ⟨-, rows, rfl⟩ := sendConfirmLock_cases hn
      exact .inr ⟨hwrite, h.lockHolder⟩
    all_goals
      cases hn
      exact .inr ⟨hwrite, h.lockHolder⟩

variable {cancelled : Bool}

theorem LockNode.HeldFor.work_write (h : n.HeldFor k) (hwrite : n.db.lockType = .write)
    (hclear : ∀ left found, n.workers w ≠ .clearing left found)
    (hn : n.work me w cancelled = some (n', ms)) :
    n'.db.lockType = .write ∧ n'.db.lockHolder = some k := by
  have hconsistent := Consistent.held k h
  cases hpc : n.workers w with
  | confirming =>
    simp only [work, hpc] at hn
    obtain ⟨-, rows, rfl⟩ := sendConfirmLock_cases hn
    exact ⟨hwrite, h.lockHolder⟩
  | raisingConfirm lockType =>
    have hheld := hconsistent.heldFor_of_granting (w := w) (by simp [hpc, WorkerPc.granting])
    have hfits := hheld.fits
    rw [hpc] at hfits
    exact hfits.elim
  | raising lockType =>
    have hheld := hconsistent.heldFor_of_granting (w := w) (by simp [hpc, WorkerPc.granting])
    have hfits := hheld.fits
    rw [hpc] at hfits
    simp only [work, hpc] at hn
    cases hn
    exact ⟨hfits.1, h.lockHolder⟩
  | clearing left found => exact absurd hpc (hclear left found)
  | idle | done | stopped =>
    simp only [work, hpc] at hn
    cases hn
  | declining announced lockType =>
    obtain rfl := hconsistent.announced_eq_false hpc
    simp only [work, hpc] at hn
    cases hn
    exact ⟨hwrite, h.lockHolder⟩
  | _ =>
    simp only [work, hpc] at hn
    cases hn
    exact ⟨hwrite, h.lockHolder⟩

theorem LockNode.closing_of_work (hn : n.work me w cancelled = some (n', ms))
    (hclosing : (n'.workers w).closing = true) :
    (n.workers w).closing = true ∨
      cancelled = true ∧ ∃ upgrade lockType, n.workers w = .examining upgrade lockType := by
  cases hpc : n.workers w with
  | raising | capturing | requesting => exact .inl rfl
  | examining upgrade lockType =>
    cases cancelled with
    | true => exact .inr ⟨rfl, upgrade, lockType, rfl⟩
    | false =>
      simp only [work, hpc] at hn
      cases hn
      simp [WorkerPc.closing] at hclosing
  | confirming | raisingConfirm =>
    simp only [work, hpc] at hn
    simp [place_of_sendConfirmLock hn, WorkerPc.closing] at hclosing
  | idle | done | stopped =>
    simp only [work, hpc] at hn
    cases hn
  | clearing left found =>
    cases left <;> simp only [work, hpc] at hn <;>
      cases hn <;>
      simp [WorkerPc.closing] at hclosing
  | _ =>
    simp only [work, hpc] at hn
    cases hn
    simp [WorkerPc.closing] at hclosing

theorem UserNode.Quiescent.workerStep (h : s.Quiescent) {conflicts : ν → Option (List ℕ)}
    {captured : Bool} (hstep : s.node.WorkerStep w n ms)
    (hconflicts : conflicts w = none ∧ ∀ v, v ≠ w → conflicts v = s.conflicts v)
    (hclosed : (n.workers w).closing = true → ∀ x, (s.xacts x).Quiet)
    (hcaptured : captured = true → n.db.lockType = .write ∧
      (∃ k, n.db.lockHolder = some k) ∧ ∀ x, (s.xacts x).Quiet) :
    { s with node := n.log ms.length, conflicts := conflicts, captured := captured }.Quiescent where
  consistent := hstep.consistent.setPerdb n.db.nnodes _ _ _
  noClearing v left found := by
    by_cases hv : v = w
    · exact hv ▸ hstep.frame.noClearing left found
    · change n.workers v ≠ _
      rw [hstep.frame.workers v hv]
      exact h.noClearing v left found
  hasXid := h.hasXid
  started := h.started
  listed v list hv := by
    have hvw : v ≠ w := by
      rintro rfl
      simp [hconflicts.1] at hv
    change (∃ upgrade lockType, n.workers v = _) ∧ _
    rw [hstep.frame.workers v hvw]
    exact h.listed v list (hconflicts.2 v hvw ▸ hv)
  closed v hv := by
    by_cases hvw : v = w
    · exact hclosed (hvw ▸ hv)
    · change (n.workers v).closing = true at hv
      rw [hstep.frame.workers v hvw] at hv
      exact h.closed v hv
  captured := hcaptured
  lateCommits := h.lateCommits

variable {t : UserNode ν}

section

variable (h : s.Quiescent)
include h

theorem UserNode.Quiescent.goOn (hlist : cancelled = true → (∃ upgrade lockType,
      s.node.workers w = .examining upgrade lockType) → s.conflicts w = some [])
    (ht : s.goOn me w cancelled = some t) : t.Quiescent := by
  simp only [UserNode.goOn, Option.bind_eq_bind, Option.bind_eq_some_iff, Option.pure_def,
    Option.some.injEq] at ht
  obtain ⟨⟨n, ms⟩, hn, rfl⟩ := ht
  have hstep := h.consistent.work (h.noClearing w) hn
  refine h.workerStep hstep ⟨by simp, fun v hv => by simp [hv]⟩ (fun hclosing x => ?_)
    fun hcaptured => ?_
  · rcases LockNode.closing_of_work hn hclosing with hold | ⟨hcancelled, hexamining⟩
    · exact h.closed w hold x
    · have hempty := hlist hcancelled hexamining
      simpa using (h.listed w [] hempty).2 x
  · simp only [Bool.or_eq_true, decide_eq_true_eq] at hcaptured
    obtain ⟨k, hheld, hwrite, hquiet⟩ : ∃ k, s.node.HeldFor k ∧ s.node.db.lockType = .write ∧
        ∀ x, (s.xacts x).Quiet := by
      rcases hcaptured with hcaptured | hpc
      · obtain ⟨hwrite, ⟨k, hk⟩, hquiet⟩ := h.captured hcaptured
        exact ⟨k, h.consistent.heldFor hk, hwrite, hquiet⟩
      · -- the position is read with the write lock stored and after the loop
        have hheld := h.consistent.heldFor_of_granting (w := w) (by simp [hpc, WorkerPc.granting])
        have hfits := hheld.fits
        rw [hpc] at hfits
        exact ⟨w, hheld, hfits.1, h.closed w (by simp [hpc, WorkerPc.closing])⟩
    obtain ⟨hwrite', hholder⟩ := hheld.work_write hwrite (h.noClearing w) hn
    exact ⟨hwrite', ⟨k, hholder⟩, hquiet⟩

theorem UserNode.Quiescent.receive (ht : s.step me (.receive w m) = some t) : t.Quiescent := by
  simp only [step, Option.bind_eq_bind, Option.bind_eq_some_iff, Option.guard_eq_some',
    Option.pure_def, Option.some.injEq, exists_const] at ht
  obtain ⟨⟨-, hidle, hm⟩, ⟨n, ms⟩, hn, rfl⟩ := ht
  have hstep := h.consistent.processMessage hidle hm hn
  have hconflicts : s.conflicts w = none := by
    by_contra hne
    obtain ⟨list, hlist⟩ := Option.ne_none_iff_exists'.mp hne
    obtain ⟨⟨upgrade, lockType, hpc⟩, -⟩ := h.listed w list hlist
    simp [hidle] at hpc
  refine h.workerStep hstep ⟨hconflicts, fun _ _ => rfl⟩ (fun hclosing => ?_) fun hcaptured => ?_
  · simp [(LockNode.place_of_processMessage hn).closing] at hclosing
  · simp only [Bool.and_eq_true, decide_eq_true_eq] at hcaptured
    obtain ⟨hwrite, ⟨k, hk⟩, hquiet⟩ := h.captured hcaptured.1
    rcases (h.consistent.heldFor hk).processMessage_write hwrite hm hn with hfree | ⟨hwrite', hk'⟩
    · exact absurd hfree hcaptured.2
    · exact ⟨hwrite', ⟨k, hk'⟩, hquiet⟩

theorem UserNode.Quiescent.checkDml (hstays : s.StaysQuiet (.checkDml x))
    (ht : s.step me (.checkDml x) = some t) : t.Quiescent := by
  simp only [UserNode.step] at ht
  split_ifs at ht with hpass
  cases ht
  refine h.setXact le_rfl (h.hasXid x) (fun _ => h.started x hpass.1) fun hclosing => ?_
  obtain ⟨hcaptured, hraising⟩ := h.of_passesCheckDml hpass.2
  obtain hc | ⟨w, hlist | hw⟩ := hclosing
  · simp [hcaptured] at hc
  · exact absurd (hstays w).1 hlist
  · obtain ⟨lockType, hpc⟩ := hraising w hw
    exact absurd hpc ((hstays w).2 lockType)

theorem UserNode.Quiescent.takeConflicts (ht : s.step me (.takeConflicts w) = some t) :
    t.Quiescent := by
  simp only [step] at ht
  split at ht
  case h_1 upgrade lockType hpc hnone =>
    cases ht
    refine { h with listed := fun v list hv => ?_ }
    by_cases hvw : v = w
    · subst hvw
      refine ⟨⟨upgrade, lockType, hpc⟩, fun x => ?_⟩
      obtain rfl : s.conflictingXids = list := by simpa using hv
      cases hrunning : (s.xacts x).running with
      | false => exact .inl fun hr => by simp [hrunning] at hr
      | true =>
        refine .inr (List.mem_filter.mpr ⟨?_, hrunning⟩)
        exact List.mem_range.mpr (h.started x hrunning)
    · simp only [Function.update_of_ne hvw] at hv
      exact h.listed v list hv
  case h_2 => cases ht

theorem UserNode.Quiescent.passConflict (hstays : s.StaysQuiet (.passConflict w))
    (ht : s.step me (.passConflict w) = some t) :
    t.Quiescent := by
  simp only [step] at ht
  split at ht
  case h_1 x rest hlist =>
    split_ifs at ht with hpass
    cases ht
    obtain ⟨hplace, hlisted⟩ := h.listed w (x :: rest) hlist
    have hquiet : (s.xacts x).Quiet := by
      intro hrunning
      refine ⟨hstays (x :: rest) hlist x rfl hrunning, ?_⟩
      have hnoXid := hpass.resolve_left (by simp [hrunning])
      by_contra hwrote
      simp [h.hasXid x (by simpa using hwrote)] at hnoXid
    refine { h with listed := fun v list hv => ?_ }
    by_cases hvw : v = w
    · subst hvw
      obtain rfl : rest = list := by simpa using hv
      refine ⟨hplace, fun q => ?_⟩
      rcases hlisted q with hq | hq
      · exact .inl hq
      · rcases List.mem_cons.mp hq with rfl | hq
        · exact .inl hquiet
        · exact .inr hq
    · simp only [Function.update_of_ne hvw] at hv
      exact h.listed v list hv
  case h_2 => cases ht

theorem UserNode.Quiescent.commit (ht : s.step me (.commit x) = some t) : t.Quiescent := by
  simp only [step] at ht
  split_ifs at ht with hrunning hlate
  · have hquiet := (h.captured hlate.1).2.2 x hrunning
    simp [hquiet.2] at hlate
  · exact Option.some.inj ht ▸ (h.endXact x).log 1

theorem UserNode.Quiescent.resume (hdone : s.node.workers w = .done) :
    { s with node := s.node.setWorker w .idle }.Quiescent := by
  refine { h with
    consistent := h.consistent.setWorker rfl
    noClearing := fun v left found => ?_
    listed := fun v list hv => ?_
    closed := fun v hv => ?_ }
  · by_cases hvw : v = w
    · simp [hvw]
    · rw [LockNode.setWorker_of_ne _ hvw]
      exact h.noClearing v left found
  · have hlisted := h.listed v list hv
    by_cases hvw : v = w
    · obtain ⟨⟨upgrade, lockType, hpc⟩, -⟩ := hlisted
      simp [hvw, hdone] at hpc
    · rwa [LockNode.setWorker_of_ne _ hvw]
  · by_cases hvw : v = w
    · simp [hvw, WorkerPc.closing] at hv
    · rw [LockNode.setWorker_of_ne _ hvw] at hv
      exact h.closed v hv

theorem UserNode.Quiescent.step {a : UserAction ν} (hstays : s.StaysQuiet a)
    (ht : s.step me a = some t) : t.Quiescent := by
  cases a with
  | begin =>
    cases ht
    refine h.setXact (by omega) (by simp [UserXact.begun]) (fun _ => by omega) fun _ _ _ => ?_
    exact ⟨rfl, rfl⟩
  | checkDml x => exact h.checkDml hstays ht
  | assignXid x =>
    simp only [UserNode.step] at ht
    split_ifs at ht with hrunning
    cases ht
    exact h.setXact le_rfl (fun _ => rfl) (fun _ => h.started x hrunning) fun _ hquiet => hquiet
  | write x =>
    simp only [UserNode.step] at ht
    split_ifs at ht with hwrite
    cases ht
    have hwrote : (s.setXact x { s.xacts x with wrote := true }).Quiescent := by
      refine h.setXact le_rfl (fun _ => hwrite.2.2) (fun _ => h.started x hwrite.1)
        fun _ hquiet => ?_
      -- a transaction in a checked statement is not quiet
      exact absurd hwrite.2.1 (by simp [(hquiet hwrite.1).1])
    exact hwrote.log 1
  | writeUnchecked x =>
    simp only [UserNode.step] at ht
    split_ifs at ht with hwrite
    cases ht
    have hwrote : (s.setXact x { s.xacts x with wrote := true }).Quiescent :=
      h.setXact le_rfl (fun _ => hwrite.2) (fun _ => h.started x hwrite.1)
        fun hclosing => absurd hclosing hstays
    exact hwrote.log 1
  | endStatement x =>
    simp only [UserNode.step] at ht
    split_ifs at ht with hrunning
    cases ht
    exact h.setXact le_rfl (h.hasXid x) (fun _ => h.started x hrunning) fun _ hquiet hr =>
      ⟨rfl, (hquiet hr).2⟩
  | commit x => exact h.commit ht
  | abort x =>
    simp only [UserNode.step] at ht
    split_ifs at ht
    exact Option.some.inj ht ▸ h.endXact x
  | receive w m => exact h.receive ht
  | work w =>
    simp only [UserNode.step] at ht
    split at ht
    · split_ifs at ht with hempty
      exact h.goOn (fun _ _ => hempty) ht
    · next hplace =>
      refine h.goOn (fun _ ⟨upgrade, lockType, hpc⟩ => ?_) ht
      exact absurd hpc (hplace upgrade lockType)
  | takeConflicts w => exact h.takeConflicts ht
  | passConflict w => exact h.passConflict hstays ht
  | refuse w =>
    simp only [UserNode.step] at ht
    split at ht
    · split_ifs at ht
      exact h.goOn (by simp) ht
    · cases ht
  | resume w =>
    simp only [UserNode.step] at ht
    split_ifs at ht with hdone
    exact Option.some.inj ht ▸ h.resume hdone

end

instance [Fintype ν] (s : UserNode ν) : Decidable s.Closing :=
  inferInstanceAs (Decidable (_ ∨ ∃ _, _ ∨ _))

instance : Fintype LockType := ⟨{.nolock, .ddl, .write}, by rintro (_ | _ | _) <;> decide⟩

instance [Fintype ν] (s : UserNode ν) (a : UserAction ν) : Decidable (s.StaysQuiet a) := by
  rcases a <;> unfold UserNode.StaysQuiet <;> infer_instance

def waitForWriter (w : ν) : List (UserAction ν) :=
  [.begin, .checkDml 0, .assignXid 0, .write 0, .begin, .receive w (.acquireLock .write), .work w,
    .takeConflicts w, .endStatement 0, .commit 0, .passConflict w, .passConflict w, .work w,
    .work w, .assignXid 1, .commit 1]

/-- A statement that has passed the check has no transaction id yet when the loop comes to
its transaction. -/
def skipChecked (w : ν) : List (UserAction ν) :=
  [.begin, .checkDml 0, .receive w (.acquireLock .write), .work w, .takeConflicts w,
    .passConflict w, .work w, .work w, .assignXid 0, .write 0, .commit 0]

-- The same happens to a transaction that begins after the list of an upgrade was taken.
example : (run (UserNode.step (0 : Fin 2)) (fun _ _ => True) (UserNode.start (Fin 2) 1)
    [.receive 1 (.acquireLock .ddl), .work 1, .resume 1, .receive 1 (.acquireLock .write), .work 1,
      .takeConflicts 1, .begin, .checkDml 0, .assignXid 0, .write 0, .work 1, .work 1, .work 1,
      .commit 0]).any (fun s => s.lateCommits = [0]) = true := by
  decide +kernel

-- A `COPY` is not checked, so that its rows are committed whenever it comes.
example : (run (UserNode.step (0 : Fin 2)) (fun _ _ => True) (UserNode.start (Fin 2) 1)
    [.receive 1 (.acquireLock .write), .work 1, .takeConflicts 1, .work 1, .work 1, .begin,
      .assignXid 0, .writeUnchecked 0, .commit 0]).any (fun s => s.lateCommits = [0]) = true := by
  decide +kernel

end Pgactive.Locks
