import Pgactive.Transition
import Pgactive.BroadcastLog
import Pgactive.Locks.Acquire
import Pgactive.Locks.Peer

/-!
# The nodes that share a global lock

Every node writes its messages into its own log, which the others replay in order. A position moves
only after a message has been processed, so that a restarted worker meets it again. The rest of the
state is history, which no step reads: what each message answers and whose messages were counted.
-/

namespace Pgactive.Locks

open BroadcastLog

variable {ν : Type}

/-- A lock message in the log of its sender. -/
structure Entry (ν : Type) where
  message : LockMessage ν
  /-- The request that the message answers: the node that sent the request, and the
  number of the request in that node's log, counted from one. -/
  answers : Option (ν × ℕ)
deriving DecidableEq

def Entry.isAcquire (e : Entry ν) : Bool :=
  match e.message with
  | .acquireLock _ => true
  | _ => false

def Entry.isReplayRequest (e : Entry ν) : Bool :=
  match e.message with
  | .requestReplayConfirm _ => true
  | _ => false

def Entry.isRelease (e : Entry ν) : Bool :=
  match e.message with
  | .releaseLock _ => true
  | _ => false

/-- The nodes, their logs, and the history of the run. -/
structure Cluster (ν : Type) where
  /-- The logs and how far each node has replayed them. -/
  net : Net ν (Entry ν)
  node : ν → LockNode ν
  /-- `granted j i` is the number of the last request of `i` for which `j` took or
  raised its local lock. -/
  granted : ν → ν → ℕ
  /-- The peers that `nnodes` counts. -/
  peers : ν → Finset ν
  /-- The senders of the confirmations in `acquire_confirmed`. -/
  confirmedBy : ν → List ν
  /-- The messages counted in `acquire_declined`. -/
  declinedBy : ν → List (Entry ν)
  /-- The senders of the confirmations in `replay_confirmed`. -/
  replayedBy : ν → List ν

/-- A step of one process of one node. -/
inductive Action (ν : Type)
  /-- A backend calls `pgactive_acquire_ddl_lock`. -/
  | acquire (i : ν) (p : ℕ) (lockType : LockType)
  /-- A waiting backend looks at the tally. -/
  | check (i : ν) (p : ℕ)
  /-- A waiting backend is interrupted by a timeout or a cancel request. -/
  | interrupt (i : ν) (p : ℕ)
  /-- A backend with a full tally takes the lock. -/
  | finish (i : ν) (p : ℕ)
  | sendRelease (i : ν) (p : ℕ)
  /-- The transaction ends: shared memory. -/
  | releaseOwned (i : ν) (p : ℕ)
  /-- The worker of `w` starts on the next message of `w`. -/
  | deliver (i w : ν)
  /-- The worker of `w` goes on with its message. -/
  | work (i w : ν) (cancelled : Bool)
  /-- The worker of `w` advances the replication origin. -/
  | advance (i w : ν)
  /-- The worker of `w` is restarted and resumes at an earlier position or at the
  message it was working on. -/
  | rewind (i w : ν) (k : ℕ)
  /-- The node crashes and starts again. -/
  | restart (i : ν)
  /-- The status of `j` becomes killed in the catalog of `i`. -/
  | kill (i j : ν)
  /-- The worker of the detached node `j` terminates. -/
  | stopWorker (i j : ν)
  /-- The per-database worker starts a pass. -/
  | maintain (i : ν)
  /-- The per-database worker forgets a detached node. -/
  | forget (i : ν)
  /-- The per-database worker sets the number of nodes. -/
  | setNnodes (i : ν)
  /-- Unrelated records are written to the write-ahead log. -/
  | writeWal (i : ν) (k : ℕ)

def Action.node : Action ν → ν
  | .acquire i .. | .check i _ | .interrupt i _ | .finish i _ | .sendRelease i _
  | .releaseOwned i _ | .deliver i _ | .work i .. | .advance i _ | .rewind i .. | .restart i
  | .kill i _ | .stopWorker i _ | .maintain i | .forget i | .setNnodes i | .writeWal i _ => i

/-- The steps of a cluster with fixed membership in which messages are delivered reliably:
calls and transactions of backends, and the processing of messages. -/
def Action.isLockStep : Action ν → Bool
  | .acquire .. | .check .. | .interrupt .. | .finish .. | .sendRelease .. | .releaseOwned ..
  | .deliver .. | .work .. | .advance .. | .writeWal .. => true
  | _ => false

/-- The worker of `w` at `i` processes a message in one piece, going on `sections` times
after its first section. -/
def Action.process (i w : ν) (sections : ℕ) : List (Action ν) :=
  .deliver i w :: List.replicate sections (.work i w true) ++ [.advance i w]

def Action.abort (i : ν) (p : ℕ) : List (Action ν) :=
  [.interrupt i p, .sendRelease i p, .releaseOwned i p]

/-- Nothing but the state, the log and the positions of node `i` and its history has
changed, and its log has been extended. -/
structure Cluster.ActsAt (s : Cluster ν) (i : ν) (t : Cluster ν) : Prop where
  node : ∀ k, k ≠ i → t.node k = s.node k
  log : ∀ k, k ≠ i → t.net.log k = s.net.log k
  logPrefix : s.net.log i <+: t.net.log i
  pos : ∀ k, k ≠ i → t.net.pos k = s.net.pos k
  granted : ∀ k, k ≠ i → t.granted k = s.granted k
  peers : ∀ k, k ≠ i → t.peers k = s.peers k
  confirmedBy : ∀ k, k ≠ i → t.confirmedBy k = s.confirmedBy k
  declinedBy : ∀ k, k ≠ i → t.declinedBy k = s.declinedBy k
  replayedBy : ∀ k, k ≠ i → t.replayedBy k = s.replayedBy k

variable [DecidableEq ν]

@[simps -fullyApplied net granted]
def Cluster.put (s : Cluster ν) (i : ν) (n : LockNode ν) : Cluster ν :=
  { s with node := Function.update s.node i n }

/-- Replace the state of node `i` and append the messages it sends to its log. Each
message is a record of the write-ahead log. -/
@[simps -fullyApplied net granted]
def Cluster.send (s : Cluster ν) (i : ν) (n : LockNode ν) (es : List (Entry ν)) : Cluster ν :=
  { s with
    node := Function.update s.node i { n with insertLsn := n.insertLsn + es.length }
    net := s.net.append i es }

section

variable (s : Cluster ν) (i : ν) (n : LockNode ν)

@[simp] theorem Cluster.put_node_self : (s.put i n).node i = n := by simp [put]

@[simp] theorem Cluster.send_node_self (es : List (Entry ν)) :
    (s.send i n es).node i = { n with insertLsn := n.insertLsn + es.length } := by simp [send]

@[simp] theorem Cluster.send_nil : s.send i n [] = s.put i n := by
  rw [send, Net.append_nil]
  rfl

end

variable {i j : ν}

theorem Cluster.put_node_of_ne (s : Cluster ν) (h : j ≠ i) (n : LockNode ν) :
    (s.put i n).node j = s.node j := by simp [put, h]

theorem Cluster.send_node_of_ne (s : Cluster ν) (h : j ≠ i) (n : LockNode ν) (es : List (Entry ν)) :
    (s.send i n es).node j = s.node j := by simp [send, h]

def unasked (m : LockMessage ν) : Entry ν := ⟨m, none⟩

/-- The log entry for a message that the worker of `w` at `i` sends. A confirmation
answers the request for which the local lock was taken, any other answer the message that
is being processed. -/
def Cluster.entry (s : Cluster ν) (i w : ν) (m : LockMessage ν) : Entry ν :=
  match m with
  | .confirmLock k _ => ⟨m, some (k, s.granted i k)⟩
  | .declineLock _ _ | .replayConfirm _ => ⟨m, some (w, s.net.pos i w + 1)⟩
  | _ => unasked m

/-- A backend calls `pgactive_acquire_ddl_lock`. A new request starts a new tally. -/
def Cluster.acquire (s : Cluster ν) (i : ν) (p : ℕ) (lockType : LockType) : Option (Cluster ν) :=
  if lockType ≠ .nolock ∧ ((s.node i).backends p).outside = true then
    let (n, ms) := (s.node i).acquireDdlLock p lockType
    let t := s.send i n (ms.map unasked)
    some (if ms.isEmpty then t else { t with
      confirmedBy := Function.update s.confirmedBy i []
      declinedBy := Function.update s.declinedBy i [] })
  else none

def Cluster.check (s : Cluster ν) (i : ν) (p : ℕ) : Option (Cluster ν) :=
  match ((s.node i).backends p).pc with
  | .tallying lockType => some (s.put i ((s.node i).checkTally p lockType))
  | _ => none

def Cluster.interrupt (s : Cluster ν) (i : ν) (p : ℕ) : Option (Cluster ν) :=
  match ((s.node i).backends p).pc with
  | .tallying _ =>
    some (s.put i ((s.node i).setBackend p { (s.node i).backends p with pc := .idle }))
  | _ => none

def Cluster.finish (s : Cluster ν) (i : ν) (p : ℕ) : Option (Cluster ν) :=
  match ((s.node i).backends p).pc with
  | .quorum lockType =>
    some { s.put i ((s.node i).finishAcquire p lockType) with
      confirmedBy := Function.update s.confirmedBy i []
      declinedBy := Function.update s.declinedBy i [] }
  | _ => none

def Cluster.sendRelease (s : Cluster ν) (i : ν) (p : ℕ) : Option (Cluster ν) :=
  let b := (s.node i).backends p
  if b.thisXactAcquiredLock = true ∧ b.outside = true then
    let (n, ms) := (s.node i).sendRelease i p
    some (s.send i n (ms.map unasked))
  else none

def Cluster.releaseOwned (s : Cluster ν) (i : ν) (p : ℕ) : Option (Cluster ν) :=
  match ((s.node i).backends p).pc with
  | .releasing => some (s.put i ((s.node i).releaseOwned p))
  | _ => none

def Cluster.deliver (s : Cluster ν) (i w : ν) : Option (Cluster ν) := do
  guard (i ≠ w ∧ (s.node i).workers w = .idle)
  let e ← s.net.next i w
  let (n, ms) ← (s.node i).processMessage i w e.message
  return { s.send i n (ms.map (s.entry i w)) with
    granted := if (n.workers w).granting then
        Function.update s.granted i (Function.update (s.granted i) w (s.net.pos i w + 1))
      else s.granted
    replayedBy := match e.message with
      | .replayConfirm lsn =>
        if (s.node i).db.countsReplay lsn then
          Function.update s.replayedBy i (w :: s.replayedBy i)
        else s.replayedBy
      | _ => s.replayedBy }

def Cluster.work (s : Cluster ν) (i w : ν) (cancelled : Bool) : Option (Cluster ν) := do
  guard (i ≠ w)
  let e ← s.net.next i w
  let (n, ms) ← (s.node i).work i w cancelled
  let t := s.send i n (ms.map (s.entry i w))
  return match (s.node i).workers w with
    | .countingConfirm =>
      { t with confirmedBy := Function.update s.confirmedBy i (w :: s.confirmedBy i) }
    | .countingDecline =>
      { t with declinedBy := Function.update s.declinedBy i (e :: s.declinedBy i) }
    | .requesting _ => { t with replayedBy := Function.update s.replayedBy i [] }
    | _ => t

/-- The worker of `w` at `i` advances its replication origin past the processed message. -/
def Cluster.advance (s : Cluster ν) (i w : ν) : Option (Cluster ν) := do
  guard (i ≠ w ∧ (s.node i).workers w = .done)
  let _ ← s.net.next i w
  return { s.put i ((s.node i).setWorker w .idle) with net := s.net.advance i w }

def Cluster.rewind (s : Cluster ν) (i w : ν) (k : ℕ) : Option (Cluster ν) :=
  if (s.node i).workers w ≠ .stopped ∧ k ≤ s.net.pos i w then
    some { s.put i ((s.node i).setWorker w .idle) with net := s.net.seek i w k }
  else none

def Cluster.restart (s : Cluster ν) (i : ν) : Cluster ν :=
  let (n, ms) := (s.node i).startup
  { s.send i n (ms.map unasked) with
    confirmedBy := Function.update s.confirmedBy i []
    declinedBy := Function.update s.declinedBy i []
    replayedBy := Function.update s.replayedBy i [] }

def Cluster.forget (s : Cluster ν) (i : ν) : Option (Cluster ν) :=
  match (s.node i).perdb with
  | .maintaining (j :: rest) counted =>
    some (s.put i { (s.node i).nodeDetached i j with perdb := .maintaining rest counted })
  | _ => none

/-- The per-database worker of `i` sets the number of nodes. -/
def Cluster.setNnodes (s : Cluster ν) (i : ν) : Option (Cluster ν) :=
  match (s.node i).perdb with
  | .maintaining [] counted =>
    some { s.put i ((s.node i).setNnodes counted) with
      peers := Function.update s.peers i counted }
  | _ => none

def Cluster.step [Fintype ν] (s : Cluster ν) : Action ν → Option (Cluster ν)
  | .acquire i p lockType => s.acquire i p lockType
  | .check i p => s.check i p
  | .interrupt i p => s.interrupt i p
  | .finish i p => s.finish i p
  | .sendRelease i p => s.sendRelease i p
  | .releaseOwned i p => s.releaseOwned i p
  | .deliver i w => s.deliver i w
  | .work i w cancelled => s.work i w cancelled
  | .advance i w => s.advance i w
  | .rewind i w k => s.rewind i w k
  | .restart i => some (s.restart i)
  | .kill i j =>
    if i ≠ j then some (s.put i { s.node i with killed := j :: (s.node i).killed }) else none
  | .stopWorker i j =>
    if j ∈ (s.node i).killed then some (s.put i ((s.node i).setWorker j .stopped)) else none
  | .maintain i =>
    match (s.node i).perdb with
    | .idle => some (s.put i ((s.node i).maintainDbWorkers i))
    | .maintaining .. => none
  | .forget i => s.forget i
  | .setNnodes i => s.setNnodes i
  | .writeWal i k => some (s.put i { s.node i with insertLsn := (s.node i).insertLsn + k })

variable {s t : Cluster ν} {p : ℕ}

theorem Cluster.acquire_cases {lockType : LockType} (h : s.acquire i p lockType = some t) :
    lockType ≠ .nolock ∧ ((s.node i).backends p).outside = true ∧
      ((((s.node i).backends p).thisXactAcquiredLock = true ∧
          lockType.level ≤ (s.node i).db.lockType.level ∧
          t = s.put i ((s.node i).setBackend p
            { (s.node i).backends p with pc := .returned lockType })) ∨
        (((s.node i).backends p).thisXactAcquiredLock = false ∧
          t = s.put i ((s.node i).setBackend p { (s.node i).backends p with pc := .idle })) ∨
        ((((s.node i).backends p).thisXactAcquiredLock = true ∨ (s.node i).db.lockcount ≤ 0) ∧
          t = { s.send i ((s.node i).sendAcquire p lockType).1
              [unasked (.acquireLock lockType)] with
            confirmedBy := Function.update s.confirmedBy i []
            declinedBy := Function.update s.declinedBy i [] })) := by
  unfold acquire at h
  split_ifs at h with hcall
  refine ⟨hcall.1, hcall.2, ?_⟩
  rcases (s.node i).acquireDdlLock_cases p lockType with ⟨hacq, hlevel, hn⟩ | ⟨hacq, hn⟩ |
    ⟨hacq, hn⟩
    <;> rw [hn] at h
  · exact .inl ⟨hacq, hlevel, by simpa using h.symm⟩
  · exact .inr (.inl ⟨hacq, by simpa using h.symm⟩)
  · exact .inr (.inr ⟨hacq, (Option.some.inj h).symm⟩)

theorem Cluster.check_cases (h : s.check i p = some t) :
    ∃ lockType, ((s.node i).backends p).pc = .tallying lockType ∧
      t = s.put i ((s.node i).checkTally p lockType) := by
  unfold check at h
  split at h
  case h_1 lockType hpc => exact ⟨lockType, hpc, (Option.some.inj h).symm⟩
  case h_2 => cases h

theorem Cluster.interrupt_cases (h : s.interrupt i p = some t) :
    ∃ lockType, ((s.node i).backends p).pc = .tallying lockType ∧
      t = s.put i ((s.node i).setBackend p { (s.node i).backends p with pc := .idle }) := by
  unfold interrupt at h
  split at h
  case h_1 lockType hpc => exact ⟨lockType, hpc, (Option.some.inj h).symm⟩
  case h_2 => cases h

theorem Cluster.finish_cases (h : s.finish i p = some t) :
    ∃ lockType, ((s.node i).backends p).pc = .quorum lockType ∧
      t = { s.put i ((s.node i).finishAcquire p lockType) with
        confirmedBy := Function.update s.confirmedBy i []
        declinedBy := Function.update s.declinedBy i [] } := by
  unfold finish at h
  split at h
  case h_1 lockType hpc => exact ⟨lockType, hpc, (Option.some.inj h).symm⟩
  case h_2 => cases h

theorem Cluster.sendRelease_cases (h : s.sendRelease i p = some t) :
    ((s.node i).backends p).thisXactAcquiredLock = true ∧
      t = s.send i ((s.node i).sendRelease i p).1 [unasked (.releaseLock i)] := by
  simp only [sendRelease] at h
  split_ifs at h with hend
  exact ⟨hend.1, (Option.some.inj h).symm⟩

theorem Cluster.releaseOwned_cases (h : s.releaseOwned i p = some t) :
    ((s.node i).backends p).pc = .releasing ∧ t = s.put i ((s.node i).releaseOwned p) := by
  unfold releaseOwned at h
  split at h
  case h_1 hpc => exact ⟨hpc, (Option.some.inj h).symm⟩
  case h_2 => cases h

variable {w : ν}

theorem Cluster.deliver_cases (h : s.deliver i w = some t) :
    i ≠ w ∧ (s.node i).workers w = .idle ∧ ∃ e n ms, s.net.next i w = some e ∧
      (s.node i).processMessage i w e.message = some (n, ms) ∧
      t = { s.send i n (ms.map (s.entry i w)) with
        granted := if (n.workers w).granting then
            Function.update s.granted i (Function.update (s.granted i) w (s.net.pos i w + 1))
          else s.granted
        replayedBy := match e.message with
          | .replayConfirm lsn =>
            if (s.node i).db.countsReplay lsn then
              Function.update s.replayedBy i (w :: s.replayedBy i)
            else s.replayedBy
          | _ => s.replayedBy } := by
  simp only [deliver, Option.bind_eq_bind, Option.bind_eq_some_iff, Option.guard_eq_some',
    Option.pure_def, Option.some.injEq, exists_const] at h
  obtain ⟨⟨hiw, hidle⟩, e, hnext, ⟨n, ms⟩, hn, rfl⟩ := h
  exact ⟨hiw, hidle, e, n, ms, hnext, hn, rfl⟩

theorem Cluster.work_cases {cancelled : Bool} (h : s.work i w cancelled = some t) :
    i ≠ w ∧ ∃ e n ms, s.net.next i w = some e ∧
      (s.node i).work i w cancelled = some (n, ms) ∧
      t = match (s.node i).workers w with
        | .countingConfirm =>
          { s.send i n (ms.map (s.entry i w)) with
            confirmedBy := Function.update s.confirmedBy i (w :: s.confirmedBy i) }
        | .countingDecline =>
          { s.send i n (ms.map (s.entry i w)) with
            declinedBy := Function.update s.declinedBy i (e :: s.declinedBy i) }
        | .requesting _ =>
          { s.send i n (ms.map (s.entry i w)) with
            replayedBy := Function.update s.replayedBy i [] }
        | _ => s.send i n (ms.map (s.entry i w)) := by
  simp only [work, Option.bind_eq_bind, Option.bind_eq_some_iff, Option.guard_eq_some',
    Option.pure_def, Option.some.injEq, exists_const] at h
  obtain ⟨hiw, e, hnext, ⟨n, ms⟩, hn, rfl⟩ := h
  exact ⟨hiw, e, n, ms, hnext, hn, rfl⟩

theorem Cluster.advance_cases (h : s.advance i w = some t) :
    i ≠ w ∧ (s.node i).workers w = .done ∧ (∃ e, s.net.next i w = some e) ∧
      t = { s.put i ((s.node i).setWorker w .idle) with net := s.net.advance i w } := by
  simp only [advance, Option.bind_eq_bind, Option.bind_eq_some_iff, Option.guard_eq_some',
    Option.pure_def, Option.some.injEq, exists_const] at h
  obtain ⟨⟨hiw, hdone⟩, e, hnext, rfl⟩ := h
  exact ⟨hiw, hdone, ⟨e, hnext⟩, rfl⟩

theorem Cluster.rewind_cases {k : ℕ} (h : s.rewind i w k = some t) :
    t = { s.put i ((s.node i).setWorker w .idle) with net := s.net.seek i w k } := by
  unfold rewind at h
  split_ifs at h
  exact (Option.some.inj h).symm

theorem Cluster.forget_cases (h : s.forget i = some t) :
    ∃ j rest counted, (s.node i).perdb = .maintaining (j :: rest) counted ∧
      t = s.put i { (s.node i).nodeDetached i j with perdb := .maintaining rest counted } := by
  unfold forget at h
  split at h
  case h_1 j rest counted hp => exact ⟨j, rest, counted, hp, (Option.some.inj h).symm⟩
  case h_2 => cases h

theorem Cluster.setNnodes_cases (h : s.setNnodes i = some t) :
    ∃ counted, (s.node i).perdb = .maintaining [] counted ∧
      t = { s.put i ((s.node i).setNnodes counted) with
        peers := Function.update s.peers i counted } := by
  unfold setNnodes at h
  split at h
  case h_1 counted hp => exact ⟨counted, hp, (Option.some.inj h).symm⟩
  case h_2 => cases h

theorem Cluster.kill_cases [Fintype ν] (h : s.step (.kill i j) = some t) :
    t = s.put i { s.node i with killed := j :: (s.node i).killed } := by
  simp only [step] at h
  split_ifs at h
  exact (Option.some.inj h).symm

theorem Cluster.stopWorker_cases [Fintype ν] (h : s.step (.stopWorker i j) = some t) :
    t = s.put i ((s.node i).setWorker j .stopped) := by
  simp only [step] at h
  split_ifs at h
  exact (Option.some.inj h).symm

theorem Cluster.maintain_cases [Fintype ν] (h : s.step (.maintain i) = some t) :
    t = s.put i ((s.node i).maintainDbWorkers i) := by
  simp only [step] at h
  split at h
  · exact (Option.some.inj h).symm
  · cases h

theorem Cluster.send_actsAt (s : Cluster ν) (i : ν) (n : LockNode ν) (es : List (Entry ν)) :
    s.ActsAt i (s.send i n es) where
  node _ hk := s.send_node_of_ne hk n es
  log _ hk := s.net.append_log_of_ne hk es
  logPrefix := by simp
  pos _ _ := rfl
  granted _ _ := rfl
  peers _ _ := rfl
  confirmedBy _ _ := rfl
  declinedBy _ _ := rfl
  replayedBy _ _ := rfl

theorem Cluster.put_actsAt (s : Cluster ν) (i : ν) (n : LockNode ν) : s.ActsAt i (s.put i n) := by
  simpa using s.send_actsAt i n []

theorem Cluster.seek_pos_of_ne (s : Cluster ν) {k : ν} (hk : k ≠ i) (w : ν) (m : ℕ) :
    (s.net.seek i w m).pos k = s.net.pos k := by simp [Net.seek, hk]

theorem Cluster.ActsAt.log_isPrefix (h : s.ActsAt i t) (j : ν) : s.net.log j <+: t.net.log j := by
  by_cases hj : j = i
  · exact hj ▸ h.logPrefix
  · rw [h.log j hj]

theorem Cluster.ActsAt.next {k : ν} {e : Entry ν} (h : s.ActsAt i t)
    (hpos : t.net.pos k w = s.net.pos k w) (he : s.net.next k w = some e) :
    t.net.next k w = some e := by
  rw [Net.next, hpos]
  exact getElem?_of_isPrefix (h.log_isPrefix w) he

theorem Cluster.step_actsAt [Fintype ν] {a : Action ν} (ht : s.step a = some t) :
    s.ActsAt a.node t := by
  cases a with
  | acquire i p lockType =>
    obtain ⟨-, -, ⟨-, -, rfl⟩ | ⟨-, rfl⟩ | ⟨-, rfl⟩⟩ := acquire_cases ht
    · exact s.put_actsAt i _
    · exact s.put_actsAt i _
    · have hsend := s.send_actsAt i ((s.node i).sendAcquire p lockType).1
        [unasked (.acquireLock lockType)]
      exact { hsend with
        confirmedBy := fun k hk => Function.update_of_ne hk _ _
        declinedBy := fun k hk => Function.update_of_ne hk _ _ }
  | check i p =>
    obtain ⟨_, -, rfl⟩ := check_cases ht
    exact s.put_actsAt i _
  | interrupt i p =>
    obtain ⟨_, -, rfl⟩ := interrupt_cases ht
    exact s.put_actsAt i _
  | finish i p =>
    obtain ⟨lockType, -, rfl⟩ := finish_cases ht
    have hput := s.put_actsAt i ((s.node i).finishAcquire p lockType)
    exact { hput with
      confirmedBy := fun k hk => Function.update_of_ne hk _ _
      declinedBy := fun k hk => Function.update_of_ne hk _ _ }
  | sendRelease i p =>
    obtain ⟨-, rfl⟩ := sendRelease_cases ht
    exact s.send_actsAt i _ _
  | releaseOwned i p =>
    obtain ⟨-, rfl⟩ := releaseOwned_cases ht
    exact s.put_actsAt i _
  | deliver i w =>
    obtain ⟨-, -, e, n, ms, -, -, rfl⟩ := deliver_cases ht
    have hsend := s.send_actsAt i n (ms.map (s.entry i w))
    refine { hsend with granted := fun k hk => ?_, replayedBy := fun k hk => ?_ }
    · simp only [Action.node] at hk ⊢
      split_ifs
      · exact Function.update_of_ne hk _ _
      · rfl
    · cases e.message with
      | replayConfirm lsn =>
        simp only [Action.node] at hk ⊢
        split_ifs
        · exact Function.update_of_ne hk _ _
        · rfl
      | _ => rfl
  | work i w cancelled =>
    obtain ⟨-, e, n, ms, -, -, rfl⟩ := work_cases ht
    have hsend := s.send_actsAt i n (ms.map (s.entry i w))
    split
    · exact { hsend with confirmedBy := fun k hk => Function.update_of_ne hk _ _ }
    · exact { hsend with declinedBy := fun k hk => Function.update_of_ne hk _ _ }
    · exact { hsend with replayedBy := fun k hk => Function.update_of_ne hk _ _ }
    · exact hsend
  | advance i w =>
    obtain ⟨-, -, -, rfl⟩ := advance_cases ht
    have hput := s.put_actsAt i ((s.node i).setWorker w .idle)
    exact { hput with pos := fun k hk => seek_pos_of_ne s hk w _ }
  | rewind i w m =>
    obtain rfl := rewind_cases ht
    have hput := s.put_actsAt i ((s.node i).setWorker w .idle)
    exact { hput with pos := fun k hk => seek_pos_of_ne s hk w m }
  | restart i =>
    rw [← Option.some.inj ht]
    have hsend := s.send_actsAt i (s.node i).startup.1 ((s.node i).startup.2.map unasked)
    exact { hsend with
      confirmedBy := fun k hk => Function.update_of_ne hk _ _
      declinedBy := fun k hk => Function.update_of_ne hk _ _
      replayedBy := fun k hk => Function.update_of_ne hk _ _ }
  | kill i j => exact kill_cases ht ▸ s.put_actsAt i _
  | stopWorker i j => exact stopWorker_cases ht ▸ s.put_actsAt i _
  | maintain i => exact maintain_cases ht ▸ s.put_actsAt i _
  | forget i =>
    obtain ⟨_, _, _, -, rfl⟩ := forget_cases ht
    exact s.put_actsAt i _
  | setNnodes i =>
    obtain ⟨counted, -, rfl⟩ := setNnodes_cases ht
    have hput := s.put_actsAt i ((s.node i).setNnodes counted)
    exact { hput with peers := fun k hk => Function.update_of_ne hk _ _ }
  | writeWal i m => exact Option.some.inj ht ▸ s.put_actsAt i _

theorem Cluster.peers_of_isLockStep [Fintype ν] {a : Action ν} (ha : a.isLockStep = true)
    (ht : s.step a = some t) : t.peers = s.peers := by
  cases a with
  | acquire i p lockType =>
    obtain ⟨-, -, ⟨-, -, rfl⟩ | ⟨-, rfl⟩ | ⟨-, rfl⟩⟩ := acquire_cases ht <;> rfl
  | check i p =>
    obtain ⟨_, -, rfl⟩ := check_cases ht
    rfl
  | interrupt i p =>
    obtain ⟨_, -, rfl⟩ := interrupt_cases ht
    rfl
  | finish i p =>
    obtain ⟨_, -, rfl⟩ := finish_cases ht
    rfl
  | sendRelease i p =>
    obtain ⟨-, rfl⟩ := sendRelease_cases ht
    rfl
  | releaseOwned i p =>
    obtain ⟨-, rfl⟩ := releaseOwned_cases ht
    rfl
  | deliver i w =>
    obtain ⟨-, -, e, n, ms, -, -, rfl⟩ := deliver_cases ht
    rfl
  | work i w cancelled =>
    obtain ⟨-, e, n, ms, -, -, heq⟩ := work_cases ht
    split at heq <;> exact heq ▸ rfl
  | advance i w =>
    obtain ⟨-, -, -, rfl⟩ := advance_cases ht
    rfl
  | writeWal i n => exact Option.some.inj ht ▸ rfl
  | _ => cases ha

/-- Every node is connected to all others, and nobody has asked for the lock yet. -/
def Cluster.start (ν : Type) [DecidableEq ν] [Fintype ν] : Cluster ν where
  net := Net.empty
  node := fun i => .unlocked ν (Finset.univ.erase i).card
  granted := fun _ _ => 0
  peers := fun i => Finset.univ.erase i
  confirmedBy := fun _ => []
  declinedBy := fun _ => []
  replayedBy := fun _ => []

end Pgactive.Locks
