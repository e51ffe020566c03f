import Pgactive.Locks.Crashes

/-!
# Shared memory and the stored row agree

The record in shared memory and the table `pgactive_global_locks` tell the same about the lock in
every run, with crashes and detached nodes, unless a holder raises its lock or a node that owns a
row starts anew: both handlers change the two sides in different sections. A startup that is
interrupted leaves half a record behind, on which the next one builds.
-/

namespace Pgactive.Locks

open BroadcastLog Transition

variable {ν : Type}

def LockState.isAcquire : LockState → Bool
  | .acquireTallyConfirmations | .acquireAcquired => true
  | _ => false

/-- The table holds exactly one row: it belongs to the holder, has the type of the lock, and
its state tells whether the lock is confirmed. -/
def LockNode.RowMatches (n : LockNode ν) : Prop :=
  match n.rows with
  | [r] => n.db.lockHolder = some r.owner ∧ r.lockType = n.db.lockType ∧
    (r.state = .acquired ↔ n.db.lockState = .peerConfirmed)
  | _ => False

/-- The invariant of the lock record. -/
@[mk_iff]
structure LockNode.RecordInvariant (n : LockNode ν) : Prop where
  lockcount : n.db.lockcount = 0 ∨ n.db.lockcount = 1
  lockState : n.db.lockcount = 0 ↔ n.db.lockState = .nolock
  lockType : n.db.lockcount = 0 ↔ n.db.lockType = .nolock
  peer : n.db.lockState.isPeer = true ↔ n.RowMatches
  acquire : n.db.lockState.isAcquire = true ↔ n.db.lockHolderLocalPid ≠ none ∧ ¬n.RowMatches
  acquireRows : n.db.lockState.isAcquire = true → n.rows = []

/-- The worker of `w` does not start on a startup message while `w` owns a row, nor on a
request with which the holder raises its lock. -/
def LockNode.KeepsRecord [DecidableEq ν] (n : LockNode ν) (w : ν) : LockMessage ν → Prop
  | .start => n.ownedRows w = []
  | .acquireLock lockType => n.db.lockHolder = some w → lockType.level ≤ n.db.lockType.level
  | _ => True

def Cluster.KeepsRecord [DecidableEq ν] (s : Cluster ν) : Action ν → Prop
  | .deliver i w => ∀ e, s.net.next i w = some e → (s.node i).KeepsRecord w e.message
  | _ => True

abbrev Servers.KeepsRecord [DecidableEq ν] : Servers ν → ServerAction ν → Prop :=
  Allows Cluster.KeepsRecord fun _ => True

section Decidable

variable [DecidableEq ν]

instance (n : LockNode ν) : Decidable n.RowMatches :=
  match h : n.rows with
  | [] => isFalse (by simp [LockNode.RowMatches, h])
  | [r] => decidable_of_iff (n.db.lockHolder = some r.owner ∧ r.lockType = n.db.lockType ∧
      (r.state = .acquired ↔ n.db.lockState = .peerConfirmed)) (by simp [LockNode.RowMatches, h])
  | _ :: _ :: _ => isFalse (by simp [LockNode.RowMatches, h])

instance (n : LockNode ν) : Decidable n.RecordInvariant :=
  decidable_of_iff _ n.recordInvariant_iff.symm

instance (n : LockNode ν) (w : ν) (m : LockMessage ν) : Decidable (n.KeepsRecord w m) := by
  rcases m <;> unfold LockNode.KeepsRecord <;> infer_instance

instance (s : Cluster ν) (a : Action ν) : Decidable (s.KeepsRecord a) := by
  rcases a <;> unfold Cluster.KeepsRecord <;> infer_instance

end Decidable

def Hazards.restartsOnly : Hazards := ⟨false, false, true⟩

variable {n : LockNode ν}

theorem LockNode.Free.recordInvariant (h : n.Free) (htype : n.db.lockType = .nolock) :
    n.RecordInvariant := by
  constructor <;> simp [h.lockcount, h.lockState, htype, h.localPid, h.rows, RowMatches,
    LockState.isPeer, LockState.isAcquire]

theorem LockNode.OwnedBy.recordInvariant {p : ℕ} (h : n.OwnedBy p)
    (htype : n.db.lockType ≠ .nolock) : n.RecordInvariant := by
  rcases h.lockState with hstate | hstate <;> constructor <;>
    simp [h.lockcount, hstate, htype, h.localPid, h.rows, RowMatches, LockState.isPeer,
      LockState.isAcquire]

theorem LockNode.HeldRow.recordInvariant {k : ν} {r : LockRow ν} (h : n.HeldRow .restartsOnly k r) :
    n.RecordInvariant := by
  have htype : r.lockType = n.db.lockType := h.rowType.resolve_right fun hz => by
    simp [Hazards.restartsOnly] at hz
  have hrow : n.RowMatches := by
    rw [RowMatches, h.rows]
    exact ⟨h.owner ▸ h.lockHolder, htype, h.rowState⟩
  have hpeer := h.lockState
  cases hstate : n.db.lockState with
  | nolock | acquireTallyConfirmations | acquireAcquired => simp [hstate, LockState.isPeer] at hpeer
  | _ =>
    constructor <;> simp [h.lockcount, hstate, h.lockType, hrow, LockState.isPeer,
      LockState.isAcquire]

theorem LockNode.Phase.recordInvariant (h : n.Phase .restartsOnly) : n.RecordInvariant := by
  cases h with
  | free h htype => exact h.recordInvariant htype
  | own p h htype => exact h.recordInvariant htype
  | held k r h => exact h.recordInvariant
  | cleared k r h hz => cases hz

theorem LockNode.Phase.not_exposed (h : n.Phase .restartsOnly) : ¬n.Exposed := by
  rintro ⟨hcount, hrows⟩
  cases h with
  | free h => exact hrows h.rows
  | own p h => simp [h.lockcount] at hcount
  | held k r h => simp [h.lockcount] at hcount
  | cleared k r h hz => cases hz

variable [DecidableEq ν]

theorem Cluster.meets_of_keepsRecord {s : Cluster ν} {a : Action ν}
    (h : (s.node a.node).Phase .restartsOnly) (hkeeps : s.KeepsRecord a) :
    s.Meets .restartsOnly a := by
  have hexposed := h.not_exposed
  cases a with
  | acquire i p lockType => exact .inr hexposed
  | deliver i w =>
    intro e he
    have hmessage := hkeeps e he
    cases hm : e.message with
    | start =>
      rw [hm] at hmessage
      exact .inr hmessage
    | acquireLock lockType =>
      rw [hm] at hmessage
      exact ⟨hexposed, fun hholder hlevel => absurd (hmessage hholder) (not_le.mpr hlevel)⟩
    | releaseLock lock => exact hexposed
    | _ => trivial
  | _ => trivial

theorem Servers.Phases.meets_of_keepsRecord {s : Servers ν} {a : ServerAction ν}
    (h : s.Phases .restartsOnly) (hkeeps : s.KeepsRecord a) : s.Meets .restartsOnly a := by
  cases a with
  | act a =>
    exact hkeeps.imp_right fun ⟨hloaded, hok⟩ =>
      ⟨hloaded, Cluster.meets_of_keepsRecord (h.settled hloaded).phase hok⟩
  | crash i => exact .inl rfl
  | stop i => exact hkeeps
  | _ => trivial

/-- **Lock record**: in every run, with crashes of nodes and of apply workers and with detached
nodes, in which no worker starts on a startup message of a node that owns a row here or on a request
that raises a held lock, nobody asks for the lock during a startup and no startup ends when it has
stored a holder, the record of every node that has started keeps its invariant. -/
theorem lockRecord_invariant [Fintype ν] {s : Servers ν}
    (hs : Reach (· = Servers.start ν) Servers.step Servers.KeepsRecord s) (i : ν)
    (hi : (s.startup i).isLoaded = true) : (s.cluster.node i).RecordInvariant := by
  have hphases : s.Phases .restartsOnly := .of_reach (fun _ _ h => h.meets_of_keepsRecord) hs
  exact (hphases.settled hi).phase.recordInvariant

/-- Node `b` crashes while it waits for the replay confirmation of a write lock, asks again
in its startup, and confirms the lock. -/
def crashDuringCatchup (a b : ν) : List (ServerAction ν) :=
  ServerAction.acts ([.acquire a 1 .write] ++ Action.process b a 4) ++
    ServerAction.restart b 12 ++
    ServerAction.acts (Action.process a b 0 ++ Action.process a b 1 ++ Action.process a b 0 ++
      Action.process b a 0 ++ Action.process b a 0)

theorem lockRecord_invariant_crashDuringCatchup :
    ∃ s : Servers (Fin 2), Reach (· = Servers.start (Fin 2)) Servers.step Servers.KeepsRecord s ∧
      (s.cluster.node 1).db.lockState = .peerConfirmed ∧ (s.cluster.node 1).RecordInvariant := by
  have hstart : Reach (· = Servers.start (Fin 2)) Servers.step Servers.KeepsRecord
      (Servers.start (Fin 2)) := .init rfl
  obtain ⟨s, hs, hloaded, hconfirmed⟩ := hstart.exists_of_run (crashDuringCatchup 0 1)
    (fun s => (s.startup 1).isLoaded = true ∧ (s.cluster.node 1).db.lockState = .peerConfirmed)
    (by decide +kernel)
  exact ⟨s, hs, hconfirmed, lockRecord_invariant hs 1 hloaded⟩

/-- Node `a` holds the DDL lock and asks for the write lock, which `b` declines because it
cannot cancel a transaction. -/
def declinedUpgrade (a b : ν) : List (ServerAction ν) :=
  ServerAction.acts ([.acquire a 1 .ddl] ++ Action.process b a 1 ++ Action.process a b 1 ++
    [.check a 1, .finish a 1, .acquire a 1 .write, .deliver b a, .work b a true, .work b a false,
      .work b a true, .advance b a])

/-- Node `a` restarts as the holder of the DDL lock, and the worker at `b` ends between the
two sections of its startup message. -/
def interruptedStartup (a b : ν) : List (ServerAction ν) :=
  ServerAction.acts ([.acquire a 1 .ddl] ++ Action.process b a 1) ++ ServerAction.restart a 3 ++
    ServerAction.acts [.deliver b a, .work b a true, .rewind b a 1]

/-- Node `b` restarts while `a` holds the DDL lock. Its worker ends when it has counted the lock,
and the next one counts it again. -/
def repeatedStartup (a b : ν) : List (ServerAction ν) :=
  ServerAction.acts ([.acquire a 1 .ddl] ++ Action.process b a 1) ++ ServerAction.restart b 5 ++
    [.stop b, .begin b] ++ List.replicate 8 (.load b)

/-- After the declined upgrade the row has a stronger type than the record; after the
interrupted startup message the row has no lock in memory; after the repeated startup there are two
locks for one row. All processes are at rest in these states. -/
theorem lockRecord_differs :
    (∃ s : Servers (Fin 2), Reach (· = Servers.start (Fin 2)) Servers.step (fun _ _ => True) s ∧
      (s.startup 1).isLoaded = true ∧ ¬(s.cluster.node 1).RecordInvariant ∧
      (s.cluster.node 1).db.lockType = .ddl ∧
      (s.cluster.node 1).rows = [⟨.write, 0, .catchup⟩]) ∧
    (∃ s : Servers (Fin 2), Reach (· = Servers.start (Fin 2)) Servers.step (fun _ _ => True) s ∧
      (s.startup 1).isLoaded = true ∧ ¬(s.cluster.node 1).RecordInvariant ∧
      (s.cluster.node 1).db.lockcount = 0 ∧
      (s.cluster.node 1).rows = [⟨.ddl, 0, .acquired⟩]) ∧
    ∃ s : Servers (Fin 2), Reach (· = Servers.start (Fin 2)) Servers.step (fun _ _ => True) s ∧
      (s.startup 1).isLoaded = true ∧ ¬(s.cluster.node 1).RecordInvariant ∧
      (s.cluster.node 1).db.lockcount = 2 ∧
      (s.cluster.node 1).rows = [⟨.ddl, 0, .acquired⟩] := by
  have hstart : Reach (· = Servers.start (Fin 2)) Servers.step (fun _ _ => True)
      (Servers.start (Fin 2)) := .init rfl
  exact ⟨hstart.exists_of_run (declinedUpgrade 0 1) _ (by decide +kernel),
    hstart.exists_of_run (interruptedStartup 0 1) _ (by decide +kernel),
    hstart.exists_of_run (repeatedStartup 0 1) _ (by decide +kernel)⟩

end Pgactive.Locks
