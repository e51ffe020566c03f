import Pgactive.Locks.Tally

/-!
# Detaching a peer during a lock attempt

The per-database worker lowers `nnodes` when a detached peer is gone, while the counter of the
waiting attempt keeps the confirmation of that peer, which can then stand in for a missing one. This
does not happen as long as no counted peer is dropped.
-/

namespace Pgactive.Locks

open BroadcastLog Transition

variable {ν : Type}

/-- A node that has acquired the lock has it from every peer that it counts: each of them
has confirmed the attempt. -/
def Cluster.AcquiredFromPeers (s : Cluster ν) : Prop :=
  ∀ i, (s.node i).db.lockState = .acquireAcquired →
    ∀ j ∈ s.peers i, s.Confirmed i j (s.node i).db.lockType

section Decidable

variable [DecidableEq ν]

instance (s : Cluster ν) (i j : ν) (lockType : LockType) : Decidable (s.Confirmed i j lockType) :=
  inferInstanceAs (Decidable (∃ e ∈ s.net.log j, _ ∧ _))

instance [Fintype ν] (s : Cluster ν) : Decidable s.AcquiredFromPeers :=
  inferInstanceAs (Decidable (∀ i, _ → ∀ j ∈ s.peers i, _))

instance (s : Cluster ν) (a : Action ν) : Decidable (s.KeepsCounted a) :=
  match a with
  | .setNnodes i =>
    match hp : (s.node i).perdb with
    | .idle => isTrue fun _ _ _ h => by simp [hp] at h
    | .maintaining nodes counted =>
      decidable_of_iff ((s.node i).db.lockHolderLocalPid ≠ none →
        ∀ j ∈ s.confirmedBy i, j ∈ counted) (by simp [Cluster.KeepsCounted, hp])
  | .acquire .. | .check .. | .interrupt .. | .finish .. | .sendRelease .. | .releaseOwned ..
  | .deliver .. | .work .. | .advance .. | .rewind .. | .restart _ | .kill .. | .stopWorker ..
  | .maintain _ | .forget _ | .writeWal .. => isTrue trivial

end Decidable

/-- Node `b` is detached at node `a`: its status becomes killed, the first pass of the
per-database worker still counts it, its worker terminates, and the second pass drops it. -/
def detachNode (a b : ν) : List (Action ν) :=
  [.kill a b, .maintain a, .setNnodes a, .stopWorker a b, .maintain a, .forget a, .setNnodes a]

def detachUncounted (a b c : ν) : List (Action ν) :=
  [.acquire a 1 .ddl] ++ detachNode a b ++ Action.process c a 1 ++ Action.process a c 1 ++
    [.check a 1, .finish a 1]

/-- Node `b` confirms, is counted, and is then detached. With `nnodes` lowered by one, the
confirmation of node `c` completes the tally of a cluster with a fourth node, which is not
asked. -/
def detachCounted (a b c : ν) : List (Action ν) :=
  [.acquire a 1 .ddl] ++ Action.process b a 1 ++ Action.process a b 1 ++ detachNode a b ++
    Action.process c a 1 ++ Action.process a c 1 ++ [.check a 1, .finish a 1]

end Pgactive.Locks
