import Pgactive.Locks.Tally

/-!
# The strength of the lock when the call returns

A call of `pgactive_acquire_ddl_lock` that fails in a subtransaction leaves the requested type in
shared memory, and a later call that compares only this type returns at once without confirmations.
If every such call finds the lock acquired, all peers have confirmed a lock of at least the type
asked for.
-/

namespace Pgactive.Locks

open BroadcastLog Transition

variable {ν : Type}

/-- Node `i` has not given up the lock since its request with number `k`, so that this
request was made by the transaction that still runs. -/
def Cluster.KeptSince (s : Cluster ν) (i : ν) (k : ℕ) : Prop :=
  ∀ e ∈ (s.net.log i).drop k, e.isRelease = false

def Cluster.ConfirmedToXact (s : Cluster ν) (i j : ν) (lockType : LockType) : Prop :=
  ∃ e ∈ s.net.log j, ∃ given k, e.message = .confirmLock i given ∧
    lockType.level ≤ given.level ∧ e.answers = some (i, k) ∧ s.KeptSince i k

def Cluster.ReturnsConfirmed (s : Cluster ν) : Prop :=
  ∀ i p lockType, ((s.node i).backends p).pc = .returned lockType →
    ∀ j ∈ s.peers i, s.ConfirmedToXact i j lockType

/-- A call that returns at once because the type in shared memory is strong enough finds
the lock acquired. -/
def Cluster.ReturnsAcquired (s : Cluster ν) : Action ν → Prop
  | .acquire i p lockType => ((s.node i).backends p).thisXactAcquiredLock = true →
    lockType.level ≤ (s.node i).db.lockType.level → (s.node i).db.lockState = .acquireAcquired
  | _ => True

/-- The running transaction of node `i`. -/
structure Cluster.XactAt (s : Cluster ν) (i : ν) : Prop where
  /-- The latest request is one of the running transaction. -/
  current : ∀ p, ((s.node i).backends p).thisXactAcquiredLock = true →
    ((s.node i).backends p).pc ≠ .releasing → s.KeptSince i (s.attempt i)
  returned : ∀ p lockType, ((s.node i).backends p).pc = .returned lockType →
    ∀ j ∈ s.peers i, s.ConfirmedToXact i j lockType

instance (s : Cluster ν) (a : Action ν) : Decidable (s.ReturnsAcquired a) := by
  rcases a <;> unfold Cluster.ReturnsAcquired <;> infer_instance

variable {s : Cluster ν} {i : ν} {lockType : LockType}

theorem Cluster.Confirmed.toXact {j : ν} {given : LockType} (h : s.Confirmed i j given)
    (hle : lockType.level ≤ given.level) (hkept : s.KeptSince i (s.attempt i)) :
    s.ConfirmedToXact i j lockType := by
  obtain ⟨e, he, hm, ha⟩ := h
  exact ⟨e, he, given, s.attempt i, hm, hle, ha, hkept⟩

variable [DecidableEq ν]

variable {t : Cluster ν} {k : ν} {es : List (Entry ν)}

theorem Cluster.Frame.keptSince {m : ℕ} (h : s.Frame i es t)
    (hes : k = i → ∀ e ∈ es, e.isRelease = false) (hkept : s.KeptSince k m) : t.KeptSince k m := by
  intro e he
  rw [h.net] at he
  by_cases hk : k = i
  · subst hk
    rw [Net.append_log_self, List.drop_append] at he
    rcases List.mem_append.mp he with he | he
    · exact hkept e he
    · exact hes rfl e (List.mem_of_mem_drop he)
  · rw [s.net.append_log_of_ne hk] at he
    exact hkept e he

theorem Cluster.Frame.confirmedToXact {j : ν} (h : s.Frame i es t)
    (hes : k = i → ∀ e ∈ es, e.isRelease = false) (hj : s.ConfirmedToXact k j lockType) :
    t.ConfirmedToXact k j lockType := by
  obtain ⟨e, he, given, m, hm, hle, ha, hkept⟩ := hj
  refine ⟨e, ?_, given, m, hm, hle, ha, h.keptSince hes hkept⟩
  rw [h.net]
  exact s.net.log_subset_append i j es he

theorem Cluster.XactAt.bystander (h : s.XactAt k) (hacts : s.ActsAt i t) (hk : k ≠ i) :
    t.XactAt k := by
  have hlog := hacts.log k hk
  have hkept (m : ℕ) : t.KeptSince k m ↔ s.KeptSince k m := by
    unfold KeptSince
    rw [hlog]
  refine ⟨fun p hacq hpc => ?_, fun p lockType hpc j hj => ?_⟩
  · rw [hacts.node k hk] at hacq hpc
    rw [hkept, attempt, hlog]
    exact h.current p hacq hpc
  · rw [hacts.node k hk] at hpc
    rw [hacts.peers k hk] at hj
    obtain ⟨e, he, given, m, hm, hle, ha, hm'⟩ := h.returned p lockType hpc j hj
    exact ⟨e, (hacts.log_isPrefix j).subset he, given, m, hm, hle, ha, (hkept m).mpr hm'⟩

theorem Cluster.XactAt.frame (h : s.XactAt i) (hframe : s.Frame i es t)
    (hpeers : t.peers = s.peers) (hes : ∀ e ∈ es, e.isAcquire = false ∧ e.isRelease = false)
    (hcurrent : ∀ p, ((t.node i).backends p).thisXactAcquiredLock = true →
      ((t.node i).backends p).pc ≠ .releasing →
      ((s.node i).backends p).thisXactAcquiredLock = true ∧
        ((s.node i).backends p).pc ≠ .releasing)
    (hreturned : ∀ p lockType, ((t.node i).backends p).pc = .returned lockType →
      ((s.node i).backends p).pc = .returned lockType ∨
        ∀ j ∈ s.peers i, s.ConfirmedToXact i j lockType) : t.XactAt i := by
  have hrelease : i = i → ∀ e ∈ es, e.isRelease = false := fun _ e he => (hes e he).2
  have hattempt := (hframe.sameView (k := i) fun _ e he => (hes e he).1).attempt
  refine ⟨fun p hacq hpc => ?_, fun p lockType hpc j hj => ?_⟩
  · obtain ⟨hacq, hpc⟩ := hcurrent p hacq hpc
    rw [hattempt]
    exact hframe.keptSince hrelease (h.current p hacq hpc)
  · rw [hpeers] at hj
    refine hframe.confirmedToXact hrelease ?_
    rcases hreturned p lockType hpc with hpc | hconfirmed
    · exact h.returned p lockType hpc j hj
    · exact hconfirmed j hj

variable {p : ℕ} {n : LockNode ν}

section

variable (h : s.XactAt i)
include h

theorem Cluster.XactAt.put_backend (hothers : ∀ q, q ≠ p → n.backends q = (s.node i).backends q)
    (hcurrent : (n.backends p).thisXactAcquiredLock = true →
      ((s.node i).backends p).thisXactAcquiredLock = true ∧
        ((s.node i).backends p).pc ≠ .releasing)
    (hreturned : ∀ lockType, (n.backends p).pc = .returned lockType →
      ∀ j ∈ s.peers i, s.ConfirmedToXact i j lockType) : (s.put i n).XactAt i := by
  have hframe : s.Frame i [] (s.put i n) := ⟨by simp, fun j hj => s.put_node_of_ne hj n⟩
  refine h.frame hframe rfl (by simp) (fun q hacq hpc => ?_) fun q lockType hpc => ?_
  all_goals
    rw [put_node_self] at *
    by_cases hq : q = p
  · subst hq
    exact hcurrent hacq
  · rw [hothers q hq] at hacq hpc
    exact ⟨hacq, hpc⟩
  · exact .inr (hreturned lockType (hq ▸ hpc))
  · exact .inl (hothers q hq ▸ hpc)

theorem Cluster.XactAt.put_waiting (htally : s.Tally)
    (hpc : ((s.node i).backends p).pc = .tallying lockType)
    (hothers : ∀ q, q ≠ p → n.backends q = (s.node i).backends q)
    (hreturned : ∀ lockType, (n.backends p).pc ≠ .returned lockType) : (s.put i n).XactAt i := by
  have howned := htally.ownedBy hpc (by simp)
  refine h.put_backend hothers (fun _ => ⟨howned.acquired, by simp [hpc]⟩) fun asked hasked => ?_
  exact absurd hasked (hreturned asked)

theorem Cluster.XactAt.put_node (hbackends : n.backends = (s.node i).backends) :
    (s.put i n).XactAt i := by
  have hframe : s.Frame i [] (s.put i n) := ⟨by simp, fun j hj => s.put_node_of_ne hj n⟩
  refine h.frame hframe rfl (by simp) ?_ ?_
  all_goals rw [put_node_self, hbackends]
  · exact fun _ hacq hpc => ⟨hacq, hpc⟩
  · exact fun _ _ hpc => .inl hpc

theorem Cluster.XactAt.workerStep {w : ν} {ms : List (LockMessage ν)}
    (hstep : (s.node i).WorkerStep w n ms) (hframe : s.Frame i (ms.map (s.entry i w)) t)
    (hpeers : t.peers = s.peers) (hbackends : (t.node i).backends = n.backends) : t.XactAt i := by
  refine h.frame hframe hpeers hstep.effect.isAcquire_isRelease ?_ ?_
  all_goals rw [hbackends, hstep.frame.backends]
  · exact fun _ hacq hpc => ⟨hacq, hpc⟩
  · exact fun _ _ hpc => .inl hpc

/-- A call of `pgactive_acquire_ddl_lock`: it returns at once with the confirmations that
the transaction has got, or fails, or makes a new request. -/
theorem Cluster.XactAt.acquire (htally : s.Tally)
    (hreturns : s.ReturnsAcquired (.acquire i p lockType)) (ht : s.acquire i p lockType = some t) :
    t.XactAt i := by
  obtain ⟨-, hout, ⟨hacq, hle, rfl⟩ | ⟨hacq, rfl⟩ | ⟨hacq, rfl⟩⟩ := acquire_cases ht
  · have hpc : ((s.node i).backends p).pc ≠ .releasing := by
      intro hpc
      simp [Backend.outside, hpc] at hout
    refine h.put_backend (fun q hq => LockNode.setBackend_of_ne _ hq _) (fun _ => ⟨hacq, hpc⟩) ?_
    intro asked hasked j hj
    obtain rfl : lockType = asked := by simpa using hasked
    have hconfirmed := (htally.tally i).quorum (.inl (hreturns hacq hle)) j hj
    exact hconfirmed.toXact hle (h.current p hacq hpc)
  · refine h.put_backend (fun q hq => LockNode.setBackend_of_ne _ hq _) ?_ (by simp)
    simp [hacq]
  · have howned := (htally.sane i).consistent.sendAcquire hacq lockType
    refine ⟨fun q _ _ e he => ?_, fun q asked hq => ?_⟩
    · -- nothing comes after the request that has just been sent
      rw [attempt] at he
      simp only [send_net, Net.append_log_self, lastNumber_concat] at he
      simp [unasked, Entry.isAcquire] at he
    · simp only [send_node_self] at hq
      by_cases hqp : q = p
      · simp [hqp, LockNode.sendAcquire] at hq
      · simp [howned.backends q hqp, Backend.fresh] at hq

theorem Cluster.XactAt.finish (htally : s.Tally) (ht : s.finish i p = some t) : t.XactAt i := by
  obtain ⟨lockType, hpc, rfl⟩ := finish_cases ht
  have howned := htally.ownedBy hpc (by simp)
  have hreleasing : ((s.node i).backends p).pc ≠ .releasing := by simp [hpc]
  have hput : (s.put i ((s.node i).finishAcquire p lockType)).XactAt i := by
    refine h.put_backend (fun q hq => LockNode.setBackend_of_ne _ hq _)
      (fun _ => ⟨howned.acquired, hreleasing⟩) fun asked hasked j hj => ?_
    obtain rfl : lockType = asked := by simpa [LockNode.finishAcquire] using hasked
    have hconfirmed := (htally.tally i).quorum (.inr ⟨p, lockType, hpc⟩) j hj
    rw [howned.waits lockType (.inr hpc)] at hconfirmed
    exact hconfirmed.toXact le_rfl (h.current p howned.acquired hreleasing)
  exact { hput with }

end

theorem Cluster.XactAt.sendRelease (htally : s.Tally) (ht : s.sendRelease i p = some t) :
    t.XactAt i := by
  obtain ⟨hacq, rfl⟩ := sendRelease_cases ht
  have howned : ((s.node i).sendRelease i p).1.OwnedBy p :=
    ((htally.sane i).consistent.ownedBy_of_acquired hacq).setBackend (by simp)
  -- the backend that releases is the only one with a transaction on the lock
  refine ⟨fun q hacq hpc => ?_, fun q lockType hpc => ?_⟩
  all_goals
    simp only [send_node_self] at *
    by_cases hq : q = p
  · simp [hq, LockNode.sendRelease] at hpc
  · simp [howned.backends q hq, Backend.fresh] at hacq
  · simp [hq, LockNode.sendRelease] at hpc
  · simp [howned.backends q hq, Backend.fresh] at hpc

theorem Cluster.XactAt.step [Fintype ν] {a : Action ν} (h : s.XactAt a.node) (htally : s.Tally)
    (ha : a.isLockStep = true) (hreturns : s.ReturnsAcquired a) (ht : s.step a = some t) :
    t.XactAt a.node := by
  cases a with
  | acquire i p lockType => exact h.acquire htally hreturns ht
  | check i p =>
    obtain ⟨lockType, hpc, rfl⟩ := check_cases ht
    refine put_waiting h htally hpc (fun q hq => ?_) fun asked => ?_
    all_goals
      simp only [LockNode.checkTally]
      split_ifs
    · exact LockNode.setBackend_of_ne _ hq _
    · exact LockNode.setBackend_of_ne _ hq _
    · rfl
    · simp
    · simp
    · simp [hpc]
  | interrupt i p =>
    obtain ⟨lockType, hpc, rfl⟩ := interrupt_cases ht
    exact put_waiting h htally hpc
      (fun q hq => LockNode.setBackend_of_ne _ hq _) (by simp)
  | finish i p => exact h.finish htally ht
  | sendRelease i p => exact sendRelease htally ht
  | releaseOwned i p =>
    obtain ⟨-, rfl⟩ := releaseOwned_cases ht
    refine h.put_backend (p := p) (fun q hq => LockNode.setBackend_of_ne _ hq _) ?_ ?_
    · simp [LockNode.releaseOwned, Backend.fresh]
    · simp [LockNode.releaseOwned, Backend.fresh]
  | deliver i w =>
    obtain ⟨-, hidle, e, n, ms, hnext, hn, rfl⟩ := deliver_cases ht
    have hstep := (htally.sane i).consistent.processMessage hidle
      (htally.sent w e (List.mem_of_getElem? hnext)) hn
    have hsend := h.workerStep hstep ⟨rfl, fun k hk => s.send_node_of_ne hk n _⟩ rfl (by simp)
    exact { hsend with }
  | work i w cancelled =>
    obtain ⟨-, e, n, ms, hnext, hn, rfl⟩ := work_cases ht
    have hstep := (htally.sane i).consistent.work ((htally.sane i).noClearing w) hn
    have hsend := h.workerStep hstep ⟨rfl, fun k hk => s.send_node_of_ne hk n _⟩ rfl (by simp)
    split <;> exact { hsend with }
  | advance i w =>
    obtain ⟨-, -, -, rfl⟩ := advance_cases ht
    have hput := h.put_node (n := (s.node i).setWorker w .idle) rfl
    exact { hput with }
  | writeWal i m =>
    rw [← Option.some.inj ht]
    exact h.put_node rfl
  | _ => cases ha

def upgradeLock (a b : ν) : List (Action ν) :=
  [.acquire a 1 .ddl] ++ Action.process b a 1 ++ Action.process a b 1 ++
    [.check a 1, .finish a 1, .acquire a 1 .ddl, .acquire a 1 .write] ++ Action.process b a 5 ++
    Action.process a b 0 ++ Action.process b a 0 ++ Action.process a b 1 ++
    [.check a 1, .finish a 1]

/-- A transaction acquires the DDL lock, its upgrade is interrupted in a subtransaction,
and it asks for the write lock again. -/
def failedUpgrade (a b : ν) : List (Action ν) :=
  [.acquire a 1 .ddl] ++ Action.process b a 1 ++ Action.process a b 1 ++
    [.check a 1, .finish a 1, .acquire a 1 .write, .interrupt a 1, .acquire a 1 .write]

end Pgactive.Locks
