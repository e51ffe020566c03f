import Pgactive.Locks.Tally

/-!
# Mutual exclusion of the global lock

A node grants a request only while no backend of its own holds the lock. If every counted
confirmation answers the latest request, two nodes cannot both get past their tallies. But
confirmations do not identify the request, so that those of aborted attempts are counted for later
ones.
-/

namespace Pgactive.Locks

open BroadcastLog Transition

variable {ν : Type}

def Cluster.Exclusive (s : Cluster ν) : Prop :=
  ∀ i j, (s.node i).db.lockState = .acquireAcquired →
    (s.node j).db.lockState = .acquireAcquired → i = j

def Cluster.NotMutual (s : Cluster ν) : Prop :=
  ∀ i j, i ≠ j → (s.node i).db.lockHolderLocalPid ≠ none →
    (s.node j).db.lockHolderLocalPid ≠ none →
    ¬(s.granted j i = s.attempt i ∧ s.granted i j = s.attempt j)

/-- What a step does to the latest request and the grants of a node `i` with a local holder:
both stay, or the node has just sent a request that nobody can have granted. -/
def Cluster.KeepsRequest (s : Cluster ν) (i : ν) (t : Cluster ν) : Prop :=
  (t.node i).db.lockHolderLocalPid ≠ none → t.granted i = s.granted i ∧
    ((s.node i).db.lockHolderLocalPid ≠ none ∧ t.attempt i = s.attempt i ∨
      ∀ j, t.granted j i < t.attempt i)

variable {s t : Cluster ν}

theorem Cluster.NotMutual.step (h : s.NotMutual) (hkeep : ∀ i, s.KeepsRequest i t) :
    t.NotMutual := by
  intro i j hij hi hj ⟨hji, hij'⟩
  obtain ⟨hgi, ⟨hpi, hai⟩ | hfresh⟩ := hkeep i hi
  · obtain ⟨hgj, ⟨hpj, haj⟩ | hfresh⟩ := hkeep j hj
    · rw [hgj, hai] at hji
      rw [hgi, haj] at hij'
      exact h i j hij hpi hpj ⟨hji, hij'⟩
    · exact absurd hij' (hfresh i).ne
  · exact absurd hji (hfresh j).ne

variable {i : ν}

theorem Cluster.Grants.granted_of_confirmed (h : s.Grants) {j : ν} {lockType : LockType}
    (hj : s.Confirmed i j lockType) : s.granted j i = s.attempt i := by
  obtain ⟨e, he, hm, ha⟩ := hj
  obtain ⟨p, hp, ha'⟩ := h.answers j e he i lockType hm
  obtain ⟨-, rfl⟩ := Prod.mk.inj (Option.some.inj (ha.symm.trans ha'))
  exact le_antisymm (h.granted_le j i) hp

instance [Fintype ν] [DecidableEq ν] (s : Cluster ν) : Decidable s.Exclusive :=
  inferInstanceAs (Decidable (∀ _ _, _ → _ → _))

variable [DecidableEq ν]

theorem Cluster.Frame.keepsRequest {es : List (Entry ν)} (h : s.Frame i es t)
    (hes : ∀ e ∈ es, e.isAcquire = false)
    (hpid : (t.node i).db.lockHolderLocalPid ≠ none →
      (s.node i).db.lockHolderLocalPid ≠ none ∧ t.granted i = s.granted i)
    (hgranted : ∀ k, k ≠ i → t.granted k = s.granted k) (k : ν) : s.KeepsRequest k t := by
  have hattempt := (h.sameView (k := k) fun _ => hes).attempt
  intro hp
  by_cases hk : k = i
  · subst hk
    exact ⟨(hpid hp).2, .inl ⟨(hpid hp).1, hattempt⟩⟩
  · rw [h.node k hk] at hp
    exact ⟨hgranted k hk, .inl ⟨hp, hattempt⟩⟩

theorem Cluster.keepsRequest_put (s : Cluster ν) {n : LockNode ν}
    (hpid : n.db.lockHolderLocalPid ≠ none → (s.node i).db.lockHolderLocalPid ≠ none) (k : ν) :
    s.KeepsRequest k (s.put i n) := by
  have hframe : s.Frame i [] (s.put i n) := ⟨by simp, fun j hj => s.put_node_of_ne hj _⟩
  refine hframe.keepsRequest (by simp) (fun hp => ⟨hpid ?_, rfl⟩) (fun _ _ => rfl) k
  simpa using hp

theorem Cluster.Grants.keepsRequest_acquire (h : s.Grants) {p : ℕ} {lockType : LockType}
    (ht : s.acquire i p lockType = some t) (k : ν) : s.KeepsRequest k t := by
  obtain ⟨-, -, ⟨-, -, rfl⟩ | ⟨-, rfl⟩ | ⟨-, rfl⟩⟩ := acquire_cases ht
  case inr.inr =>
    have hframe : s.Frame i [unasked (.acquireLock lockType)]
        (s.send i ((s.node i).sendAcquire p lockType).1 [unasked (.acquireLock lockType)]) :=
      ⟨rfl, fun j hj => s.send_node_of_ne hj _ _⟩
    by_cases hk : k = i
    · subst hk
      refine fun _ => ⟨rfl, .inr fun j => ?_⟩
      have hle := h.granted_le j k
      have hlen := lastNumber_le_length Entry.isAcquire (s.net.log k)
      simp only [attempt, send_granted, send_net, Net.append_log_self,
        lastNumber_concat]
      simp only [unasked, Entry.isAcquire, if_true]
      omega
    · intro hp
      rw [hframe.node k hk] at hp
      exact ⟨rfl, .inl ⟨hp, (hframe.sameView fun hki => absurd hki hk).attempt⟩⟩
  all_goals exact s.keepsRequest_put (by simp) k

theorem Cluster.Grants.keepsRequest_deliver (h : s.Grants) {w : ν} (ht : s.deliver i w = some t)
    (k : ν) : s.KeepsRequest k t := by
  obtain ⟨-, hidle, e, n, ms, hnext, hn, rfl⟩ := deliver_cases ht
  have hstep := (h.sane i).consistent.processMessage hidle
    (h.sent w e (List.mem_of_getElem? hnext)) hn
  refine Frame.keepsRequest (i := i) ?_
    (hstep.effect.isAcquire_eq_false (s := s) (i := i)) (fun hp => ?_) (fun j hj => ?_) k
  · exact ⟨rfl, fun j hj => s.send_node_of_ne hj n _⟩
  · simp only [send_node_self, hstep.frame.localPid] at hp
    refine ⟨hp, ?_⟩
    -- a granted request leaves the node to its holder
    rw [if_neg]
    intro hgrant
    have hheld := hstep.consistent.heldFor_of_granting hgrant
    exact hp (hstep.frame.localPid ▸ hheld.localPid)
  · simp only
    split_ifs
    · rw [Function.update_of_ne hj]
    · rfl

theorem Cluster.Grants.keepsRequest_work (h : s.Grants) {w : ν} {cancelled : Bool}
    (ht : s.work i w cancelled = some t) (k : ν) : s.KeepsRequest k t := by
  obtain ⟨-, e, n, ms, hnext, hn, heq⟩ := work_cases ht
  have hstep := (h.sane i).consistent.work ((h.sane i).noClearing w) hn
  have hkeep : s.KeepsRequest k (s.send i n (ms.map (s.entry i w))) := by
    refine Frame.keepsRequest (i := i) ⟨rfl, fun j hj => s.send_node_of_ne hj n _⟩
      hstep.effect.isAcquire_eq_false (fun hp => ⟨?_, rfl⟩) (fun _ _ => rfl) k
    simpa [hstep.frame.localPid] using hp
  split at heq <;> subst heq <;> exact hkeep

theorem Cluster.Grants.keepsRequest [Fintype ν] {a : Action ν} (h : s.Grants)
    (ha : a.isLockStep = true) (ht : s.step a = some t) (k : ν) : s.KeepsRequest k t := by
  cases a with
  | acquire i p lockType => exact h.keepsRequest_acquire ht k
  | check i p =>
    obtain ⟨_, -, rfl⟩ := check_cases ht
    refine s.keepsRequest_put ?_ k
    simp only [LockNode.checkTally]
    split_ifs <;> simp
  | interrupt i p =>
    obtain ⟨_, -, rfl⟩ := interrupt_cases ht
    exact s.keepsRequest_put (by simp) k
  | finish i p =>
    obtain ⟨_, -, rfl⟩ := finish_cases ht
    exact s.keepsRequest_put (i := i) (by simp [LockNode.finishAcquire]) k
  | sendRelease i p =>
    obtain ⟨-, rfl⟩ := sendRelease_cases ht
    exact Frame.keepsRequest (i := i) ⟨rfl, fun j hj => s.send_node_of_ne hj _ _⟩
      (by simp [unasked, Entry.isAcquire]) (by simp [LockNode.sendRelease]) (fun _ _ => rfl) k
  | releaseOwned i p =>
    obtain ⟨-, rfl⟩ := releaseOwned_cases ht
    exact s.keepsRequest_put (by simp [LockNode.releaseOwned]) k
  | deliver i w => exact h.keepsRequest_deliver ht k
  | work i w cancelled => exact h.keepsRequest_work ht k
  | advance i w =>
    obtain ⟨-, -, -, rfl⟩ := advance_cases ht
    exact s.keepsRequest_put (i := i) (by simp) k
  | writeWal i n => exact Option.some.inj ht ▸ s.keepsRequest_put (by simp) k
  | _ => cases ha

/-- In every run with fixed membership whose counted confirmations all answer the latest
request of the node that counts them, at most one node has acquired the global lock. -/
theorem globalLock_exclusive [Fintype ν] {s : Cluster ν}
    (hs : Reach (· = Cluster.start ν) Cluster.step
      (fun s a => a.isLockStep = true ∧ s.CountsCurrent a) s) : s.Exclusive := by
  obtain ⟨htally, hmutual, hpeers⟩ :
      s.Tally ∧ s.NotMutual ∧ ∀ i, s.peers i = Finset.univ.erase i := by
    refine hs.invariant (I := fun s => s.Tally ∧ s.NotMutual ∧ ∀ i, s.peers i = Finset.univ.erase i)
      ?_ fun s a t _ ⟨htally, hmutual, hpeers⟩ ⟨hlock, hcurrent⟩ ht => ?_
    · rintro _ rfl
      exact ⟨Cluster.start_tally, by simp [Cluster.NotMutual, Cluster.start, LockNode.unlocked,
        LocksDb.unlocked], fun _ => rfl⟩
    · exact ⟨htally.step (Action.crashes_of_isLockStep hlock) hcurrent
        (Cluster.keepsCounted_of_isLockStep hlock) ht,
        hmutual.step (htally.toGrants.keepsRequest hlock ht),
        Cluster.peers_of_isLockStep hlock ht ▸ hpeers⟩
  have hgranted {i j : ν} (hij : j ≠ i) (hi : (s.node i).db.lockState = .acquireAcquired) :
      s.granted j i = s.attempt i := by
    refine htally.granted_of_confirmed ((htally.tally i).quorum (.inl hi) j ?_)
    simpa [hpeers i] using hij
  intro i j hi hj
  by_contra hne
  exact hmutual i j hne ((htally.sane i).consistent.localPid_ne_none (.inl hi))
    ((htally.sane j).consistent.localPid_ne_none (.inl hj))
    ⟨hgranted (Ne.symm hne) hi, hgranted hne hj⟩

/-- A node requests the lock, both peers confirm it, and the node acquires it. -/
def acquireOnce (a b c : ν) : List (Action ν) :=
  [.acquire a 1 .ddl] ++ Action.process b a 1 ++ Action.process c a 1 ++ Action.process a b 1 ++
    Action.process a c 1 ++ [.check a 1, .finish a 1]

/-- In this run the lock is acquired, and by one node only. -/
theorem globalLock_exclusive_acquireOnce :
    ∃ s : Cluster (Fin 3), Reach (· = Cluster.start (Fin 3)) Cluster.step
      (fun s a => a.isLockStep = true ∧ s.CountsCurrent a) s ∧
      (s.node 0).db.lockState = .acquireAcquired ∧ s.Exclusive := by
  have hstart : Reach (· = Cluster.start (Fin 3)) Cluster.step
      (fun s a => a.isLockStep = true ∧ s.CountsCurrent a) (Cluster.start (Fin 3)) := .init rfl
  obtain ⟨s, hs, hacquired⟩ := hstart.exists_of_run (acquireOnce 0 1 2)
    (fun s => (s.node 0).db.lockState = .acquireAcquired) (by decide +kernel)
  exact ⟨s, hs, hacquired, globalLock_exclusive hs⟩

/-- Node `a` aborts two attempts that both peers confirm, and does not read the log of node
`b` yet. Node `c` aborts one attempt that both peers confirm. Then node `a` counts the two
old confirmations of node `b` for its third attempt, and node `c` counts the old
confirmations of its peers for its second one. -/
def staleConfirmations (a b c : ν) : List (Action ν) :=
  let failed := [.acquire a 1 .ddl] ++ Action.process b a 1 ++ Action.process c a 1 ++
    Action.abort a 1 ++ Action.process b a 0 ++ Action.process c a 0
  failed ++ failed ++ Action.process a c 0 ++ Action.process a c 0 ++
    [.acquire c 1 .ddl] ++ Action.process a c 1 ++ Action.process b c 0 ++ Action.process b c 0 ++
    Action.process b c 1 ++ Action.abort c 1 ++ Action.process a c 0 ++ Action.process b c 0 ++
    [.acquire a 1 .ddl] ++ Action.process a b 1 ++ Action.process a b 1 ++
    [.check a 1, .finish a 1] ++
    [.acquire c 1 .ddl] ++ Action.process c a 1 ++ Action.process c b 0 ++ Action.process c b 0 ++
    Action.process c b 1 ++ [.check c 1, .finish c 1]

/-- Two nodes can have acquired the global lock at the same time. -/
theorem globalLock_acquiredTwice :
    ¬∀ (n : ℕ) (s : Cluster (Fin n)), 2 ≤ n →
      Reach (· = Cluster.start (Fin n)) Cluster.step (fun _ a => a.isLockStep = true) s →
      s.Exclusive := by
  intro hclaim
  have hstart : Reach (· = Cluster.start (Fin 3)) Cluster.step
      (fun _ a => a.isLockStep = true) (Cluster.start (Fin 3)) := .init rfl
  obtain ⟨s, hs, htwice⟩ := hstart.exists_of_run (staleConfirmations 0 1 2)
    (fun s => ¬s.Exclusive) (by decide +kernel)
  exact htwice (hclaim 3 s (by decide) hs)

end Pgactive.Locks
