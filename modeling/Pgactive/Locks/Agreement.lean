import Pgactive.Locks.MutualExclusion
import Pgactive.Locks.Sections

/-!
# The peers of the node with the global lock

A peer that has granted a request keeps its local lock for the node that made it until it reads
the release of that node: no other message and none of its own backends takes the lock away. A
node with a full tally has been granted its latest request by every peer.
-/

namespace Pgactive.Locks

open BroadcastLog Transition

variable {ν : Type}

/-- Node `i` has released nothing since its latest request. -/
def Cluster.Unreleased (s : Cluster ν) (i : ν) : Prop :=
  ∀ e ∈ (s.net.log i).drop (s.attempt i), e.isRelease = false

/-- Whoever has granted a request that has not been released holds the lock for its sender. -/
def Cluster.KeepsGrants (s : Cluster ν) : Prop :=
  ∀ i j, i ≠ j → 0 < s.attempt i → s.granted j i = s.attempt i → s.Unreleased i →
    (s.node j).db.lockHolder = some i

variable {n n' : LockNode ν} {k me w : ν} {m : LockMessage ν} {ms : List (LockMessage ν)}

variable [DecidableEq ν]

/-- A local lock that is held for `k` stays so until `k` releases it. -/
theorem LockNode.HeldFor.lockHolder_processMessage (h : n.HeldFor k) (hm : m.SentBy w)
    (hn : n.processMessage me w m = some (n', ms)) :
    n'.db.lockHolder = some k ∨ w = k ∧ m = .releaseLock k := by
  cases m with
  | start => exact absurd hm id
  | acquireLock lockType =>
    obtain ⟨n₁, hn₁, heq⟩ := Option.map_eq_some_iff.mp hn
    cases heq
    simp only [processAcquireDdlLock, h.lockcount, one_ne_zero, if_false] at hn₁
    split_ifs at hn₁ with hupgrade
    · obtain ⟨n₂, hn₂, rfl⟩ := Option.map_eq_some_iff.mp hn₁
      unfold LockNode.updateOwnedRow at hn₂
      split_ifs at hn₂
      cases hn₂
      exact .inl h.lockHolder
    · cases hn₁
      exact .inl h.lockHolder
  | releaseLock lock =>
    obtain rfl : lock = w := hm
    by_cases hlock : lock = k
    · exact .inr ⟨hlock, by rw [hlock]⟩
    · cases hn
      have hholder : n.db.lockHolder ≠ some lock := by
        simpa [h.lockHolder] using Ne.symm hlock
      rw [(Consistent.held k h).releaseLocalDdlLock_eq hholder]
      exact .inl h.lockHolder
  | confirmLock lock lockType =>
    cases hn
    unfold processConfirmDdlLock
    split_ifs <;> exact .inl h.lockHolder
  | declineLock lock lockType =>
    cases hn
    unfold processDeclineDdlLock
    split_ifs <;> exact .inl h.lockHolder
  | requestReplayConfirm lsn =>
    cases hn
    exact .inl h.lockHolder
  | replayConfirm lsn =>
    simp only [processMessage, processReplayConfirm] at hn
    split_ifs at hn
    · obtain ⟨-, rows, rfl⟩ := sendConfirmLock_cases hn
      exact .inl h.lockHolder
    all_goals
      cases hn
      exact .inl h.lockHolder

theorem LockNode.lockHolder_work {cancelled : Bool}
    (hclear : ∀ left found, n.workers w ≠ .clearing left found)
    (hn : n.work me w cancelled = some (n', ms)) : n'.db.lockHolder = n.db.lockHolder := by
  cases hpc : n.workers w with simp only [work, hpc] at hn
  | confirming | raisingConfirm =>
    obtain ⟨-, rows, rfl⟩ := sendConfirmLock_cases hn
    rfl
  | clearing left found => exact absurd hpc (hclear left found)
  | declining announced => cases announced <;> cases hn <;> rfl
  | _ => cases hn <;> rfl

variable {s t : Cluster ν} {i j : ν}

/-- A step of another node than the grantor leaves the grant alone, or makes a new request. -/
theorem Cluster.Grants.grant_of_actsAt (h : s.Grants) (hacts : s.ActsAt k t) (hjk : j ≠ k)
    (hgranted : t.granted j i = t.attempt i) (hrel : t.Unreleased i) :
    s.granted j i = s.attempt i ∧ t.attempt i = s.attempt i ∧ s.Unreleased i := by
  obtain ⟨es, hes⟩ := hacts.log_isPrefix i
  have hle : s.attempt i ≤ t.attempt i := by
    rw [attempt, attempt, ← hes]
    exact lastNumber_le_append _ _ _
  have hge := h.granted_le j i
  rw [hacts.granted j hjk] at hgranted
  have heq : t.attempt i = s.attempt i := le_antisymm (hgranted ▸ hge) hle
  refine ⟨hgranted.trans heq, heq, fun e he => hrel e ?_⟩
  rw [heq, ← hes, List.drop_append]
  exact List.mem_append_left _ he

theorem Cluster.KeepsGrants.deliver (h : s.KeepsGrants) (hgrants : s.Grants)
    (ht : s.deliver j w = some t) (hij : i ≠ j) (hattempt : 0 < s.attempt i)
    (hgranted : t.granted j i = s.attempt i) (hrel : s.Unreleased i) :
    (t.node j).db.lockHolder = some i := by
  obtain ⟨hjw, hidle, e, n, ms, hnext, hn, rfl⟩ := deliver_cases ht
  have hsent := hgrants.sent w e (List.mem_of_getElem? hnext)
  have hstep := (hgrants.sane j).consistent.processMessage hidle hsent hn
  simp only [send_node_self] at *
  by_cases hgrant : (n.workers w).granting = true ∧ i = w
  · exact hgrant.2 ▸ (hstep.consistent.heldFor_of_granting hgrant.1).lockHolder
  · have hold : s.granted j i = s.attempt i := by
      rw [← hgranted]
      split_ifs with hw
      · simp [show i ≠ w from fun hiw => hgrant ⟨hw, hiw⟩]
      · rfl
    have hheld := (hgrants.sane j).consistent.heldFor (h i j hij hattempt hold hrel)
    rcases hheld.lockHolder_processMessage hsent hn with hkeep | ⟨rfl, hm⟩
    · exact hkeep
    · -- the release stands behind the request in the log
      have hpos := (hgrants.granted_le_pos j w).2 hidle
      have hmem : e ∈ (s.net.log w).drop (s.attempt w) := by
        rw [List.mem_iff_getElem?]
        refine ⟨s.net.pos j w - s.attempt w, ?_⟩
        rw [List.getElem?_drop, ← hold, Nat.add_sub_cancel' hpos]
        exact hnext
      simpa [Entry.isRelease, hm] using hrel e hmem

theorem Cluster.KeepsGrants.step [Fintype ν] {a : Action ν} (h : s.KeepsGrants)
    (hgrants : s.Grants) (ha : a.isLockStep = true) (ht : s.step a = some t) :
    t.KeepsGrants := by
  intro i j hij hattempt hgranted hrel
  have hacts := step_actsAt ht
  by_cases hj : j = a.node
  case neg =>
    obtain ⟨hsame, heq, hold⟩ := hgrants.grant_of_actsAt hacts hj hgranted hrel
    rw [hacts.node j hj]
    exact h i j hij (heq ▸ hattempt) hsame hold
  rw [attempt, hacts.log i (hj ▸ hij)] at hattempt hgranted
  rw [Unreleased, attempt, hacts.log i (hj ▸ hij)] at hrel
  have hheld (hsame : t.granted = s.granted) : (s.node j).HeldFor i :=
    (hgrants.sane j).consistent.heldFor (h i j hij hattempt (hsame ▸ hgranted) hrel)
  -- the backends of a node that holds its lock for a peer have none
  cases a with (simp only [Action.node] at hj; subst hj)
  | acquire j p lockType =>
    obtain ⟨-, -, ⟨hacq, -, rfl⟩ | ⟨-, rfl⟩ | ⟨hacq | hcount, rfl⟩⟩ := acquire_cases ht
    · simp [(hheld rfl).backends, Backend.fresh] at hacq
    · simpa using (hheld rfl).lockHolder
    · simp [(hheld rfl).backends, Backend.fresh] at hacq
    · simp [(hheld rfl).lockcount] at hcount
  | check j p =>
    obtain ⟨_, hpc, rfl⟩ := check_cases ht
    simp [(hheld rfl).backends, Backend.fresh] at hpc
  | interrupt j p =>
    obtain ⟨_, hpc, rfl⟩ := interrupt_cases ht
    simp [(hheld rfl).backends, Backend.fresh] at hpc
  | finish j p =>
    obtain ⟨_, hpc, rfl⟩ := finish_cases ht
    simp [(hheld rfl).backends, Backend.fresh] at hpc
  | sendRelease j p =>
    obtain ⟨hacq, rfl⟩ := sendRelease_cases ht
    simp [(hheld rfl).backends, Backend.fresh] at hacq
  | releaseOwned j p =>
    obtain ⟨hpc, rfl⟩ := releaseOwned_cases ht
    simp [(hheld rfl).backends, Backend.fresh] at hpc
  | deliver j w => exact h.deliver hgrants ht hij hattempt hgranted hrel
  | work j w cancelled =>
    obtain ⟨-, e, n, ms, -, hn, rfl⟩ := work_cases ht
    have hkeep := LockNode.lockHolder_work ((hgrants.sane j).noClearing w) hn
    split at hheld <;> simpa [hkeep] using (hheld rfl).lockHolder
  | advance j w =>
    obtain ⟨-, -, -, rfl⟩ := advance_cases ht
    simpa using (hheld rfl).lockHolder
  | writeWal j k =>
    cases ht
    simpa using (hheld rfl).lockHolder
  | _ => cases ha

section Runs

variable [Fintype ν]

/-- What holds along a run with fixed membership. -/
structure Cluster.Agrees (s : Cluster ν) : Prop extends s.Tally where
  keepsGrants : s.KeepsGrants
  requested : ∀ i, (s.node i).db.lockHolderLocalPid ≠ none → 0 < s.attempt i
  peers_eq : ∀ i, s.peers i = Finset.univ.erase i

theorem Cluster.start_agrees : (Cluster.start ν).Agrees where
  toTally := Cluster.start_tally
  keepsGrants := by simp [KeepsGrants, attempt, Cluster.start, lastNumber]
  requested := by simp [Cluster.start, LockNode.unlocked, LocksDb.unlocked]
  peers_eq := fun _ => rfl

theorem Cluster.Agrees.step {a : Action ν} (h : s.Agrees) (hlock : a.isLockStep = true)
    (hcurrent : s.CountsCurrent a) (ht : s.step a = some t) : t.Agrees where
  toTally := h.toTally.step (Action.crashes_of_isLockStep hlock) hcurrent
    (keepsCounted_of_isLockStep hlock) ht
  keepsGrants := h.keepsGrants.step h.toGrants hlock ht
  requested := fun i hpid => by
    obtain ⟨-, ⟨hpid, heq⟩ | hfresh⟩ := h.toGrants.keepsRequest hlock ht i hpid
    · exact heq ▸ h.requested i hpid
    · exact (Nat.zero_le _).trans_lt (hfresh i)
  peers_eq := peers_of_isLockStep hlock ht ▸ h.peers_eq

/-- In runs whose counted confirmations answer the latest request, the peers of a node that has
acquired the global lock and not released it hold their local locks for it, also on disk. -/
theorem globalLock_heldByPeers
    (hs : Reach (· = Cluster.start ν) Cluster.step
      (fun s a => a.isLockStep = true ∧ s.CountsCurrent a) s)
    (hi : (s.node i).db.lockState = .acquireAcquired) (hrel : s.Unreleased i) (hji : j ≠ i) :
    (s.node j).HeldFor i := by
  have h : s.Agrees := by
    refine hs.invariant ?_ fun _ _ _ _ h hok ht => h.step hok.1 hok.2 ht
    rintro _ rfl
    exact Cluster.start_agrees
  have hpid := (h.sane i).consistent.localPid_ne_none (.inl hi)
  have hconfirmed := (h.tally i).quorum (.inl hi) j (by simpa [h.peers_eq i] using hji)
  exact (h.sane j).consistent.heldFor (h.keepsGrants i j hji.symm (h.requested i hpid)
    (h.granted_of_confirmed hconfirmed) hrel)

end Runs

/-- After `acquireOnce` the peers hold their locks for the first node. -/
theorem globalLock_heldByPeers_acquireOnce :
    ∃ s : Cluster (Fin 3), Reach (· = Cluster.start (Fin 3)) Cluster.step
      (fun s a => a.isLockStep = true ∧ s.CountsCurrent a) s ∧
      (s.node 1).HeldFor 0 ∧ (s.node 2).HeldFor 0 := by
  have hstart : Reach (· = Cluster.start (Fin 3)) Cluster.step
      (fun s a => a.isLockStep = true ∧ s.CountsCurrent a) (Cluster.start (Fin 3)) := .init rfl
  obtain ⟨s, hs, hacquired, hrel⟩ := hstart.exists_of_run (acquireOnce 0 1 2)
    (fun s => (s.node 0).db.lockState = .acquireAcquired ∧
      ∀ e ∈ (s.net.log 0).drop (s.attempt 0), e.isRelease = false) (by decide +kernel)
  exact ⟨s, hs, globalLock_heldByPeers hs hacquired hrel (by decide),
    globalLock_heldByPeers hs hacquired hrel (by decide)⟩

end Pgactive.Locks
