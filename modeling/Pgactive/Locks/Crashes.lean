import Pgactive.Locks.Startup

/-!
# Runs with crashes

Every step leads each node that has started from a phase to a phase, as long as no request or
release is processed while a row is stored that shared memory has forgotten, and the hazards of the
run are those that the phases allow. A startup leads to a phase, too.
-/

namespace Pgactive.Locks

open BroadcastLog Transition

variable {ν : Type}

/-- What holds of each node by itself. -/
structure LockNode.Settled (z : Hazards) (n : LockNode ν) : Prop where
  phase : n.Phase z
  forgets : ∀ nodes counted, n.perdb = .maintaining nodes counted →
    ∀ j ∈ nodes, n.workers j = .stopped

/-- The node `i` is in a phase, and requests and releases in the logs are as their senders
write them. -/
structure Cluster.Phases (z : Hazards) (i : ν) (s : Cluster ν) : Prop where
  node : (s.node i).Settled z
  sent : ∀ k, ∀ e ∈ s.net.log k, e.message = .start ∨ e.message.SentBy k

variable {z : Hazards} {n n' : LockNode ν}

theorem LockNode.Settled.of_workers_eq (h : n.Settled z) (hphase : n'.Phase z)
    (hworkers : n'.workers = n.workers) (hperdb : n'.perdb = n.perdb) : n'.Settled z :=
  ⟨hphase, fun nodes counted hp j hj => hworkers ▸ h.forgets nodes counted (hperdb ▸ hp) j hj⟩

theorem LockNode.Settled.setInsertLsn (h : n.Settled z) (lsn : ℕ) :
    { n with insertLsn := lsn }.Settled z :=
  h.of_workers_eq (h.phase.setCounters n.db.nnodes n.db.acquireConfirmed n.db.acquireDeclined
    n.db.replayConfirmed lsn n.killed n.perdb) rfl rfl

variable {w : ν}

theorem LockNode.Settled.of_worker (h : n.Settled z) (hphase : n'.Phase z)
    (hw : n.workers w ≠ .stopped) (hworkers : ∀ v, v ≠ w → n'.workers v = n.workers v)
    (hperdb : n'.perdb = n.perdb) : n'.Settled z := by
  refine ⟨hphase, fun nodes counted hp j hj => ?_⟩
  have hstopped := h.forgets nodes counted (hperdb ▸ hp) j hj
  rw [hworkers j fun hjw => hw (hjw ▸ hstopped)]
  exact hstopped

variable {i : ν} {ms : List (LockMessage ν)}

theorem LockNode.FirstSection.sentBy {m : LockMessage ν} (h : n.FirstSection w m n' ms)
    (s : Cluster ν) : ∀ e ∈ ms.map (s.entry i w), e.message.SentBy i := by
  simp only [List.forall_mem_map]
  intro m' hm'
  obtain ⟨lsn, rfl⟩ | ⟨-, -, k, rfl⟩ := h.sent m' hm' <;> trivial

theorem LockNode.LaterSection.sentBy (h : n.LaterSection w n' ms) (s : Cluster ν) :
    ∀ e ∈ ms.map (s.entry i w), e.message.SentBy i := by
  simp only [List.forall_mem_map]
  intro m' hm'
  obtain ⟨lsn, rfl⟩ | ⟨_, lockType, -, rfl⟩ | ⟨k, -, rfl⟩ | ⟨k, lockType, -, rfl⟩ :=
    h.sent m' hm' <;> trivial

theorem LockNode.checkTally_frame (n : LockNode ν) (p : ℕ) (lockType : LockType) :
    (n.checkTally p lockType).db = n.db ∧ (n.checkTally p lockType).workers = n.workers ∧
      (n.checkTally p lockType).perdb = n.perdb := by
  unfold checkTally
  split_ifs <;> exact ⟨rfl, rfl, rfl⟩

/-- A node before the end of its startup, apart from its shared memory. -/
structure LockNode.Starting (z : Hazards) (n : LockNode ν) : Prop where
  rows : n.rows = [] ∨ ∃ r, n.rows = [r] ∧ r.lockType ≠ .nolock
  catchup : z.ddlCatchup = true ∨ n.CatchupIsWrite
  backends : ∀ p, n.backends p = .fresh
  workers : ∀ w, n.workers w = .idle ∨ n.workers w = .stopped
  perdb : n.perdb = .idle

/-- What holds of a node that is so far with its startup. -/
def LockNode.Stands (z : Hazards) (n : LockNode ν) : Startup ν → Prop
  | .loaded => n.Settled z
  | .down => n.Starting z ∧ n.db.Blank
  | .running todo lsn => n.Starting z ∧ n.db.Leads (LocksDb.Restores n.rows) todo lsn

theorem LockNode.Starting.settled (h : n.Starting z) (hdb : n.db.Restores n.rows) :
    n.Settled z := by
  refine ⟨?_, by simp [h.perdb]⟩
  have hplaces (w : ν) : (n.workers w).granting = false ∧ (n.workers w).clears = false := by
    rcases h.workers w with hw | hw <;> simp [hw, WorkerPc.granting, WorkerPc.clears]
  obtain hrows | ⟨r, hrows, htype⟩ := h.rows <;> rw [hrows] at hdb
  · have hdb : n.db = .unlocked ν (-1) := hdb
    refine .free ⟨?_, ?_, ?_, ?_, ?_, hrows, h.backends, fun w => (hplaces w).1⟩ ?_
      fun w => (hplaces w).2 <;> rw [hdb] <;> rfl
  · obtain ⟨lsn, hdb⟩ := hdb
    have hwrite : r.state = .catchup → r.lockType = .write ∨ z.ddlCatchup = true := fun hstate =>
      h.catchup.symm.imp_left fun hcatchup => hcatchup r (by simp [hrows]) hstate
    have hstate : n.db.lockState = r.state.restored := by simp [hdb, LockRow.restored]
    refine .held r.owner r
      { lockcount := by simp [hdb, LockRow.restored]
        lockHolder := by simp [hdb, LockRow.restored]
        localPid := by simp [hdb, LockRow.restored, LocksDb.unlocked]
        lockType := by simpa [hdb, LockRow.restored] using htype
        lockState := ?_
        replayLsn := fun hlsn => ?_
        rows := hrows
        owner := rfl
        rowState := hstate ▸ r.state.acquired_iff_restored
        rowType := .inl (by simp [hdb, LockRow.restored])
        raises := by simp [WorkerPc.raises_of_granting (hplaces r.owner).1]
        clearing := by simp [(hplaces r.owner).2]
        fits := WorkerPc.fits_of_granting (hplaces _).1 _ _
        backends := h.backends
        workers := fun w _ => hplaces w }
    · rw [hstate]
      cases r.state <;> rfl
    · have hcatchup : r.state = .catchup := by
        by_contra hne
        simp [hdb, LockRow.restored, hne] at hlsn
      rw [hstate, hcatchup, hdb]
      exact ⟨rfl, hwrite hcatchup⟩

theorem LockNode.Starting.stands {todo : List (StartupStep ν)} {lsn : ℕ} (h : n.Starting z)
    (hleads : n.db.Leads (LocksDb.Restores n.rows) todo lsn) : n.Stands z (.next lsn todo) :=
  match todo with
  | [] => h.settled hleads
  | _ :: _ => ⟨h, hleads⟩

variable {u : Startup ν}

theorem LockNode.Stands.setKilled (h : n.Stands z u) (lsn : ℕ) (killed : List ν) :
    { n with insertLsn := lsn, killed := killed }.Stands z u :=
  match u with
  | .loaded => h.of_workers_eq (h.phase.setCounters n.db.nnodes n.db.acquireConfirmed
      n.db.acquireDeclined n.db.replayConfirmed lsn killed n.perdb) rfl rfl
  | .down | .running .. => ⟨{ h.1 with }, h.2⟩

theorem LockNode.Stands.rows_cases (h : n.Stands z u) :
    n.rows = [] ∨ ∃ r, n.rows = [r] ∧ r.lockType ≠ .nolock :=
  match u with
  | .loaded => h.phase.rows_cases
  | .down | .running .. => h.1.rows

structure Servers.Phases (z : Hazards) (s : Servers ν) : Prop where
  node : ∀ i, (s.cluster.node i).Stands z (s.startup i)
  sent : ∀ i, ∀ e ∈ s.cluster.net.log i, e.message = .start ∨ e.message.SentBy i

theorem Servers.Phases.settled {s : Servers ν} (h : s.Phases z)
    (hi : (s.startup i).isLoaded = true) : (s.cluster.node i).Settled z := by
  have hnode := h.node i
  rw [Startup.eq_loaded hi] at hnode
  exact hnode

variable [DecidableEq ν]

def Cluster.Meets (z : Hazards) (s : Cluster ν) : Action ν → Prop
  | .acquire i p _ => ((s.node i).backends p).thisXactAcquiredLock = true ∨ ¬(s.node i).Exposed
  | .deliver i w => ∀ e, s.net.next i w = some e → (s.node i).Accepts z w e.message
  | _ => True

variable {s t : Cluster ν}

section

variable (h : s.Phases z i)
include h

theorem Cluster.Phases.of_actsAt (hacts : s.ActsAt i t)
    (hnode : (t.node i).Settled z) (es : List (Entry ν)) (hlog : t.net.log i = s.net.log i ++ es)
    (hes : ∀ e ∈ es, e.message = .start ∨ e.message.SentBy i) : t.Phases z i where
  node := hnode
  sent k e he := by
    by_cases hk : k = i
    · subst hk
      rw [hlog] at he
      exact (List.mem_append.mp he).elim (h.sent k e) (hes e)
    · rw [hacts.log k hk] at he
      exact h.sent k e he

theorem Cluster.Phases.put (hnode : n.Settled z) : (s.put i n).Phases z i :=
  h.of_actsAt (s.put_actsAt i n) (by rwa [put_node_self]) [] (by simp) (by simp)

theorem Cluster.Phases.acquire {p : ℕ} {lockType : LockType}
    (hmeets : s.Meets z (.acquire i p lockType)) (hacts : s.ActsAt i t)
    (ht : s.acquire i p lockType = some t) : t.Phases z i := by
  have hi := h.node
  obtain ⟨htype, -, ⟨hacq, -, rfl⟩ | ⟨hacq, rfl⟩ | ⟨hfree, rfl⟩⟩ := acquire_cases ht
  · obtain ⟨howned, hheld, hclears⟩ := hi.phase.ownedBy_of_acquired hacq
    exact h.put (hi.of_workers_eq (.own p (howned.setBackend (by simp)) hheld hclears) rfl rfl)
  · rw [hi.phase.setBackend_idle hacq]
    exact h.put hi
  · have hphase := hi.phase.sendAcquire hfree hmeets htype
    refine h.of_actsAt hacts ?_ [unasked (.acquireLock lockType)] (by simp) ?_
    · simp only [send_node_self]
      exact (hi.of_workers_eq hphase rfl rfl).setInsertLsn _
    · simpa [unasked, LockMessage.SentBy] using htype

theorem Cluster.Phases.deliver (hmeets : s.Meets z (.deliver i w))
    (hacts : s.ActsAt i t) (ht : s.deliver i w = some t) : t.Phases z i := by
  obtain ⟨-, hidle, e, n, ms, hnext, hn, rfl⟩ := deliver_cases ht
  have hsent := h.sent w e (List.mem_of_getElem? hnext)
  have hphase := h.node.phase.processMessage hidle hsent (hmeets e hnext) hn
  have hsection := LockNode.firstSection hn
  refine h.of_actsAt hacts ?_ (ms.map (s.entry i w)) (by simp)
    fun e he => .inr (hsection.sentBy s e he)
  simp only [send_node_self]
  exact (h.node.of_worker hphase (by simp [hidle]) hsection.workers
    hsection.perdb).setInsertLsn _

theorem Cluster.Phases.work {cancelled : Bool} (hacts : s.ActsAt i t)
    (ht : s.work i w cancelled = some t) : t.Phases z i := by
  obtain ⟨-, e, n, ms, -, hn, ht⟩ := work_cases ht
  have hphase := h.node.phase.work hn
  have hsection := LockNode.laterSection hn
  have hstopped : (s.node i).workers w ≠ .stopped := by
    intro hw
    simp [LockNode.work, hw] at hn
  have hsettled := (h.node.of_worker hphase hstopped hsection.workers
    hsection.perdb).setInsertLsn (n.insertLsn + (ms.map (s.entry i w)).length)
  refine h.of_actsAt hacts ?_ (ms.map (s.entry i w)) ?_
    fun e he => .inr (hsection.sentBy s e he)
  · split at ht <;> simpa [ht] using hsettled
  · split at ht <;> simp [ht]

theorem Cluster.Phases.put_owned {p : ℕ} (hp : (s.node i).backends p ≠ .fresh)
    (hn : (s.node i).OwnedBy p → n.OwnedBy p) (htype : n.db.lockType = (s.node i).db.lockType)
    (hworkers : n.workers = (s.node i).workers) (hperdb : n.perdb = (s.node i).perdb) :
    (s.put i n).Phases z i := by
  obtain ⟨howned, hheld, hclears⟩ := h.node.phase.ownedBy hp
  exact h.put (h.node.of_workers_eq (.own p (hn howned) (htype ▸ hheld) (hworkers ▸ hclears))
    hworkers hperdb)

end

theorem LockNode.Settled.setWorker (h : n.Settled z) {pc : WorkerPc}
    (hpc : pc.granting = false ∧ pc.clears = false) (hw : n.workers w ≠ .stopped ∨ pc = .stopped) :
    (n.setWorker w pc).Settled z := by
  have hphase := h.phase.setWorker (w := w) hpc.1 hpc.2
  rcases hw with hw | rfl
  · exact h.of_worker hphase hw (fun v hv => n.setWorker_of_ne hv pc) rfl
  · refine ⟨hphase, fun nodes counted hp j hj => ?_⟩
    by_cases hjw : j = w
    · simp [hjw]
    · rw [n.setWorker_of_ne hjw]
      exact h.forgets nodes counted hp j hj

theorem Cluster.Phases.seek {k : ℕ} (h : s.Phases z i) (hw : (s.node i).workers w ≠ .stopped)
    (hacts : s.ActsAt i { s.put i ((s.node i).setWorker w .idle) with net := s.net.seek i w k }) :
    Phases z i { s.put i ((s.node i).setWorker w .idle) with net := s.net.seek i w k } := by
  refine h.of_actsAt hacts ?_ [] (by simp) (by simp)
  simpa using h.node.setWorker ⟨rfl, rfl⟩ (.inl hw)

theorem Cluster.Phases.forget (h : s.Phases z i) (ht : s.forget i = some t) : t.Phases z i := by
  obtain ⟨j, rest, counted, hperdb, rfl⟩ := forget_cases ht
  have hi := h.node
  have hstopped := hi.forgets _ _ hperdb
  have hphase := hi.phase.nodeDetached i (hstopped j List.mem_cons_self)
  obtain ⟨hworkers, -, -⟩ := (s.node i).nodeDetached_frame i j
  refine h.put ⟨hphase.setCounters _ _ _ _ _ _ _, fun nodes counted' hp k hk => ?_⟩
  simp only [PerdbPc.maintaining.injEq] at hp
  obtain ⟨rfl, -⟩ := hp
  exact congrFun hworkers k ▸ hstopped k (List.mem_cons_of_mem _ hk)

theorem Cluster.Phases.step [Fintype ν] {a : Action ν} (h : s.Phases z a.node)
    (hallows : Startup.loaded.allows a = true) (hmeets : s.Meets z a) (ht : s.step a = some t) :
    t.Phases z a.node := by
  have hacts := step_actsAt ht
  cases a with dsimp only [Action.node] at h hacts ⊢
  | acquire i p lockType => exact h.acquire hmeets hacts ht
  | deliver i w => exact h.deliver hmeets hacts ht
  | work i w cancelled => exact h.work hacts ht
  | restart i => cases hallows
  | check i p =>
    obtain ⟨lockType, hpc, rfl⟩ := check_cases ht
    obtain ⟨hdb, hworkers, hperdb⟩ := (s.node i).checkTally_frame p lockType
    exact h.put_owned (fun hp => by simp [hp, Backend.fresh] at hpc)
      (fun howned => howned.checkTally hpc) (by rw [hdb]) hworkers hperdb
  | interrupt i p =>
    obtain ⟨lockType, hpc, rfl⟩ := interrupt_cases ht
    exact h.put_owned (fun hp => by simp [hp, Backend.fresh] at hpc)
      (fun howned => howned.setBackend (by simp)) rfl rfl rfl
  | finish i p =>
    obtain ⟨lockType, hpc, rfl⟩ := finish_cases ht
    have hput := h.put_owned (n := (s.node i).finishAcquire p lockType)
      (fun hp => by simp [hp, Backend.fresh] at hpc)
      (fun howned => howned.finishAcquire lockType) rfl rfl rfl
    exact { hput with }
  | sendRelease i p =>
    obtain ⟨hacq, rfl⟩ := sendRelease_cases ht
    obtain ⟨howned, htype, hclears⟩ := h.node.phase.ownedBy_of_acquired hacq
    refine h.of_actsAt (s.send_actsAt i _ _) ?_ [unasked (.releaseLock i)] (by simp) ?_
    · simp only [send_node_self]
      exact (h.node.of_workers_eq (.own p (howned.setBackend (by simp)) htype hclears) rfl
        rfl).setInsertLsn _
    · simp [unasked, LockMessage.SentBy]
  | releaseOwned i p =>
    obtain ⟨hpc, rfl⟩ := releaseOwned_cases ht
    obtain ⟨howned, -, hclears⟩ := h.node.phase.ownedBy (p := p)
      fun hp => by simp [hp, Backend.fresh] at hpc
    exact h.put (h.node.of_workers_eq (.free howned.releaseOwned rfl hclears) rfl rfl)
  | advance i w =>
    obtain ⟨-, hdone, -, rfl⟩ := advance_cases ht
    exact h.seek (by simp [hdone]) hacts
  | rewind i w k =>
    obtain rfl := rewind_cases ht
    refine h.seek ?_ hacts
    simp only [step, rewind] at ht
    split_ifs at ht with hrewind
    exact hrewind.1
  | kill i j =>
    obtain rfl := kill_cases ht
    exact h.put (h.node.of_workers_eq (h.node.phase.setCounters _ _ _ _ _ _ _) rfl rfl)
  | stopWorker i j =>
    obtain rfl := stopWorker_cases ht
    exact h.put (h.node.setWorker ⟨rfl, rfl⟩ (.inr rfl))
  | maintain i =>
    obtain rfl := maintain_cases ht
    refine h.put ⟨h.node.phase.setCounters _ _ _ _ _ _ _, fun nodes counted hp j hj => ?_⟩
    simp only [LockNode.maintainDbWorkers, PerdbPc.maintaining.injEq] at hp
    obtain ⟨rfl, -⟩ := hp
    exact of_decide_eq_true (List.mem_filter.mp hj).2
  | forget i => exact h.forget ht
  | setNnodes i =>
    obtain ⟨counted, -, rfl⟩ := setNnodes_cases ht
    have hput := h.put (i := i) (n := (s.node i).setNnodes counted)
      ⟨h.node.phase.setCounters _ _ _ _ _ _ _, by simp [LockNode.setNnodes]⟩
    exact { hput with }
  | writeWal i k =>
    rw [← Option.some.inj ht]
    exact h.put (h.node.setInsertLsn _)

/-! ### Startups -/

abbrev Servers.Meets (z : Hazards) : Servers ν → ServerAction ν → Prop :=
  Allows (Cluster.Meets z) fun n => z.ddlCatchup = true ∨ n.CatchupIsWrite

theorem Servers.start_phases [Fintype ν] (z : Hazards) : (start ν).Phases z where
  node := fun _ => ⟨LockNode.unlocked_phase z _, by simp [start, Cluster.start, LockNode.unlocked]⟩
  sent := by simp [start, Cluster.start]

variable {s t : Servers ν}

section

variable (h : s.Phases z)
include h

theorem Servers.Phases.put {c : Cluster ν}
    (hnode : ∀ k, k ≠ i → c.node k = s.cluster.node k) (hi : (c.node i).Stands z u)
    (hsent : ∀ k, ∀ e ∈ c.net.log k, e.message = .start ∨ e.message.SentBy k) :
    ({ s with cluster := c }.setStartup i u).Phases z where
  node k := by
    by_cases hk : k = i
    · subst hk
      simpa [setStartup] using hi
    · simpa [setStartup, hk, hnode k hk] using h.node k
  sent := hsent

theorem Servers.Phases.setStartup (hi : (s.cluster.node i).Stands z u) :
    (s.setStartup i u).Phases z :=
  h.put (fun _ _ => rfl) hi h.sent

theorem Servers.Phases.act [Fintype ν] {a : Action ν} {c : Cluster ν}
    (hallows : (s.startup a.node).allows a = true) (hmeets : s.Meets z (.act a))
    (hc : s.cluster.step a = some c) : { s with cluster := c }.Phases z := by
  have hsame : { s with cluster := c } =
      { s with cluster := c }.setStartup a.node (s.startup a.node) := by
    simp [Servers.setStartup]
  rw [hsame]
  have hi := h.node a.node
  have hacts := Cluster.step_actsAt hc
  obtain hany | ⟨hloaded, hok⟩ := hmeets
  · cases a with
    | kill i j =>
      obtain rfl := Cluster.kill_cases hc
      exact h.put hacts.node (by simpa [Action.node] using hi.setKilled _ _) h.sent
    | writeWal i k =>
      cases hc
      exact h.put hacts.node (by simpa [Action.node] using hi.setKilled _ _) h.sent
    | _ => cases hany
  · rw [Startup.eq_loaded hloaded] at hallows ⊢
    have hphases := Cluster.Phases.step ⟨h.settled hloaded, h.sent⟩ hallows hok hc
    exact h.put hacts.node hphases.node hphases.sent

theorem Servers.Phases.load {x : StartupStep ν} {todo : List (StartupStep ν)} {lsn : ℕ}
    (hi : s.startup i = .running (x :: todo) lsn) :
    (s.load i todo lsn x).Phases z := by
  have hnode := h.node i
  rw [hi] at hnode
  obtain ⟨hstarting, -, hleads⟩ := hnode
  cases x with
  | store f =>
    refine h.put (fun k hk => s.cluster.put_node_of_ne hk _) ?_ h.sent
    rw [Cluster.put_node_self]
    exact LockNode.Starting.stands { hstarting with } hleads
  | send m =>
    refine h.put (fun k hk => s.cluster.send_node_of_ne hk _ _) ?_ fun k e he => ?_
    · rw [Cluster.send_node_self]
      exact LockNode.Starting.stands { hstarting with } hleads.2
    · rcases Net.mem_log_append.mp he with hold | ⟨rfl, hnew⟩
      · exact h.sent k e hold
      · rw [List.mem_singleton.mp hnew]
        exact hleads.1.imp_right fun ⟨_, hm⟩ => by simp [unasked, hm, LockMessage.SentBy]
  | fetchNodeId owner =>
    refine h.setStartup ?_
    split
    · exact hstarting.stands hleads.2
    · exact ⟨hstarting, hleads.1⟩
  | readInsertLsn => exact h.setStartup (hstarting.stands (hleads _))

theorem Servers.Phases.step [Fintype ν] {a : ServerAction ν}
    (hmeets : s.Meets z a) (ht : s.step a = some t) : t.Phases z := by
  cases a with
  | act a =>
    obtain ⟨hallows, ht⟩ := Option.ite_none_right_eq_some.mp ht
    obtain ⟨c, hc, rfl⟩ := Option.map_eq_some_iff.mp ht
    exact h.act hallows hmeets hc
  | crash i =>
    cases ht
    refine h.put (fun k hk => s.cluster.put_node_of_ne hk _) ?_ h.sent
    rw [Cluster.put_node_self]
    refine ⟨⟨(h.node i).rows_cases, hmeets, fun _ => rfl, fun w => ?_, rfl⟩, rfl⟩
    exact (ite_eq_or_eq ..).symm
  | begin i =>
    have hi := h.node i
    simp only [Servers.step] at ht
    split at ht <;> cases ht
    next hdown =>
      rw [hdown] at hi
      exact h.setStartup
        (hi.1.stands (hi.2.leads (hi.1.rows.imp_right fun ⟨r, hr, _⟩ => ⟨r, hr⟩) 0))
  | load i =>
    simp only [Servers.step] at ht
    split at ht <;> cases ht
    next hi => exact h.load hi
  | stop i =>
    have hi := h.node i
    simp only [Servers.step] at ht
    split at ht <;> cases ht
    next hrunning =>
      rw [hrunning] at hi
      exact h.setStartup ⟨hi.1, hi.2.1 hmeets⟩
  | setOrigin i j present =>
    cases ht
    exact ⟨h.node, h.sent⟩

end

theorem Servers.Phases.of_reach [Fintype ν] {ok : Servers ν → ServerAction ν → Prop}
    (hok : ∀ s a, s.Phases z → ok s a → s.Meets z a) (hs : Reach (· = start ν) Servers.step ok s) :
    s.Phases z := by
  refine hs.invariant ?_ fun s a t _ h ha ht => h.step (hok s a h ha) ht
  rintro _ rfl
  exact start_phases z

end Pgactive.Locks
