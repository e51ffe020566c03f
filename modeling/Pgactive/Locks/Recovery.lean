import Pgactive.Locks.Crashes

/-!
# Recovery of the lock after a crash

A node that starts again rebuilds its lock from the stored row. `pgactive_send_confirm_lock` asserts
that a DDL lock is confirmed right after it is taken and a write lock after the catchup. A DDL lock
whose row is still in state catchup at the crash comes back in the catchup period and then violates
the assertion.
-/

namespace Pgactive.Locks

open BroadcastLog Transition

variable {ν : Type}

def LocksDb.Confirmable (db : LocksDb ν) : Prop :=
  db.lockState = .peerBeginCatchup ∧ db.lockType = .ddl ∨
    db.lockState = .peerCatchup ∧ db.lockType = .write

instance (db : LocksDb ν) : Decidable db.Confirmable := inferInstanceAs (Decidable (_ ∨ _))

/-- The shared memory with which a step runs `pgactive_send_confirm_lock`, if it does. -/
def Cluster.confirmsWith (s : Cluster ν) : Action ν → Option (LocksDb ν)
  | .work i w _ =>
    match (s.node i).workers w with
    | .confirming => some (s.node i).db
    | .raisingConfirm lockType => some { (s.node i).db with lockType := lockType }
    | _ => none
  | .deliver i w => do
    let e ← s.net.next i w
    match e.message with
    | .replayConfirm lsn =>
      if (s.node i).db.countsReplay lsn ∧ (s.node i).db.nnodes ≤ (s.node i).db.replayConfirmed + 1
      then some (s.node i).db else none
    | _ => none
  | _ => none

def LockNode.Restored (n : LockNode ν) : Prop :=
  match n.rows with
  | [] => n.db.lockcount = 0 ∧ n.db.lockHolder = none ∧ n.db.lockType = .nolock ∧
    n.db.lockState = .nolock
  | [r] => n.db.lockcount = 1 ∧ n.db.lockHolder = some r.owner ∧ n.db.lockType = r.lockType ∧
    n.db.lockState = r.state.restored
  | _ => False

/-- A crash of any node at this point is recovered from, and a confirmation that is sent at
this point finds the state that it asserts. -/
structure Servers.Recovers [DecidableEq ν] [Fintype ν] (s : Servers ν) : Prop where
  /-- A startup that finds the origins of the owners comes to its end. -/
  completes : ∀ i, (∀ r ∈ (s.cluster.node i).rows, s.origin i r.owner = true) →
    ∃ t, run step (fun _ _ => True) s
        (ServerAction.restart i (locksStartup (s.cluster.node i).rows).length) = some t ∧
      (t.startup i).isLoaded = true ∧
      (t.cluster.node i).rows = (s.cluster.node i).rows ∧ (t.cluster.node i).Restored
  /-- The end of a startup, whatever others have done meanwhile. -/
  restored : ∀ i t, s.step (.load i) = some t → (t.startup i).isLoaded = true →
    (t.cluster.node i).Restored
  confirms : ∀ a t db, s.step (.act a) = some t → s.cluster.confirmsWith a = some db →
    db.Confirmable
  /-- No confirmation is sent in another way. -/
  sends : ∀ a t es, s.step (.act a) = some t →
    t.cluster.net.log a.node = s.cluster.net.log a.node ++ es →
    ∀ e ∈ es, e.isConfirm = true → (s.cluster.confirmsWith a).isSome = true

def LockMessage.movesLock : LockMessage ν → Bool
  | .acquireLock _ | .releaseLock _ => true
  | _ => false

def Cluster.RecoverySafe (s : Cluster ν) : Action ν → Prop
  | .acquire i p _ => ((s.node i).backends p).thisXactAcquiredLock = true ∨ ¬(s.node i).Exposed
  | .deliver i w => ∀ e, s.net.next i w = some e → e.message.movesLock = true →
    ¬(s.node i).Exposed
  | _ => True

abbrev Servers.RecoverySafe [DecidableEq ν] : Servers ν → ServerAction ν → Prop :=
  Allows Cluster.RecoverySafe LockNode.CatchupIsWrite

instance [DecidableEq ν] (s : Cluster ν) (a : Action ν) : Decidable (s.RecoverySafe a) := by
  rcases a <;> unfold Cluster.RecoverySafe <;> infer_instance

def Hazards.confirmedDdl : Hazards := ⟨true, true, false⟩

variable {n : LockNode ν}

theorem LockNode.Phase.confirmable_of_replayLsn (h : n.Phase .confirmedDdl)
    (hlsn : n.db.replayConfirmedLsn ≠ none) : n.db.Confirmable := by
  cases h with
  | free h => exact absurd h.replayLsn hlsn
  | own p h => exact absurd h.replayLsn hlsn
  | held k r h =>
    obtain ⟨hstate, htype⟩ := h.replayLsn hlsn
    exact .inr ⟨hstate, htype.resolve_right (by simp [Hazards.confirmedDdl])⟩
  | cleared k r h => exact absurd h.replayLsn hlsn

theorem LockNode.restored_of_restores (h : n.db.Restores n.rows)
    (hrows : n.rows = [] ∨ ∃ r, n.rows = [r] ∧ r.lockType ≠ .nolock) : n.Restored := by
  unfold LockNode.Restored
  obtain hrows | ⟨r, hrows, -⟩ := hrows <;> rw [hrows] at h ⊢
  · have hdb : n.db = .unlocked ν (-1) := h
    simp [hdb, LocksDb.unlocked]
  · obtain ⟨lsn, hdb⟩ := h
    simp [hdb, LockRow.restored]

variable {s : Cluster ν} {i w : ν} {ms : List (LockMessage ν)} {e : Entry ν}

theorem Cluster.confirmLock_of_entry (he : e ∈ ms.map (s.entry i w))
    (hconfirm : e.isConfirm = true) : ∃ k lockType, .confirmLock k lockType ∈ ms := by
  obtain ⟨m, hm, rfl⟩ := List.mem_map.mp he
  cases m with
  | confirmLock k lockType => exact ⟨k, lockType, hm⟩
  | _ => cases hconfirm

variable [DecidableEq ν]

theorem Cluster.confirmsWith_deliver {k : ν} {lockType : LockType}
    (hnext : s.net.next i w = some e)
    (hn : (s.node i).processMessage i w e.message = some (n, ms))
    (hm : .confirmLock k lockType ∈ ms) : (s.confirmsWith (.deliver i w)).isSome = true := by
  obtain ⟨lsn, hlsn⟩ | ⟨hcounts, hfull, -⟩ := (LockNode.firstSection hn).sent _ hm
  · cases hlsn
  cases hmessage : e.message with
  | replayConfirm lsn =>
    rw [hmessage] at hcounts
    simp only [confirmsWith, hnext, Option.bind_eq_bind, Option.bind_some, hmessage]
    rw [if_pos ⟨hcounts, hfull⟩]
    rfl
  | _ => simp [hmessage, LocksDb.countsMessage] at hcounts

theorem Cluster.confirmsWith_work {cancelled : Bool} {k : ν} {lockType : LockType}
    (hn : (s.node i).work i w cancelled = some (n, ms)) (hm : .confirmLock k lockType ∈ ms) :
    (s.confirmsWith (.work i w cancelled)).isSome = true := by
  obtain ⟨lsn, hlsn⟩ | ⟨_, _, -, hlsn⟩ | ⟨_, hpc, -⟩ | ⟨_, _, hpc, -⟩ :=
    (LockNode.laterSection hn).sent _ hm
  · cases hlsn
  · cases hlsn
  · simp [confirmsWith, hpc]
  · simp [confirmsWith, hpc]

variable {a : Action ν}

theorem Cluster.confirmsWith_isSome [Fintype ν] {t : Cluster ν} {es : List (Entry ν)}
    (ht : s.step a = some t) (hlog : t.net.log a.node = s.net.log a.node ++ es) (he : e ∈ es)
    (hconfirm : e.isConfirm = true) : (s.confirmsWith a).isSome = true := by
  by_cases ha : a.isHandler = false
  · obtain ⟨es', hlog', hes⟩ := (localStep ha ht).sent
    obtain rfl := List.append_cancel_left (hlog.symm.trans hlog')
    have hkind := hes e he
    unfold Entry.isConfirm at hconfirm
    unfold Entry.isAcquire Entry.isRelease at hkind
    cases hm : e.message <;> simp [hm] at hconfirm hkind
  cases a with
  | deliver i w =>
    obtain ⟨-, -, e', n, ms, hnext, hn, rfl⟩ := deliver_cases ht
    obtain rfl : es = ms.map (s.entry i w) := by simpa [Action.node] using hlog.symm
    obtain ⟨k, lockType, hm⟩ := confirmLock_of_entry he hconfirm
    exact confirmsWith_deliver hnext hn hm
  | work i w cancelled =>
    obtain ⟨-, e', n, ms, -, hn, ht⟩ := work_cases ht
    obtain rfl : es = ms.map (s.entry i w) := by
      split at ht <;> simpa [ht, Action.node] using hlog.symm
    obtain ⟨k, lockType, hm⟩ := confirmLock_of_entry he hconfirm
    exact confirmsWith_work hn hm
  | restart i =>
    cases ht
    obtain rfl : es = (s.node i).startup.2.map unasked := by
      simpa [Action.node, restart] using hlog.symm
    obtain ⟨m, hm, rfl⟩ := List.mem_map.mp he
    obtain rfl | ⟨lsn, rfl⟩ := (s.node i).startup_started.sent m hm <;> cases hconfirm
  | _ => simp [Action.isHandler] at ha

theorem Servers.Phases.confirmable [Fintype ν] {s t : Servers ν} (h : s.Phases .confirmedDdl)
    {db : LocksDb ν} (ht : s.step (.act a) = some t) (hdb : s.cluster.confirmsWith a = some db) :
    db.Confirmable := by
  obtain ⟨hallows, -⟩ := Option.ite_none_right_eq_some.mp ht
  have hsettled (hhandler : ∀ u : Startup ν, u.allows a = true → u.isLoaded = true) :=
    h.settled (hhandler _ hallows)
  cases a with
  | work i w cancelled =>
    have hphase := (hsettled fun u hu => by cases u <;> first | rfl | cases hu).phase
    have hfits (hgrant : ((s.cluster.node i).workers w).granting = true) :
        ((s.cluster.node i).workers w).Fits (s.cluster.node i).db.lockType
          (s.cluster.node i).db.lockState := by
      obtain ⟨r, hheld⟩ := hphase.heldRow_of_granting hgrant
      exact hheld.fits
    simp only [Cluster.confirmsWith] at hdb
    split at hdb
    · next hpc =>
      rw [hpc] at hfits
      exact Option.some.inj hdb ▸ .inl (hfits rfl).symm
    · next hpc =>
      rw [hpc] at hfits
      exact (hfits rfl).elim
    · cases hdb
  | deliver i w =>
    have hphase := (hsettled fun u hu => by cases u <;> first | rfl | cases hu).phase
    simp only [Cluster.confirmsWith, Option.bind_eq_bind, Option.bind_eq_some_iff] at hdb
    obtain ⟨e, -, hdb⟩ := hdb
    split at hdb
    · next lsn _ =>
      obtain ⟨⟨hcounts, -⟩, rfl⟩ := by
        simpa only [Option.ite_none_right_eq_some, Option.some.injEq] using hdb
      refine hphase.confirmable_of_replayLsn ?_
      have heq : (s.cluster.node i).db.replayConfirmedLsn = some lsn := of_decide_eq_true hcounts
      simp [Action.node, heq]
    · cases hdb
  | _ => cases hdb

section Startups

variable {s : Servers ν} {Q : LocksDb ν → Prop} {x : StartupStep ν} {todo : List (StartupStep ν)}
  {lsn : ℕ}

/-- A step of a startup, unless it does not find an origin. -/
theorem Servers.load_leads (hleads : (s.cluster.node i).db.Leads Q (x :: todo) lsn)
    (horigin : ∀ owner, x = .fetchNodeId owner → s.origin i owner = true) :
    ((s.load i todo lsn x).cluster.node i).rows = (s.cluster.node i).rows ∧
      (s.load i todo lsn x).origin = s.origin ∧
      ∃ lsn', (s.load i todo lsn x).startup i = .next lsn' todo ∧
        ((s.load i todo lsn x).cluster.node i).db.Leads Q todo lsn' := by
  obtain ⟨-, hleads⟩ := hleads
  cases x with
  | store f =>
    simp only [load, setStartup, Function.update_self, Cluster.put_node_self]
    exact ⟨trivial, trivial, lsn, rfl, hleads⟩
  | send m =>
    simp only [load, setStartup, Function.update_self, Cluster.send_node_self]
    exact ⟨trivial, trivial, lsn, rfl, hleads.2⟩
  | fetchNodeId owner =>
    simp only [load, setStartup, Function.update_self, horigin owner rfl, if_true]
    exact ⟨trivial, trivial, lsn, rfl, hleads.2⟩
  | readInsertLsn =>
    simp only [load, setStartup, Function.update_self]
    exact ⟨trivial, trivial, _, rfl, hleads _⟩

theorem Servers.run_loads [Fintype ν] (hstartup : s.startup i = .next lsn todo)
    (hleads : (s.cluster.node i).db.Leads Q todo lsn)
    (horigin : ∀ owner, .fetchNodeId owner ∈ todo → s.origin i owner = true) :
    ∃ t, run step (fun _ _ => True) s (List.replicate todo.length (.load i)) = some t ∧
      (t.startup i).isLoaded = true ∧
      (t.cluster.node i).rows = (s.cluster.node i).rows ∧ Q (t.cluster.node i).db := by
  induction todo generalizing s lsn with
  | nil => exact ⟨s, rfl, by simp [hstartup, Startup.next, Startup.isLoaded], rfl, hleads⟩
  | cons x todo ih =>
    obtain ⟨hrows, horigins, lsn', hnext, hrest⟩ :=
      load_leads hleads fun owner hx => horigin owner (by simp [hx])
    obtain ⟨t, hrun, hloaded, hkept, hQ⟩ := ih hnext hrest fun owner hmem =>
      horigins ▸ horigin owner (List.mem_cons_of_mem _ hmem)
    refine ⟨t, ?_, hloaded, hkept.trans hrows, hQ⟩
    simpa [List.replicate_succ, run, Servers.step, hstartup, Startup.next] using hrun

theorem Servers.run_restart [Fintype ν]
    (hrows : (s.cluster.node i).rows = [] ∨ ∃ row, (s.cluster.node i).rows = [row])
    (horigin : ∀ row ∈ (s.cluster.node i).rows, s.origin i row.owner = true) :
    ∃ t, run step (fun _ _ => True) s
        (ServerAction.restart i (locksStartup (s.cluster.node i).rows).length) = some t ∧
      (t.startup i).isLoaded = true ∧ (t.cluster.node i).rows = (s.cluster.node i).rows ∧
      (t.cluster.node i).db.Restores (s.cluster.node i).rows := by
  obtain ⟨s₁, hcrash⟩ : ∃ s₁, s.step (.crash i) = some s₁ := ⟨_, rfl⟩
  obtain ⟨hdown, horigins, hkept, hblank⟩ : s₁.startup i = .down ∧ s₁.origin = s.origin ∧
      (s₁.cluster.node i).rows = (s.cluster.node i).rows ∧ (s₁.cluster.node i).db.Blank := by
    cases hcrash
    simp [setStartup, LockNode.crashed, LocksDb.Blank, LocksDb.blank, LocksDb.unlocked]
  have hbegin : s₁.step (.begin i) =
      some (s₁.setStartup i (.next 0 (locksStartup (s.cluster.node i).rows))) := by
    simp [Servers.step, hdown, hkept]
  obtain ⟨t, hrun, hloaded, hrows', hdb⟩ := run_loads (s := s₁.setStartup i _)
    (Function.update_self ..) (hblank.leads hrows 0) fun owner hmem => by
      obtain ⟨row, hrow, rfl⟩ := exists_row_of_fetchNodeId hmem
      exact horigins ▸ horigin row hrow
  refine ⟨t, ?_, hloaded, hrows'.trans hkept, hdb⟩
  simpa [ServerAction.restart, run, hcrash, hbegin] using hrun

end Startups

theorem Cluster.meets_of_recoverySafe (hsafe : s.RecoverySafe a) : s.Meets .confirmedDdl a := by
  cases a with
  | acquire i p lockType => exact hsafe
  | deliver i w =>
    intro e he
    have hmoves := hsafe e he
    cases hm : e.message with
    | start => exact .inl rfl
    | acquireLock lockType =>
      exact ⟨hmoves (by simp [hm, LockMessage.movesLock]), fun _ _ => ⟨rfl, rfl⟩⟩
    | releaseLock lock => exact hmoves (by simp [hm, LockMessage.movesLock])
    | _ => trivial
  | _ => trivial

theorem Servers.meets_of_recoverySafe {s : Servers ν} {a : ServerAction ν}
    (hsafe : s.RecoverySafe a) : s.Meets .confirmedDdl a := by
  cases a with
  | act a => exact hsafe.imp_right (And.imp_right Cluster.meets_of_recoverySafe)
  | crash i => exact .inr hsafe
  | stop i => exact hsafe
  | _ => trivial

/-- Node `b` crashes while it waits for the replay confirmation of a write lock and asks
again in its startup. The answer is about to be read. -/
def recoverWriteLock (a b : ν) : List (ServerAction ν) :=
  ServerAction.acts ([.acquire a 1 .write] ++ Action.process b a 4) ++
    ServerAction.restart b 12 ++ ServerAction.acts (Action.process a b 0 ++
      Action.process a b 1 ++ Action.process a b 0 ++ Action.process b a 0)

/-- Node `b` crashes between taking the DDL lock for `a` and confirming it, asks for replay
confirmation in its startup, and is about to read the answer. -/
def crashBeforeConfirm (a b : ν) : List (ServerAction ν) :=
  ServerAction.acts [.acquire a 1 .ddl, .deliver b a] ++ ServerAction.restart b 12 ++
    ServerAction.acts (Action.process a b 1 ++ Action.process a b 0 ++ Action.process b a 1)

end Pgactive.Locks
