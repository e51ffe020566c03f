import Pgactive.Locks.System
import Pgactive.Locks.Granting

/-!
# What one section of the code can do

In every state, also after a crash: which messages a section of an apply worker sends, where it
leaves the worker, and what it does to the counters. The steps of all other processes are local to
their node.
-/

namespace Pgactive.Locks

open BroadcastLog

variable {ν : Type}

def LocksDb.countsMessage (db : LocksDb ν) : LockMessage ν → Bool
  | .replayConfirm lsn => db.countsReplay lsn
  | _ => false

/-- The first section of a handler for the message `m` of `w`. -/
structure LockNode.FirstSection (n : LockNode ν) (w : ν) (m : LockMessage ν) (n' : LockNode ν)
    (ms : List (LockMessage ν)) : Prop where
  workers : ∀ v, v ≠ w → n'.workers v = n.workers v
  perdb : n'.perdb = n.perdb
  declined : n'.db.acquireDeclined = n.db.acquireDeclined
  sent : ∀ m' ∈ ms, (∃ lsn, m' = .replayConfirm lsn) ∨
    n.db.countsMessage m = true ∧ n.db.nnodes ≤ n.db.replayConfirmed + 1 ∧
      ∃ k, m' = .confirmLock k n.db.lockType
  /-- Replay is not awaited any more, or for the same position as before. -/
  replay : n'.db.replayConfirmedLsn ≠ none →
    n'.db.replayConfirmedLsn = n.db.replayConfirmedLsn ∧
      n'.db.replayConfirmed = n.db.replayConfirmed + if n.db.countsMessage m then 1 else 0

/-- A later section of a handler in the worker of `w`. -/
structure LockNode.LaterSection (n : LockNode ν) (w : ν) (n' : LockNode ν)
    (ms : List (LockMessage ν)) : Prop where
  workers : ∀ v, v ≠ w → n'.workers v = n.workers v
  perdb : n'.perdb = n.perdb
  declined : n'.db.acquireDeclined =
    n.db.acquireDeclined + if n.workers w = .countingDecline then 1 else 0
  /-- The worker gets to a decline through the cancelling of transactions only. -/
  place : (∀ announced lockType, n'.workers w = .declining announced lockType →
      ∃ upgrade, n.workers w = .examining upgrade lockType) ∧
    (∀ upgrade lockType, n'.workers w = .examining upgrade lockType →
      n.workers w = .cancelling upgrade lockType) ∧
    (∀ upgrade lockType, n'.workers w ≠ .cancelling upgrade lockType) ∧
    (∀ lockType, n'.workers w ≠ .raisingConfirm lockType) ∧
    n'.workers w ≠ .countingDecline
  sent : ∀ m ∈ ms, (∃ lsn, m = .requestReplayConfirm lsn) ∨
    (∃ announced lockType, n.workers w = .declining announced lockType ∧
      m = .declineLock w lockType) ∨
    (∃ k, n.workers w = .confirming ∧ m = .confirmLock k n.db.lockType) ∨
    ∃ k lockType, n.workers w = .raisingConfirm lockType ∧ m = .confirmLock k lockType
  /-- Replay is not awaited any more, or for the same position as before, or for a new
  position, which the peers are asked to confirm. -/
  replay : (∃ lsn, n.workers w = .requesting lsn ∧ n'.db.replayConfirmedLsn = some lsn ∧
      n'.db.replayConfirmed = 0 ∧ ms = [.requestReplayConfirm lsn]) ∨
    (∀ lsn, n.workers w ≠ .requesting lsn) ∧ (∀ lsn, .requestReplayConfirm lsn ∉ ms) ∧
      (n'.db.replayConfirmedLsn ≠ none →
        n'.db.replayConfirmedLsn = n.db.replayConfirmedLsn ∧
          n'.db.replayConfirmed = n.db.replayConfirmed)

variable {n n' : LockNode ν} {w : ν} {m : LockMessage ν} {ms : List (LockMessage ν)}

theorem LockNode.firstSection_of_quiet (hworkers : ∀ v, v ≠ w → n'.workers v = n.workers v)
    (hperdb : n'.perdb = n.perdb) (hdeclined : n'.db.acquireDeclined = n.db.acquireDeclined)
    (hms : ∀ m' ∈ ms, ∃ lsn, m' = .replayConfirm lsn) (hm : n.db.countsMessage m = false)
    (hreplay : n'.db.replayConfirmedLsn ≠ none →
      n'.db.replayConfirmedLsn = n.db.replayConfirmedLsn ∧
        n'.db.replayConfirmed = n.db.replayConfirmed) : n.FirstSection w m n' ms where
  workers := hworkers
  perdb := hperdb
  declined := hdeclined
  sent m' hm' := .inl (hms m' hm')
  replay hne := by simpa [hm] using hreplay hne

/-- What a start of the node leaves: the counters are empty, no worker is at work, and
replay is awaited only for the position of the last request that is sent. -/
structure LockNode.Started (n : LockNode ν) (ms : List (LockMessage ν)) : Prop where
  workers : ∀ w, n.workers w = .idle ∨ n.workers w = .stopped
  declined : n.db.acquireDeclined = 0
  replayConfirmed : n.db.replayConfirmed = 0
  sent : ∀ m ∈ ms, m = .start ∨ ∃ lsn, m = .requestReplayConfirm lsn
  replay : ∀ lsn, n.db.replayConfirmedLsn = some lsn →
    ∃ earlier, ms = earlier ++ [.requestReplayConfirm lsn]

theorem LockNode.Started.reacquire {sent : List (LockMessage ν)} (h : n.Started sent)
    (row : LockRow ν) :
    (LockNode.reacquire (n, sent) row).1.Started (LockNode.reacquire (n, sent) row).2 := by
  cases hstate : row.state with
  | acquired =>
    simp only [LockNode.reacquire, hstate]
    exact { h with }
  | catchup =>
    simp only [LockNode.reacquire, hstate]
    refine ⟨h.workers, h.declined, rfl, fun m hm => ?_, fun lsn hlsn => ⟨sent, ?_⟩⟩
    · rcases List.mem_append.mp hm with hm | hm
      · exact h.sent m hm
      · exact .inr ⟨_, List.mem_singleton.mp hm⟩
    · rw [Option.some.inj hlsn]

variable [DecidableEq ν]

theorem LockNode.updateOwnedRow_cases {node : ν} {f : LockRow ν → LockRow ν}
    (hn : n.updateOwnedRow node f = some n') : ∃ rows, n' = { n with rows := rows } := by
  unfold updateOwnedRow at hn
  split_ifs at hn
  exact ⟨_, (Option.some.inj hn).symm⟩

variable {me : ν}

theorem LockNode.sendConfirmLock_cases (hn : n.sendConfirmLock me w = some (n', ms)) :
    ms = [.confirmLock (n.db.lockHolder.getD me) n.db.lockType] ∧
      ∃ rows, n' = { n with
        rows := rows
        db := { n.db with
          replayConfirmed := 0
          replayConfirmedLsn := none
          lockState := .peerConfirmed } }.setWorker w .done := by
  simp only [sendConfirmLock, Option.bind_eq_bind, Option.bind_eq_some_iff,
    Option.pure_def, Option.some.injEq, Prod.mk.injEq] at hn
  obtain ⟨n₁, hn₁, rfl, rfl⟩ := hn
  obtain ⟨rows, rfl⟩ := updateOwnedRow_cases hn₁
  exact ⟨rfl, rows, rfl⟩

theorem LockNode.firstSection_setWorker (n : LockNode ν) (w : ν) (pc : WorkerPc)
    (hms : ∀ m' ∈ ms, ∃ lsn, m' = .replayConfirm lsn) (hm : n.db.countsMessage m = false) :
    n.FirstSection w m (n.setWorker w pc) ms :=
  firstSection_of_quiet (fun _ hv => n.setWorker_of_ne hv pc) rfl rfl hms hm
    fun _ => ⟨rfl, rfl⟩

theorem LockNode.firstSection_processAcquireDdlLock {lockType : LockType}
    (hn : n.processAcquireDdlLock w lockType = some n') :
    n.FirstSection w (.acquireLock lockType) n' [] := by
  unfold processAcquireDdlLock at hn
  split_ifs at hn
  · exact Option.some.inj hn ▸ n.firstSection_setWorker w _ (by simp) rfl
  · rw [← Option.some.inj hn]
    refine firstSection_of_quiet (fun v hv => ?_) rfl rfl (by simp) rfl fun _ => ⟨rfl, rfl⟩
    simp [takeLocalLock, setWorker, hv]
  · obtain ⟨n₁, hn₁, rfl⟩ := Option.map_eq_some_iff.mp hn
    obtain ⟨rows, rfl⟩ := updateOwnedRow_cases hn₁
    refine firstSection_of_quiet (fun v hv => ?_) rfl rfl (by simp) rfl fun _ => ⟨rfl, rfl⟩
    simp [setWorker, hv]
  · exact Option.some.inj hn ▸ n.firstSection_setWorker w _ (by simp) rfl

theorem LockNode.firstSection_processReplayConfirm {lsn : ℕ}
    (hn : n.processReplayConfirm me w lsn = some (n', ms)) :
    n.FirstSection w (.replayConfirm lsn) n' ms := by
  unfold processReplayConfirm at hn
  split_ifs at hn with hcounts hfull
  · obtain ⟨rfl, rows, rfl⟩ := sendConfirmLock_cases hn
    refine ⟨fun v hv => setWorker_of_ne _ hv _, rfl, rfl, fun m' hm' => ?_, by simp⟩
    obtain rfl := List.mem_singleton.mp hm'
    exact .inr ⟨hcounts, hfull, _, rfl⟩
  · cases hn
    refine ⟨fun v hv => setWorker_of_ne _ hv _, rfl, rfl, by simp, fun _ => ⟨rfl, ?_⟩⟩
    simp [LocksDb.countsMessage, hcounts]
  · cases hn
    exact n.firstSection_setWorker w _ (by simp) (by simpa [LocksDb.countsMessage] using hcounts)

theorem LockNode.firstSection (hn : n.processMessage me w m = some (n', ms)) :
    n.FirstSection w m n' ms := by
  cases m with
  | acquireLock lockType =>
    obtain ⟨n₁, hn₁, heq⟩ := Option.map_eq_some_iff.mp hn
    obtain ⟨rfl, rfl⟩ := Prod.mk.inj heq
    exact firstSection_processAcquireDdlLock hn₁
  | replayConfirm lsn => exact firstSection_processReplayConfirm hn
  | start | requestReplayConfirm =>
    cases hn
    exact n.firstSection_setWorker w _ (by simp) rfl
  | releaseLock lock =>
    cases hn
    unfold releaseLocalDdlLock
    split_ifs
    · exact n.firstSection_setWorker w _ (by simp) rfl
    · exact firstSection_of_quiet (fun v hv => setWorker_of_ne _ hv _) rfl rfl
        (by simp) rfl (by simp)
  | confirmLock lock lockType =>
    cases hn
    unfold processConfirmDdlLock
    split_ifs <;> exact n.firstSection_setWorker w _ (by simp) rfl
  | declineLock lock lockType =>
    cases hn
    unfold processDeclineDdlLock
    split_ifs <;> exact n.firstSection_setWorker w _ (by simp) rfl

theorem LockNode.laterSection_sendConfirmLock {n₁ : LockNode ν}
    (hworkers : n₁.workers = n.workers) (hperdb : n₁.perdb = n.perdb)
    (hdeclined : n₁.db.acquireDeclined = n.db.acquireDeclined)
    (hpc : n.workers w = .confirming ∧ n₁.db.lockType = n.db.lockType ∨
      n.workers w = .raisingConfirm n₁.db.lockType) (hn : n₁.sendConfirmLock me w = some (n', ms)) :
    n.LaterSection w n' ms := by
  obtain ⟨rfl, rows, rfl⟩ := sendConfirmLock_cases hn
  refine ⟨fun v hv => ?_, hperdb, ?_, by simp, fun m hm => ?_, .inr ⟨?_, by simp, by simp⟩⟩
  · rw [setWorker_of_ne _ hv, ← hworkers]
  · rcases hpc with ⟨hpc, -⟩ | hpc <;> simp [hpc, hdeclined]
  · obtain rfl := List.mem_singleton.mp hm
    rcases hpc with ⟨hpc, htype⟩ | hpc
    · exact .inr (.inr (.inl ⟨_, hpc, by rw [htype]⟩))
    · exact .inr (.inr (.inr ⟨_, _, hpc, rfl⟩))
  · rcases hpc with ⟨hpc, -⟩ | hpc <;> simp [hpc]

theorem LockNode.laterSection_of_quiet {n₁ : LockNode ν} {pc : WorkerPc}
    (hworkers : n₁.workers = n.workers) (hperdb : n₁.perdb = n.perdb)
    (hdeclined : n₁.db.acquireDeclined =
      n.db.acquireDeclined + if n.workers w = .countingDecline then 1 else 0)
    (hplace : (∀ announced lockType, pc = .declining announced lockType →
        ∃ upgrade, n.workers w = .examining upgrade lockType) ∧
      (∀ upgrade lockType, pc = .examining upgrade lockType →
        n.workers w = .cancelling upgrade lockType) ∧
      (∀ upgrade lockType, pc ≠ .cancelling upgrade lockType) ∧
      (∀ lockType, pc ≠ .raisingConfirm lockType) ∧ pc ≠ .countingDecline)
    (hrequest : ∀ lsn, n.workers w ≠ .requesting lsn)
    (hreplay : n₁.db.replayConfirmedLsn ≠ none →
      n₁.db.replayConfirmedLsn = n.db.replayConfirmedLsn ∧
        n₁.db.replayConfirmed = n.db.replayConfirmed) :
    n.LaterSection w (n₁.setWorker w pc) [] where
  workers v hv := by rw [setWorker_of_ne _ hv, hworkers]
  perdb := hperdb
  declined := hdeclined
  place := by simpa using hplace
  sent := by simp
  replay := .inr ⟨hrequest, by simp, hreplay⟩

theorem LockNode.laterSection {cancelled : Bool} (hn : n.work me w cancelled = some (n', ms)) :
    n.LaterSection w n' ms := by
  cases hpc : n.workers w with
  | confirming =>
    simp only [work, hpc] at hn
    exact laterSection_sendConfirmLock rfl rfl rfl (.inl ⟨hpc, rfl⟩) hn
  | raisingConfirm lockType =>
    simp only [work, hpc] at hn
    refine laterSection_sendConfirmLock ?_ ?_ ?_ (.inr hpc) hn <;> rfl
  | requesting lsn =>
    simp only [work, hpc] at hn
    cases hn
    refine ⟨fun v hv => setWorker_of_ne _ hv _, rfl, by simp [hpc], by simp, by simp, .inl ?_⟩
    exact ⟨lsn, hpc, rfl, rfl, rfl⟩
  | declining announced lockType =>
    simp only [work, hpc] at hn
    cases hn
    cases announced
    all_goals
      exact ⟨fun v hv => setWorker_of_ne _ hv _, rfl, by simp [hpc], by simp, by simp [hpc],
        .inr ⟨by simp [hpc], by simp, fun _ => ⟨rfl, rfl⟩⟩⟩
  | idle | done | stopped =>
    simp only [work, hpc] at hn
    cases hn
  | clearing left found =>
    cases left with
    | zero =>
      simp only [work, hpc] at hn
      cases hn
      refine laterSection_of_quiet ?_ ?_ ?_ (by simp) (by simp [hpc]) ?_
      all_goals split <;> simp [hpc]
    | succ left =>
      simp only [work, hpc] at hn
      cases hn
      refine laterSection_of_quiet ?_ ?_ ?_ (by simp) (by simp [hpc]) ?_
      all_goals
        unfold clearRow
        split <;> simp [hpc]
  | examining upgrade lockType =>
    simp only [work, hpc] at hn
    cases hn
    refine laterSection_of_quiet rfl rfl (by simp [hpc]) ?_ (by simp [hpc])
      fun _ => ⟨rfl, rfl⟩
    cases cancelled <;> cases upgrade <;> simp [hpc]
  | _ =>
    simp only [work, hpc] at hn
    cases hn
    refine laterSection_of_quiet rfl rfl (by simp [hpc]) (by simp [hpc]) (by simp [hpc])
      fun _ => ⟨rfl, rfl⟩

theorem LockNode.nodeDetached_frame (me : ν) (n : LockNode ν) (j : ν) :
    (n.nodeDetached me j).workers = n.workers ∧
      (n.nodeDetached me j).db.acquireDeclined = n.db.acquireDeclined ∧
      ((n.nodeDetached me j).db.replayConfirmedLsn ≠ none →
        (n.nodeDetached me j).db.replayConfirmedLsn = n.db.replayConfirmedLsn ∧
          (n.nodeDetached me j).db.replayConfirmed = n.db.replayConfirmed) := by
  unfold nodeDetached releaseLocalDdlLock
  split_ifs <;> simp

theorem LockNode.startup_started (n : LockNode ν) : n.startup.1.Started n.startup.2 := by
  unfold startup
  refine List.foldlRecOn (motive := fun acc : LockNode ν × List (LockMessage ν) =>
    acc.1.Started acc.2) _ _ ?_ fun _ h row _ => h.reacquire row
  refine ⟨fun w => ?_, rfl, rfl, by simp, by simp [LocksDb.unlocked]⟩
  by_cases hw : w ∈ n.killed <;> simp [hw]

/-- Whether the step runs a section of a message handler or starts the node. -/
def Action.isHandler : Action ν → Bool
  | .deliver .. | .work .. | .restart _ => true
  | _ => false

/-- A step of a backend or of the per-database worker of `i`, or one in which a worker of
`i` has no message in its hands any more. -/
structure Cluster.LocalStep (s : Cluster ν) (i : ν) (t : Cluster ν) : Prop where
  sent : ∃ es, t.net.log i = s.net.log i ++ es ∧
    ∀ e ∈ es, e.isAcquire = true ∨ e.isRelease = true
  workers : ∀ w, (t.node i).workers w = .idle ∨ (t.node i).workers w = .stopped ∨
    (t.node i).workers w = (s.node i).workers w ∧ t.net.pos i w = s.net.pos i w
  declined : (t.node i).db.acquireDeclined = (s.node i).db.acquireDeclined ∧
      t.declinedBy i = s.declinedBy i ∨
    (t.node i).db.acquireDeclined = 0 ∧ t.declinedBy i = []
  replayedBy : t.replayedBy i = s.replayedBy i
  replay : (t.node i).db.replayConfirmedLsn ≠ none →
    (t.node i).db.replayConfirmedLsn = (s.node i).db.replayConfirmedLsn ∧
      (t.node i).db.replayConfirmed = (s.node i).db.replayConfirmed

theorem Cluster.localStep_put (s : Cluster ν) {i : ν}
    (hdeclined : n.db.acquireDeclined = (s.node i).db.acquireDeclined)
    (hworkers : ∀ w, n.workers w = .idle ∨ n.workers w = .stopped ∨
      n.workers w = (s.node i).workers w)
    (hreplay : n.db.replayConfirmedLsn ≠ none →
      n.db.replayConfirmedLsn = (s.node i).db.replayConfirmedLsn ∧
        n.db.replayConfirmed = (s.node i).db.replayConfirmed) : s.LocalStep i (s.put i n) := by
  refine ⟨⟨[], by simp, by simp⟩, fun w => ?_, .inl ⟨?_, rfl⟩, rfl, ?_⟩
  all_goals rw [put_node_self]
  · simpa using hworkers w
  · exact hdeclined
  · exact hreplay

theorem Cluster.localStep_seek (s : Cluster ν) (i w : ν) (k : ℕ) :
    s.LocalStep i { s.put i ((s.node i).setWorker w .idle) with net := s.net.seek i w k } := by
  refine ⟨⟨[], by simp, by simp⟩, fun v => ?_, .inl ⟨by simp, rfl⟩, rfl, by simp⟩
  simp only [put_node_self]
  by_cases hv : v = w
  · simp [hv]
  · refine .inr (.inr ⟨LockNode.setWorker_of_ne _ hv _, ?_⟩)
    simp [Net.seek, hv]

theorem Cluster.localStep_acquire {s t : Cluster ν} {i : ν} {p : ℕ} {lockType : LockType}
    (ht : s.acquire i p lockType = some t) : s.LocalStep i t := by
  obtain ⟨-, -, ⟨-, -, rfl⟩ | ⟨-, rfl⟩ | ⟨-, rfl⟩⟩ := acquire_cases ht
  · exact s.localStep_put rfl (fun _ => .inr (.inr rfl)) fun _ => ⟨rfl, rfl⟩
  · exact s.localStep_put rfl (fun _ => .inr (.inr rfl)) fun _ => ⟨rfl, rfl⟩
  · refine ⟨⟨_, Net.append_log_self _ _ _, ?_⟩, fun w => .inr (.inr ?_), .inr ?_, rfl, ?_⟩
    · simp [unasked, Entry.isAcquire]
    all_goals simp [LockNode.sendAcquire]

theorem Cluster.localStep [Fintype ν] {s t : Cluster ν} {a : Action ν} (ha : a.isHandler = false)
    (ht : s.step a = some t) : s.LocalStep a.node t := by
  cases a with
  | acquire i p lockType => exact localStep_acquire ht
  | check i p =>
    obtain ⟨_, -, rfl⟩ := check_cases ht
    refine s.localStep_put ?_ (fun w => .inr (.inr ?_)) fun _ => ?_
    all_goals
      simp only [LockNode.checkTally]
      split_ifs <;> first | rfl | exact ⟨rfl, rfl⟩
  | interrupt i p =>
    obtain ⟨_, -, rfl⟩ := interrupt_cases ht
    exact s.localStep_put rfl (fun _ => .inr (.inr rfl)) fun _ => ⟨rfl, rfl⟩
  | finish i p =>
    obtain ⟨_, -, rfl⟩ := finish_cases ht
    refine ⟨⟨[], by simp, by simp⟩, fun w => .inr (.inr ?_), .inr ?_, rfl, ?_⟩
    all_goals simp [Action.node, LockNode.finishAcquire]
  | sendRelease i p =>
    obtain ⟨-, rfl⟩ := sendRelease_cases ht
    refine ⟨⟨_, Net.append_log_self _ _ _, ?_⟩, fun w => .inr (.inr ?_), .inl ⟨?_, rfl⟩, rfl, ?_⟩
    · simp [unasked, Entry.isRelease]
    all_goals simp [Action.node, LockNode.sendRelease]
  | releaseOwned i p =>
    obtain ⟨-, rfl⟩ := releaseOwned_cases ht
    exact s.localStep_put rfl (fun _ => .inr (.inr rfl)) (by simp [LockNode.releaseOwned])
  | advance i w =>
    obtain ⟨-, -, -, rfl⟩ := advance_cases ht
    exact s.localStep_seek i w _
  | rewind i w k => exact rewind_cases ht ▸ s.localStep_seek i w k
  | kill i j =>
    obtain rfl := kill_cases ht
    exact s.localStep_put rfl (fun _ => .inr (.inr rfl)) fun _ => ⟨rfl, rfl⟩
  | stopWorker i j =>
    obtain rfl := stopWorker_cases ht
    refine s.localStep_put rfl (fun w => ?_) fun _ => ⟨rfl, rfl⟩
    by_cases hw : w = j
    · simp [hw]
    · exact .inr (.inr (LockNode.setWorker_of_ne _ hw _))
  | maintain i =>
    obtain rfl := maintain_cases ht
    exact s.localStep_put rfl (fun _ => .inr (.inr rfl)) fun _ => ⟨rfl, rfl⟩
  | forget i =>
    obtain ⟨j, rest, counted, -, rfl⟩ := forget_cases ht
    obtain ⟨hworkers, hdeclined, hreplay⟩ := (s.node i).nodeDetached_frame i j
    exact s.localStep_put hdeclined (fun w => .inr (.inr (congrFun hworkers w))) hreplay
  | setNnodes i =>
    obtain ⟨counted, -, rfl⟩ := setNnodes_cases ht
    have hput := s.localStep_put (i := i) (n := (s.node i).setNnodes counted) rfl
      (fun _ => .inr (.inr rfl)) fun _ => ⟨rfl, rfl⟩
    exact { hput with }
  | writeWal i k =>
    rw [← Option.some.inj ht]
    exact s.localStep_put rfl (fun _ => .inr (.inr rfl)) fun _ => ⟨rfl, rfl⟩
  | deliver | work | restart => cases ha

end Pgactive.Locks
