import Pgactive.Locks.Sections

/-!
# Whose request a decline answers

A decline names the node whose request it answers, but the reader compares only the type of the
lock. If no node reads a decline of somebody else's request while it has a lock of that type, every
decline that it counts answers a request of its own.
-/

namespace Pgactive.Locks

open BroadcastLog Transition

variable {ν : Type}

/-- The message declines a request of node `i`: it names `i`, and what it answers is a
request in the log of `i`. -/
def Cluster.DeclinesRequest (s : Cluster ν) (i : ν) (e : Entry ν) : Prop :=
  ∃ lockType k, e.message = .declineLock i lockType ∧ e.answers = some (i, k + 1) ∧
    ∃ r, (s.net.log i)[k]? = some r ∧ r.message = .acquireLock lockType

/-- Everything counted in `acquire_declined` declines a request of the node itself. -/
def Cluster.DeclinesAttributed (s : Cluster ν) : Prop :=
  ∀ i, (s.node i).db.acquireDeclined = (s.declinedBy i).length ∧
    ∀ e ∈ s.declinedBy i, s.DeclinesRequest i e

def Cluster.DeclinesOwn (s : Cluster ν) : Action ν → Prop
  | .deliver i w => ∀ e, s.net.next i w = some e → ∀ k lockType,
    e.message = .declineLock k lockType → k ≠ i → (s.node i).db.lockType ≠ lockType
  | _ => True

def Cluster.inHand (s : Cluster ν) (i w : ν) : Option (LockMessage ν) :=
  (s.net.next i w).map Entry.message

def WorkerPc.Reads (me : ν) : WorkerPc → Option (LockMessage ν) → Prop
  | .declining _ lockType, m | .cancelling _ lockType, m | .examining _ lockType, m =>
    m = some (.acquireLock lockType)
  | .countingDecline, m => ∃ lockType, m = some (.declineLock me lockType)
  | _, _ => True

instance [DecidableEq ν] (s : Cluster ν) (a : Action ν) : Decidable (s.DeclinesOwn a) :=
  match a with
  | .deliver i w =>
    match hnext : s.net.next i w with
    | some ⟨.declineLock k lockType, answers⟩ =>
      decidable_of_iff (k ≠ i → (s.node i).db.lockType ≠ lockType)
        (by simp [Cluster.DeclinesOwn, hnext])
    | some ⟨.start, _⟩ | some ⟨.acquireLock _, _⟩ | some ⟨.releaseLock _, _⟩
    | some ⟨.confirmLock .., _⟩ | some ⟨.requestReplayConfirm _, _⟩ | some ⟨.replayConfirm _, _⟩
    | none => isTrue (by simp [Cluster.DeclinesOwn, hnext])
  | .acquire .. | .check .. | .interrupt .. | .finish .. | .sendRelease .. | .releaseOwned ..
  | .work .. | .advance .. | .rewind .. | .restart _ | .kill .. | .stopWorker .. | .maintain _
  | .forget _ | .setNnodes _ | .writeWal .. => isTrue trivial

/-- The declines of the cluster. -/
structure Cluster.Declines (s : Cluster ν) : Prop where
  attributed : s.DeclinesAttributed
  sent : ∀ j, ∀ e ∈ s.net.log j, ∀ k lockType, e.message = .declineLock k lockType →
    s.DeclinesRequest k e
  reads : ∀ i w, ((s.node i).workers w).Reads i (s.inHand i w)

variable {me : ν}

theorem WorkerPc.Reads.mono {pc : WorkerPc} {m m' : Option (LockMessage ν)} (h : pc.Reads me m)
    (hm : ∀ x, m = some x → m' = some x) : pc.Reads me m' := by
  cases pc with
  | declining | cancelling | examining => exact hm _ h
  | countingDecline =>
    obtain ⟨lockType, h⟩ := h
    exact ⟨lockType, hm _ h⟩
  | _ => trivial

variable {n : LockNode ν}

theorem LockNode.Delivered.reads {n' : LockNode ν} {m : LockMessage ν} {pc : WorkerPc}
    (h : Delivered me n n' m pc)
    (hm : ∀ k lockType, m = .declineLock k lockType → k ≠ me → n.db.lockType ≠ lockType) :
    pc.Reads me (some m) := by
  cases h with
  | done | clearing | confirm => trivial
  | declining => rfl
  | granting upgrade lockType =>
    unfold WorkerPc.afterGrant
    split_ifs <;> trivial
  | decline lock =>
    by_cases hlock : lock = me
    · exact ⟨_, by rw [hlock]⟩
    · exact absurd rfl (hm lock _ rfl hlock)

variable {w : ν}

theorem LockNode.LaterSection.reads {n' : LockNode ν} {ms : List (LockMessage ν)}
    {m : Option (LockMessage ν)} (h : n.LaterSection w n' ms) (hm : (n.workers w).Reads me m) :
    (n'.workers w).Reads me m := by
  obtain ⟨hdeclining, hexamining, hcancelling, -, hcounting⟩ := h.place
  cases hpc : n'.workers w with
  | declining announced lockType =>
    obtain ⟨upgrade, hold⟩ := hdeclining announced lockType hpc
    rwa [hold] at hm
  | examining upgrade lockType =>
    rwa [hexamining upgrade lockType hpc] at hm
  | cancelling upgrade lockType => exact absurd hpc (hcancelling upgrade lockType)
  | countingDecline => exact absurd hpc hcounting
  | _ => trivial

variable {s : Cluster ν} {i : ν}

theorem Cluster.Declines.entry_declineLock (h : s.Declines) {announced : Bool}
    {lockType : LockType} (hw : (s.node i).workers w = .declining announced lockType) :
    s.DeclinesRequest w (s.entry i w (.declineLock w lockType)) := by
  have hreads := h.reads i w
  rw [hw] at hreads
  obtain ⟨e, he, hm⟩ := Option.map_eq_some_iff.mp hreads
  exact ⟨lockType, s.net.pos i w, rfl, rfl, e, he, hm⟩

variable [DecidableEq ν]

variable {t : Cluster ν}

theorem Cluster.DeclinesRequest.mono {k : ν} {e : Entry ν} (h : s.DeclinesRequest k e)
    (hacts : s.ActsAt i t) : t.DeclinesRequest k e := by
  obtain ⟨lockType, m, hm, ha, r, hr, hacquire⟩ := h
  exact ⟨lockType, m, hm, ha, r, getElem?_of_isPrefix (hacts.log_isPrefix k) hr, hacquire⟩

theorem Cluster.ActsAt.inHand {k : ν} {m : LockMessage ν} (h : s.ActsAt i t)
    (hpos : t.net.pos k w = s.net.pos k w) (hm : s.inHand k w = some m) :
    t.inHand k w = some m := by
  obtain ⟨e, he, rfl⟩ := Option.map_eq_some_iff.mp hm
  rw [Cluster.inHand, h.next hpos he, Option.map_some]

section

variable (h : s.Declines)
include h

section

variable (hacts : s.ActsAt i t)
include hacts

theorem Cluster.Declines.of_acting
    (hcounted : (t.node i).db.acquireDeclined = (t.declinedBy i).length)
    (hattributed : ∀ e ∈ t.declinedBy i, e ∈ s.declinedBy i ∨ s.DeclinesRequest i e)
    (hsent : ∀ e ∈ t.net.log i, e ∈ s.net.log i ∨
      ∀ k lockType, e.message = .declineLock k lockType → s.DeclinesRequest k e)
    (hreads : ∀ w, ((t.node i).workers w).Reads i (t.inHand i w)) : t.Declines := by
  refine ⟨fun k => ?_, fun j e he k lockType hm => ?_, fun k w => ?_⟩
  · by_cases hk : k = i
    · subst hk
      refine ⟨hcounted, fun e he => ?_⟩
      rcases hattributed e he with he | he
      · exact ((h.attributed k).2 e he).mono hacts
      · exact he.mono hacts
    · rw [hacts.node k hk, hacts.declinedBy k hk]
      exact ⟨(h.attributed k).1, fun e he => ((h.attributed k).2 e he).mono hacts⟩
  · by_cases hj : j = i
    · subst hj
      rcases hsent e he with he | he
      · exact (h.sent j e he k lockType hm).mono hacts
      · exact (he k lockType hm).mono hacts
    · rw [hacts.log j hj] at he
      exact (h.sent j e he k lockType hm).mono hacts
  · by_cases hk : k = i
    · exact hk ▸ hreads w
    · rw [hacts.node k hk]
      exact (h.reads k w).mono fun x hx => hacts.inHand (congrFun (hacts.pos k hk) w) hx

theorem Cluster.Declines.reads_of_eq (hworker : (t.node i).workers w = (s.node i).workers w)
    (hpos : t.net.pos i w = s.net.pos i w) :
    ((t.node i).workers w).Reads i (t.inHand i w) := by
  rw [hworker]
  exact (h.reads i w).mono fun x hx => hacts.inHand hpos hx

theorem Cluster.Declines.localStep (hlocal : s.LocalStep i t) : t.Declines := by
  refine h.of_acting hacts ?_ (fun e he => ?_) (fun e he => ?_) fun w => ?_
  · rcases hlocal.declined with ⟨hdeclined, hby⟩ | ⟨hdeclined, hby⟩
    · rw [hdeclined, hby]
      exact (h.attributed i).1
    · simp [hdeclined, hby]
  · rcases hlocal.declined with ⟨-, hby⟩ | ⟨-, hby⟩
    · exact .inl (hby ▸ he)
    · simp [hby] at he
  · obtain ⟨es, hlog, hes⟩ := hlocal.sent
    rw [hlog] at he
    rcases List.mem_append.mp he with he | he
    · exact .inl he
    · refine .inr fun k lockType hm => ?_
      have hkind := hes e he
      simp [Entry.isAcquire, Entry.isRelease, hm] at hkind
  · rcases hlocal.workers w with hw | hw | ⟨hw, hpos⟩
    · rw [hw]
      trivial
    · rw [hw]
      trivial
    · exact h.reads_of_eq hacts hw hpos

theorem Cluster.Declines.deliver (hown : s.DeclinesOwn (.deliver i w))
    (ht : s.deliver i w = some t) : t.Declines := by
  obtain ⟨-, -, e, n, ms, hnext, hn, rfl⟩ := deliver_cases ht
  have hfirst := LockNode.firstSection hn
  refine h.of_acting hacts ?_ (fun e he => .inl he) (fun e' he' => ?_) fun v => ?_
  · simp only [send_node_self]
    rw [hfirst.declined]
    exact (h.attributed i).1
  · simp only [send_net, Net.append_log_self, List.mem_append, List.mem_map] at he'
    refine he'.imp_right ?_
    -- the first section of a handler declines nothing
    rintro ⟨m, hm, rfl⟩ k lockType heq
    rcases hfirst.sent m hm with ⟨lsn, rfl⟩ | ⟨-, -, j, rfl⟩ <;> cases heq
  · by_cases hv : v = w
    · subst hv
      have hplace := (LockNode.place_of_processMessage hn).reads (hown e hnext)
      have hhand : s.inHand i v = some e.message := by simp [inHand, hnext]
      simp only [send_node_self]
      rw [← hhand] at hplace
      exact hplace.mono fun x hx => hacts.inHand rfl hx
    · refine h.reads_of_eq hacts ?_ rfl
      simpa using hfirst.workers v hv

theorem Cluster.Declines.workerStep {ms : List (LockMessage ν)}
    (hlater : (s.node i).LaterSection w n ms)
    (hnet : t.net = s.net.append i (ms.map (s.entry i w)))
    (hworkers : (t.node i).workers = n.workers)
    (hcounted : (t.node i).db.acquireDeclined = (t.declinedBy i).length)
    (hattributed : ∀ e ∈ t.declinedBy i, e ∈ s.declinedBy i ∨ s.DeclinesRequest i e) :
    t.Declines := by
  refine h.of_acting hacts hcounted hattributed (fun e' he' => ?_) fun v => ?_
  · simp only [hnet, Net.append_log_self, List.mem_append, List.mem_map] at he'
    refine he'.imp_right ?_
    rintro ⟨m, hm, rfl⟩ k lockType heq
    rcases hlater.sent m hm with ⟨lsn, rfl⟩ | ⟨_, lockType', hpc, rfl⟩ | ⟨j, -, rfl⟩ |
      ⟨j, ty, -, rfl⟩
    case inr.inl =>
      obtain ⟨rfl, rfl⟩ := LockMessage.declineLock.inj heq
      exact h.entry_declineLock hpc
    all_goals cases heq
  · have hpos : t.net.pos i v = s.net.pos i v := by rw [hnet, Net.append_pos]
    by_cases hv : v = w
    · subst hv
      rw [hworkers]
      exact (hlater.reads (h.reads i v)).mono fun x hx => hacts.inHand hpos hx
    · exact h.reads_of_eq hacts (by rw [hworkers, hlater.workers v hv]) hpos

theorem Cluster.Declines.work {cancelled : Bool}
    (ht : s.work i w cancelled = some t) : t.Declines := by
  obtain ⟨-, e, n, ms, hnext, hn, heq⟩ := work_cases ht
  have hlater := LockNode.laterSection hn
  have hlength := (h.attributed i).1
  by_cases hcounting : (s.node i).workers w = .countingDecline
  · simp only [hcounting] at heq
    subst heq
    refine h.workerStep hacts hlater rfl (by simp) ?_ fun e' he' => ?_
    · simp only [send_node_self, Function.update_self, List.length_cons]
      rw [hlater.declined, if_pos hcounting, hlength]
      omega
    · simp only [Function.update_self, List.mem_cons] at he'
      rcases he' with rfl | he'
      · -- the message that is counted is a decline that names this node
        have hreads := h.reads i w
        rw [hcounting] at hreads
        obtain ⟨lockType, hreads⟩ := hreads
        obtain ⟨e'', he'', hm⟩ := Option.map_eq_some_iff.mp hreads
        obtain rfl : e' = e'' := Option.some.inj (hnext.symm.trans he'')
        exact .inr (h.sent w e' (List.mem_of_getElem? hnext) i lockType hm)
      · exact .inl he'
  · have hdeclined := hlater.declined
    rw [if_neg hcounting, Int.add_zero] at hdeclined
    split at heq
    case h_2 hc => exact absurd hc hcounting
    all_goals
      subst heq
      refine h.workerStep hacts hlater rfl (by simp) ?_ fun e' he' => .inl he'
      simp only [send_node_self]
      rw [hdeclined]
      exact hlength

end

theorem Cluster.Declines.restart (hacts : s.ActsAt i (s.restart i)) : (s.restart i).Declines := by
  have hstarted := (s.node i).startup_started
  refine h.of_acting hacts ?_ ?_ (fun e he => ?_) fun w => ?_
  · simp [Cluster.restart, hstarted.declined]
  · simp [Cluster.restart]
  · simp only [Cluster.restart, Cluster.send_net, Net.append_log_self, List.mem_append,
      List.mem_map] at he
    refine he.imp_right ?_
    rintro ⟨m, hm, rfl⟩ k lockType heq
    rcases hstarted.sent m hm with rfl | ⟨lsn, rfl⟩ <;> cases heq
  · simp only [Cluster.restart, Cluster.send_node_self]
    rcases hstarted.workers w with hw | hw <;> rw [hw] <;> trivial

theorem Cluster.Declines.step [Fintype ν] {a : Action ν} (hown : s.DeclinesOwn a)
    (ht : s.step a = some t) : t.Declines := by
  have hacts := Cluster.step_actsAt ht
  cases hhandler : a.isHandler with
  | false => exact h.localStep hacts (Cluster.localStep hhandler ht)
  | true =>
    cases a with
    | deliver i w => exact h.deliver hacts hown ht
    | work i w cancelled => exact h.work hacts ht
    | restart i =>
      cases ht
      exact h.restart hacts
    | _ => cases hhandler

end

/-- In every run in which no node reads a decline of another node's request while it has a
lock of that type, every decline that a node counts answers a request of its own. -/
theorem declineLock_attributed [Fintype ν] {s : Cluster ν}
    (hs : Reach (· = Cluster.start ν) Cluster.step Cluster.DeclinesOwn s) :
    s.DeclinesAttributed := by
  have hdeclines : s.Declines := by
    refine hs.invariant ?_ fun s a t _ h hown ht => h.step hown ht
    rintro _ rfl
    refine ⟨fun i => ⟨rfl, ?_⟩, ?_, fun i w => ?_⟩
    · simp [Cluster.start]
    · simp [Cluster.start]
    · trivial
  exact hdeclines.attributed

/-- Node `b` holds the lock for node `a`, and declines the request of node `c`. -/
def secondRequest (a b c : ν) : List (Action ν) :=
  [.acquire a 1 .ddl, .acquire c 1 .ddl] ++ Action.process b a 1 ++ Action.process b c 1

/-- Node 2 reads both answers of node 1 and fails. -/
theorem declineLock_attributed_secondRequest :
    ∃ s : Cluster (Fin 3), Reach (· = Cluster.start (Fin 3)) Cluster.step Cluster.DeclinesOwn s ∧
      ((s.node 2).db.acquireDeclined = 1 ∧ ((s.node 2).backends 1).pc = .idle) ∧
      s.DeclinesAttributed := by
  have hstart : Reach (· = Cluster.start (Fin 3)) Cluster.step Cluster.DeclinesOwn
      (Cluster.start (Fin 3)) := .init rfl
  obtain ⟨s, hs, hdeclined⟩ := hstart.exists_of_run
    (secondRequest 0 1 2 ++ Action.process 2 1 0 ++ Action.process 2 1 1 ++ [.check 2 1])
    (fun s => (s.node 2).db.acquireDeclined = 1 ∧ ((s.node 2).backends 1).pc = .idle)
    (by decide +kernel)
  exact ⟨s, hs, hdeclined, declineLock_attributed hs⟩

/-- Node 0 can count the decline of the request of node 2. -/
theorem declineLock_misattributed :
    ¬∀ (n : ℕ) (s : Cluster (Fin n)), 3 ≤ n →
      Reach (· = Cluster.start (Fin n)) Cluster.step (fun _ a => a.isLockStep = true) s →
      s.DeclinesAttributed := by
  intro hclaim
  have hstart : Reach (· = Cluster.start (Fin 3)) Cluster.step
      (fun _ a => a.isLockStep = true) (Cluster.start (Fin 3)) := .init rfl
  obtain ⟨s, hs, e, he, hm⟩ := hstart.exists_of_run
    (secondRequest 0 1 2 ++ Action.process 0 1 1 ++ Action.process 0 1 1 ++ [.check 0 1])
    (fun s => ∃ e ∈ s.declinedBy 0, e.message = .declineLock 2 .ddl) (by decide +kernel)
  obtain ⟨lockType, k, hm', -⟩ := (hclaim 3 s (by decide) hs 0).2 e he
  have hnode := (LockMessage.declineLock.inj (hm.symm.trans hm')).1
  exact absurd hnode (by decide)

end Pgactive.Locks
