import Pgactive.Locks.System
import Pgactive.Locks.Granting

/-!
# Grants and confirmations along a run

In a run without crashes every confirmation answers a request that its sender granted,
no request is confirmed twice by the same node, and a request that a node has granted
and not confirmed yet has no confirmation in its log.
-/

namespace Pgactive.Locks

open BroadcastLog

variable {ν : Type}

def Entry.isConfirm (e : Entry ν) : Bool :=
  match e.message with
  | .confirmLock .. => true
  | _ => false

/-- Steps in which a worker or a node loses its place. -/
def Action.crashes : Action ν → Bool
  | .rewind .. | .restart _ => true
  | _ => false

theorem Action.crashes_of_isLockStep {a : Action ν} (h : a.isLockStep = true) :
    a.crashes = false := by
  cases a <;> first | rfl | simp [isLockStep] at h

/-- What holds of each node by itself as long as no node crashes. -/
structure LockNode.Sane (n : LockNode ν) : Prop where
  consistent : n.Consistent
  noClearing : ∀ w left found, n.workers w ≠ .clearing left found
  forgets : ∀ nodes counted, n.perdb = .maintaining nodes counted →
    ∀ j ∈ nodes, n.workers j = .stopped

/-- The relation between grants, the confirmations in the logs and the requests that they
answer. -/
structure Cluster.Grants (s : Cluster ν) : Prop where
  bounded : s.net.Bounded
  sane : ∀ i, (s.node i).Sane
  sent : ∀ i, ∀ e ∈ s.net.log i, e.message.SentBy i
  granted_le : ∀ j k, s.granted j k ≤ lastNumber Entry.isAcquire (s.net.log k)
  /-- A granted request has been read, except for the one in the worker's hands. -/
  granted_le_pos : ∀ j k, s.granted j k ≤ s.net.pos j k + 1 ∧
    ((s.node j).workers k = .idle → s.granted j k ≤ s.net.pos j k)
  answers : ∀ j, ∀ e ∈ s.net.log j, ∀ k lockType, e.message = .confirmLock k lockType →
    ∃ p ≤ s.granted j k, e.answers = some (k, p)
  once : ∀ j, (s.net.log j).Pairwise fun e e' =>
    e.isConfirm = true → e'.isConfirm = true → e.answers ≠ e'.answers
  pending : ∀ j k, (s.node j).Pending k → ∀ e ∈ s.net.log j, e.isConfirm = true →
    e.answers ≠ some (k, s.granted j k)

variable {n : LockNode ν}

theorem LockNode.Sane.setInsertLsn (h : n.Sane) (lsn : ℕ) : { n with insertLsn := lsn }.Sane :=
  ⟨h.consistent.setPerdb n.db.nnodes lsn n.killed n.perdb, h.noClearing, h.forgets⟩

theorem Cluster.start_grants [DecidableEq ν] [Fintype ν] : (start ν).Grants where
  bounded := Net.bounded_empty
  sane := fun _ => ⟨LockNode.unlocked_consistent _, by simp [start, LockNode.unlocked],
    by simp [start, LockNode.unlocked]⟩
  sent := by simp [start]
  granted_le := by simp [start]
  granted_le_pos := by simp [start]
  answers := by simp [start]
  once := by simp [start]
  pending := by simp [start]

/-- What node `i` may send without granting a request: anything but confirmations, or the
confirmation of the request that is pending. -/
inductive Cluster.Confirms (s : Cluster ν) (i : ν) (n' : LockNode ν) : List (Entry ν) → Prop
  | nothing {es : List (Entry ν)} (hes : ∀ e ∈ es, e.isConfirm = false)
      (hpending : ∀ k, n'.Pending k → (s.node i).Pending k) : Confirms s i n' es
  | pending {k : ν} {lockType : LockType} (hpending : (s.node i).Pending k)
      (hdone : ∀ v, ¬n'.Pending v) :
      Confirms s i n' [⟨.confirmLock k lockType, some (k, s.granted i k)⟩]

variable {s : Cluster ν} {i : ν} {n' : LockNode ν} {es : List (Entry ν)}

theorem Cluster.Confirms.mono (h : s.Confirms i n es) (hpending : ∀ k, n'.Pending k → n.Pending k) :
    s.Confirms i n' es := by
  cases h with
  | nothing hes hold => exact .nothing hes fun k hk => hold k (hpending k hk)
  | pending hk hdone => exact .pending hk fun v hv => hdone v (hpending v hv)

variable {e : Entry ν}

theorem Cluster.Confirms.answers (h : s.Confirms i n' es) (he : e ∈ es) {k : ν}
    {lockType : LockType} (hm : e.message = .confirmLock k lockType) :
    e.answers = some (k, s.granted i k) := by
  cases h with
  | nothing hes =>
    have hnot := hes e he
    simp [Entry.isConfirm, hm] at hnot
  | pending =>
    obtain rfl := List.mem_singleton.mp he
    cases hm
    rfl

theorem Cluster.Grants.not_confirmed (h : s.Grants) (hes : s.Confirms i n' es) {k : ν}
    (hk : n'.Pending k) :
    ∀ e ∈ s.net.log i ++ es, e.isConfirm = true → e.answers ≠ some (k, s.granted i k) := by
  cases hes with
  | nothing hes hpending =>
    intro e he hconfirm
    rcases List.mem_append.mp he with he | he
    · exact h.pending i k (hpending k hk) e he hconfirm
    · simp [hes e he] at hconfirm
  | pending _ hdone => exact absurd hk (hdone k)

theorem Cluster.Grants.once_append (h : s.Grants) (hes : s.Confirms i n' es) :
    (s.net.log i ++ es).Pairwise fun e e' =>
      e.isConfirm = true → e'.isConfirm = true → e.answers ≠ e'.answers := by
  refine List.pairwise_append.mpr ⟨h.once i, ?_, fun e he e' he' hconfirm hconfirm' => ?_⟩
  · cases hes with
    | nothing hes =>
      exact List.pairwise_of_forall_mem_list fun e he _ _ hconfirm => by simp [hes e he] at hconfirm
    | pending => exact List.pairwise_singleton _ _
  · cases hes with
    | nothing hes => simp [hes e' he'] at hconfirm'
    | pending hpending =>
      obtain rfl := List.mem_singleton.mp he'
      exact h.pending i _ hpending e he hconfirm

theorem LockNode.Sane.of_workers_eq (h : n.Sane) (hconsistent : n'.Consistent)
    (hworkers : n'.workers = n.workers) (hperdb : n'.perdb = n.perdb) : n'.Sane :=
  ⟨hconsistent, hworkers ▸ h.noClearing, fun nodes counted hp j hj =>
    hworkers ▸ h.forgets nodes counted (hperdb ▸ hp) j hj⟩

theorem Cluster.entry_of_neutral (s : Cluster ν) (i w : ν) {m : LockMessage ν}
    (hm : m.neutral = true) : (s.entry i w m).message = m ∧ (s.entry i w m).isConfirm = false := by
  cases m <;> simp [LockMessage.neutral] at hm <;> exact ⟨rfl, rfl⟩

theorem LockMessage.sentBy_of_neutral {m : LockMessage ν} (hm : m.neutral = true) (i : ν) :
    m.SentBy i := by
  cases m <;> simp [neutral] at hm <;> trivial

variable {w : ν} {ms : List (LockMessage ν)}

theorem LockNode.WorkerEffect.confirms (heffect : (s.node i).WorkerEffect w n' ms)
    (hgrant : (n'.workers w).granting = true → (s.node i).workers w ≠ .idle) :
    s.Confirms i n' (ms.map (s.entry i w)) ∧ ∀ e ∈ ms.map (s.entry i w), e.message.SentBy i := by
  cases heffect with
  | quiet hms _ hpending =>
    refine ⟨.nothing (fun e he => ?_) hpending, fun e he => ?_⟩
    all_goals
      obtain ⟨m, hm, rfl⟩ := List.mem_map.mp he
      have hentry := s.entry_of_neutral i w (hms m hm)
    · exact hentry.2
    · rw [hentry.1]
      exact LockMessage.sentBy_of_neutral (hms m hm) i
  | grant _ _ hgrant' hidle => exact absurd hidle (hgrant hgrant')
  | confirm hpending hdone =>
    refine ⟨.pending hpending hdone, fun e he => ?_⟩
    obtain rfl := List.mem_singleton.mp he
    trivial

theorem LockNode.WorkerEffect.isAcquire_isRelease (heffect : n.WorkerEffect w n' ms) :
    ∀ e ∈ ms.map (s.entry i w), e.isAcquire = false ∧ e.isRelease = false := by
  intro e he
  obtain ⟨m, hm, rfl⟩ := List.mem_map.mp he
  cases heffect with
  | quiet hms =>
    have hneutral := hms m hm
    cases m <;> simp [LockMessage.neutral] at hneutral <;> exact ⟨rfl, rfl⟩
  | grant => simp at hm
  | confirm =>
    obtain rfl := List.mem_singleton.mp hm
    exact ⟨rfl, rfl⟩

theorem LockNode.WorkerEffect.isAcquire_eq_false (heffect : n.WorkerEffect w n' ms) :
    ∀ e ∈ ms.map (s.entry i w), e.isAcquire = false :=
  fun e he => (heffect.isAcquire_isRelease e he).1

variable {p : ℕ}

theorem Cluster.Grants.ownedBy (h : s.Grants) {pc : BackendPc}
    (hpc : ((s.node i).backends p).pc = pc) (hidle : pc ≠ .idle) : (s.node i).OwnedBy p :=
  (h.sane i).consistent.ownedBy fun hp => hidle (by rw [← hpc, hp]; rfl)

variable [DecidableEq ν]

theorem LockNode.Sane.setWorker (h : n.Sane) {pc : WorkerPc} (hpc : pc.granting = false)
    (hclear : ∀ left found, pc ≠ .clearing left found)
    (hstopped : n.workers w = .stopped → pc = .stopped) : (n.setWorker w pc).Sane := by
  refine ⟨h.consistent.setWorker hpc, fun v left found => ?_, fun nodes counted hp j hj => ?_⟩
  · by_cases hv : v = w
    · simpa [hv] using hclear left found
    · rw [n.setWorker_of_ne hv]
      exact h.noClearing v left found
  · have hstop := h.forgets nodes counted hp j hj
    by_cases hjw : j = w
    · subst hjw
      simpa using hstopped hstop
    · rwa [n.setWorker_of_ne hjw]

theorem LockNode.Sane.workerStep (h : n.Sane) (hstep : n.WorkerStep w n' ms)
    (hw : n.workers w ≠ .stopped) : n'.Sane := by
  refine ⟨hstep.consistent, fun v left found => ?_, fun nodes counted hp j hj => ?_⟩
  · by_cases hv : v = w
    · exact hv ▸ hstep.frame.noClearing left found
    · rw [hstep.frame.workers v hv]
      exact h.noClearing v left found
  · have hstop := h.forgets nodes counted (hstep.frame.perdb ▸ hp) j hj
    rwa [hstep.frame.workers j fun hjw => hw (hjw ▸ hstop)]

/-- The state of node `i` and its log may have changed, and nothing else. -/
structure Cluster.Frame (s : Cluster ν) (i : ν) (es : List (Entry ν)) (t : Cluster ν) : Prop where
  net : t.net = s.net.append i es
  node : ∀ j, j ≠ i → t.node j = s.node j

variable {t : Cluster ν}

theorem Cluster.Frame.mem_log {j : ν} (h : s.Frame i es t) (he : e ∈ t.net.log j) :
    e ∈ s.net.log j ∨ j = i ∧ e ∈ es := by
  rwa [h.net, Net.mem_log_append] at he

theorem Cluster.Frame.lastNumber_le (h : s.Frame i es t) (p : Entry ν → Bool) (k : ν) :
    lastNumber p (s.net.log k) ≤ lastNumber p (t.net.log k) := by
  rw [h.net]
  by_cases hk : k = i
  · subst hk
    rw [s.net.append_log_self]
    exact lastNumber_le_append p _ _
  · rw [s.net.append_log_of_ne hk]

section

variable (h : s.Grants)
include h

theorem Cluster.Grants.send (hframe : s.Frame i es t)
    (hgranted : t.granted = s.granted) (hsane : (t.node i).Sane)
    (hidle : ∀ w, (t.node i).workers w = .idle → (s.node i).workers w = .idle)
    (hsent : ∀ e ∈ es, e.message.SentBy i) (hes : s.Confirms i (t.node i) es) : t.Grants where
  bounded := hframe.net ▸ h.bounded.append i es
  sane j := by
    by_cases hj : j = i
    · exact hj ▸ hsane
    · exact hframe.node j hj ▸ h.sane j
  sent j e he := by
    rcases hframe.mem_log he with he | ⟨rfl, he⟩
    · exact h.sent j e he
    · exact hsent e he
  granted_le j k := hgranted ▸ (h.granted_le j k).trans (hframe.lastNumber_le _ k)
  granted_le_pos j k := by
    rw [hgranted, hframe.net, Net.append_pos]
    refine ⟨(h.granted_le_pos j k).1, fun hw => (h.granted_le_pos j k).2 ?_⟩
    by_cases hj : j = i
    · subst hj
      exact hidle k hw
    · exact hframe.node j hj ▸ hw
  answers j e he k lockType hm := by
    rw [hgranted]
    rcases hframe.mem_log he with he | ⟨rfl, he⟩
    · exact h.answers j e he k lockType hm
    · exact ⟨_, le_rfl, hes.answers he hm⟩
  once j := by
    rw [hframe.net]
    by_cases hj : j = i
    · subst hj
      rw [s.net.append_log_self]
      exact h.once_append hes
    · rw [s.net.append_log_of_ne hj]
      exact h.once j
  pending j k hk := by
    rw [hframe.net, hgranted]
    by_cases hj : j = i
    · subst hj
      rw [s.net.append_log_self]
      exact h.not_confirmed hes hk
    · rw [s.net.append_log_of_ne hj]
      exact h.pending j k (hframe.node j hj ▸ hk)

theorem Cluster.Grants.granted_le_update (hw : (s.node i).workers w = .idle) (j k : ν) :
    s.granted j k ≤ Function.update s.granted i
      (Function.update (s.granted i) w (s.net.pos i w + 1)) j k := by
  by_cases hjk : j = i ∧ k = w
  · obtain ⟨rfl, rfl⟩ := hjk
    have := (h.granted_le_pos j k).2 hw
    simp only [Function.update_self]
    omega
  · by_cases hj : j = i
    · subst hj
      simp [show k ≠ w from fun hk => hjk ⟨rfl, hk⟩]
    · simp [hj]

theorem Cluster.Grants.grant (hframe : s.Frame i [] t)
    (hgranted : t.granted = Function.update s.granted i
      (Function.update (s.granted i) w (s.net.pos i w + 1))) (hsane : (t.node i).Sane)
    (hidle : ∀ v, (t.node i).workers v = .idle → (s.node i).workers v = .idle)
    (hnext : s.net.next i w = some e) (hacquire : e.isAcquire = true)
    (hw : (s.node i).workers w = .idle) (hbusy : (t.node i).workers w ≠ .idle)
    (hheld : (t.node i).HeldFor w) : t.Grants := by
  have hmono := h.granted_le_update hw
  have hold (j k : ν) (hjk : ¬(j = i ∧ k = w)) : t.granted j k = s.granted j k := by
    rw [hgranted]
    by_cases hj : j = i
    · subst hj
      simp [show k ≠ w from fun hk => hjk ⟨rfl, hk⟩]
    · simp [hj]
  have hnew : t.granted i w = s.net.pos i w + 1 := by simp [hgranted]
  have hnet : t.net = s.net := by rw [hframe.net, Net.append_nil]
  refine ⟨hnet ▸ h.bounded, fun j => ?_, hnet ▸ h.sent, fun j k => ?_, fun j k => ?_,
    fun j e' he' k lockType hm => ?_, hnet ▸ h.once, fun j k hk e' he' hconfirm => ?_⟩
  · by_cases hj : j = i
    · exact hj ▸ hsane
    · exact hframe.node j hj ▸ h.sane j
  · by_cases hjk : j = i ∧ k = w
    · obtain ⟨rfl, rfl⟩ := hjk
      rw [hnew, hnet]
      exact le_lastNumber hnext hacquire
    · rw [hold j k hjk, hnet]
      exact h.granted_le j k
  · rw [hnet]
    by_cases hjk : j = i ∧ k = w
    · obtain ⟨rfl, rfl⟩ := hjk
      exact ⟨hnew.le, fun hidle => absurd hidle hbusy⟩
    · rw [hold j k hjk]
      refine ⟨(h.granted_le_pos j k).1, fun hk => (h.granted_le_pos j k).2 ?_⟩
      by_cases hj : j = i
      · subst hj
        exact hidle k hk
      · exact hframe.node j hj ▸ hk
  · obtain ⟨p, hp, hanswers⟩ := h.answers j e' (hnet ▸ he') k lockType hm
    exact ⟨p, hp.trans (hgranted ▸ hmono j k), hanswers⟩
  · by_cases hj : j = i
    · subst hj
      obtain rfl := hheld.eq_of_pending hk
      rw [hnew]
      intro heq
      -- no confirmation can answer a request that was read only now
      cases hm : e'.message <;> simp [Entry.isConfirm, hm] at hconfirm
      obtain ⟨p, hp, hanswers⟩ := h.answers j e' (hnet ▸ he') _ _ hm
      obtain ⟨rfl, rfl⟩ := Prod.mk.inj (Option.some.inj (hanswers.symm.trans heq))
      have := (h.granted_le_pos j _).2 hw
      omega
    · rw [hold j k fun hjk => hj hjk.1]
      exact h.pending j k (hframe.node j hj ▸ hk) e' (hnet ▸ he') hconfirm

theorem Cluster.Grants.advance (ht : s.advance i w = some t) : t.Grants := by
  obtain ⟨-, hdone, ⟨e, hnext⟩, rfl⟩ := advance_cases ht
  have hsane : ((s.node i).setWorker w .idle).Sane :=
    (h.sane i).setWorker rfl (by simp) (by simp [hdone])
  refine ⟨h.bounded.advance hnext, fun j => ?_, h.sent, h.granted_le, fun j k => ?_, h.answers,
    h.once, fun j k hk => h.pending j k ?_⟩
  · by_cases hj : j = i
    · simpa [hj] using hsane
    · simpa [s.put_node_of_ne hj] using h.sane j
  · by_cases hjk : j = i ∧ k = w
    · obtain ⟨rfl, rfl⟩ := hjk
      have := (h.granted_le_pos j k).1
      simp only [put_granted, Net.advance_pos_self]
      exact ⟨by omega, fun _ => this⟩
    · rw [put_granted, s.net.advance_pos_of_ne (by tauto)]
      refine ⟨(h.granted_le_pos j k).1, fun hk => (h.granted_le_pos j k).2 ?_⟩
      by_cases hj : j = i
      · subst hj
        have hkw : k ≠ w := fun hk => hjk ⟨rfl, hk⟩
        rwa [s.put_node_self, LockNode.setWorker_of_ne _ hkw] at hk
      · rwa [s.put_node_of_ne hj] at hk
  · by_cases hj : j = i
    · subst hj
      rw [s.put_node_self] at hk
      exact LockNode.pending_of_setWorker (by simp [WorkerPc.granting]) hk
    · rwa [s.put_node_of_ne hj] at hk

theorem Cluster.Grants.deliver (ht : s.deliver i w = some t) : t.Grants := by
  obtain ⟨-, hidle, e, n, ms, hnext, hn, rfl⟩ := deliver_cases ht
  have hmem : e ∈ s.net.log w := List.mem_of_getElem? hnext
  have hstep := (h.sane i).consistent.processMessage hidle (h.sent w e hmem) hn
  have hsane := (h.sane i).workerStep hstep (by simp [hidle])
  have hlsn := hsane.setInsertLsn (n.insertLsn + (ms.map (s.entry i w)).length)
  by_cases hgrant : (n.workers w).granting = true
  · cases hstep.effect with
    | quiet _ hold => exact absurd (hold hgrant) (by simp [hidle, WorkerPc.granting])
    | confirm _ hdone => exact absurd (.inl hgrant) (hdone w)
    | grant _ hheld =>
      obtain ⟨lockType, hm⟩ := (LockNode.place_of_processMessage hn).acquireLock hgrant
      refine h.grant (e := e) ⟨rfl, fun j hj => s.send_node_of_ne hj n _⟩ (if_pos hgrant) ?_ ?_
        hnext ?_ hidle ?_ ?_
      · simpa using hlsn
      · simpa using hstep.frame.idle
      · simp [Entry.isAcquire, hm]
      · simpa using hstep.frame.busy
      · simpa using ({ hheld with } : LockNode.HeldFor { n with insertLsn := n.insertLsn } w)
  · obtain ⟨hes, hsent⟩ := hstep.effect.confirms fun h => absurd h hgrant
    refine h.send ⟨rfl, fun j hj => s.send_node_of_ne hj n _⟩ (if_neg hgrant) ?_ ?_ hsent ?_
    · simpa using hlsn
    · simpa using hstep.frame.idle
    · exact hes.mono fun k hk => by simpa [LockNode.Pending] using hk

theorem Cluster.Grants.work {cancelled : Bool} (ht : s.work i w cancelled = some t) : t.Grants := by
  obtain ⟨-, e, n, ms, hnext, hn, rfl⟩ := work_cases ht
  obtain ⟨hidle, -, hstopped⟩ := LockNode.place_of_work hn
  have hstep := (h.sane i).consistent.work ((h.sane i).noClearing w) hn
  have hsane := (h.sane i).workerStep hstep hstopped
  obtain ⟨hes, hsent⟩ := hstep.effect.confirms fun _ => hidle
  have hgrants : (s.send i n (ms.map (s.entry i w))).Grants := by
    refine h.send ⟨rfl, fun j hj => s.send_node_of_ne hj n _⟩ rfl ?_ ?_ hsent ?_
    · simpa using hsane.setInsertLsn (n.insertLsn + ms.length)
    · simpa using hstep.frame.idle
    · exact hes.mono fun k hk => by simpa [LockNode.Pending] using hk
  -- the history of the counters is not part of the statement
  split <;> exact { hgrants with }

theorem Cluster.Grants.put (hsane : n.Sane) (hpending : ∀ k, n.Pending k → (s.node i).Pending k)
    (hidle : ∀ w, n.workers w = .idle → (s.node i).workers w = .idle) : (s.put i n).Grants := by
  have hframe : s.Frame i [] (s.put i n) := ⟨by simp, fun j hj => s.put_node_of_ne hj n⟩
  refine h.send hframe rfl ?_ ?_ (by simp) ?_
  · simpa using hsane
  · simpa using hidle
  · exact .nothing (by simp) (by simpa using hpending)

theorem Cluster.Grants.put_backend (hconsistent : n.Consistent)
    (hworkers : n.workers = (s.node i).workers) (hperdb : n.perdb = (s.node i).perdb)
    (hpending : ∀ k, n.Pending k → (s.node i).Pending k) : (s.put i n).Grants :=
  h.put ((h.sane i).of_workers_eq hconsistent hworkers hperdb) hpending (by simp [hworkers])

theorem Cluster.Grants.acquire {lockType : LockType}
    (ht : s.acquire i p lockType = some t) : t.Grants := by
  have hconsistent := (h.sane i).consistent
  obtain ⟨htype, -, ⟨hacq, -, rfl⟩ | ⟨hacq, rfl⟩ | ⟨hacq, rfl⟩⟩ := acquire_cases ht
  · refine h.put_backend (.own p ?_) rfl rfl fun k hk => hk
    exact (hconsistent.ownedBy_of_acquired hacq).setBackend (by simp)
  · rw [hconsistent.setBackend_idle hacq]
    exact h.put (h.sane i) (fun _ hk => hk) fun _ hw => hw
  · have howned := hconsistent.sendAcquire hacq lockType
    refine h.send ⟨rfl, fun j hj => s.send_node_of_ne hj _ _⟩ rfl ?_ ?_ ?_ ?_
    · simpa using ((h.sane i).of_workers_eq (.own p howned) rfl rfl).setInsertLsn _
    · simp [LockNode.sendAcquire]
    · simpa [unasked, LockMessage.SentBy] using htype
    · refine .nothing (by simp [unasked, Entry.isConfirm]) fun k hk => ?_
      exact absurd (by simpa [LockNode.Pending] using hk) (howned.not_pending k)

theorem Cluster.Grants.put_owner (howned : n.OwnedBy p)
    (hworkers : n.workers = (s.node i).workers) (hperdb : n.perdb = (s.node i).perdb) :
    (s.put i n).Grants :=
  h.put_backend (.own p howned) hworkers hperdb fun k hk => absurd hk (howned.not_pending k)

theorem Cluster.Grants.check (ht : s.check i p = some t) : t.Grants := by
  obtain ⟨lockType, hpc, rfl⟩ := check_cases ht
  have howned := (h.ownedBy hpc (by simp)).checkTally hpc
  refine h.put_owner howned ?_ ?_
  all_goals
    simp only [LockNode.checkTally]
    split_ifs <;> rfl

theorem Cluster.Grants.interrupt (ht : s.interrupt i p = some t) : t.Grants := by
  obtain ⟨_, hpc, rfl⟩ := interrupt_cases ht
  exact h.put_owner ((h.ownedBy hpc (by simp)).setBackend (by simp)) rfl rfl

theorem Cluster.Grants.finish (ht : s.finish i p = some t) : t.Grants := by
  obtain ⟨lockType, hpc, rfl⟩ := finish_cases ht
  have hgrants := h.put_owner ((h.ownedBy hpc (by simp)).finishAcquire lockType) rfl rfl
  exact { hgrants with }

theorem Cluster.Grants.sendRelease (ht : s.sendRelease i p = some t) : t.Grants := by
  obtain ⟨hacq, rfl⟩ := sendRelease_cases ht
  have howned : ((s.node i).sendRelease i p).1.OwnedBy p :=
    ((h.sane i).consistent.ownedBy_of_acquired hacq).setBackend (by simp)
  refine h.send ⟨rfl, fun j hj => s.send_node_of_ne hj _ _⟩ rfl ?_ ?_ ?_ ?_
  · simpa using ((h.sane i).of_workers_eq (.own p howned) rfl rfl).setInsertLsn _
  · simp [LockNode.sendRelease]
  · simp [unasked, LockMessage.SentBy]
  · refine .nothing (by simp [unasked, Entry.isConfirm]) fun k hk => ?_
    exact absurd (by simpa [LockNode.Pending] using hk) (howned.not_pending k)

theorem Cluster.Grants.releaseOwned (ht : s.releaseOwned i p = some t) : t.Grants := by
  obtain ⟨hpc, rfl⟩ := releaseOwned_cases ht
  have hfree := (h.ownedBy hpc (by simp)).releaseOwned
  exact h.put_backend (.free hfree) rfl rfl fun k hk => absurd hk (hfree.not_pending k)

theorem Cluster.Grants.stopWorker (i j : ν) :
    (s.put i ((s.node i).setWorker j .stopped)).Grants := by
  refine h.put ((h.sane i).setWorker rfl (by simp) fun _ => rfl)
    (fun _ hk => LockNode.pending_of_setWorker (by simp [WorkerPc.granting]) hk) fun w hw => ?_
  by_cases hwj : w = j
  · simp [hwj] at hw
  · rwa [LockNode.setWorker_of_ne _ hwj] at hw

theorem Cluster.Grants.maintain [Fintype ν] (i : ν) :
    (s.put i ((s.node i).maintainDbWorkers i)).Grants := by
  refine h.put ⟨?_, (h.sane i).noClearing, fun nodes counted hp j hj => ?_⟩ (fun _ hk => hk)
    fun _ hw => hw
  · exact (h.sane i).consistent.setPerdb _ _ _ _
  · obtain ⟨rfl, -⟩ := PerdbPc.maintaining.inj hp
    simpa [LockNode.maintainDbWorkers] using (List.mem_filter.mp hj).2

theorem Cluster.Grants.forget (ht : s.forget i = some t) : t.Grants := by
  obtain ⟨j, rest, counted, hp, rfl⟩ := forget_cases ht
  have hsane := h.sane i
  have hstopped := hsane.forgets _ _ hp
  have hrest (n : LockNode ν) (hconsistent : n.Consistent)
      (hworkers : n.workers = (s.node i).workers) :
      { n with perdb := .maintaining rest counted }.Sane := by
    refine ⟨hconsistent.setPerdb n.db.nnodes _ _ _, hworkers ▸ hsane.noClearing,
      fun nodes counted' hp' k hk => ?_⟩
    obtain ⟨rfl, -⟩ := PerdbPc.maintaining.inj hp'
    exact hworkers ▸ hstopped k (List.mem_cons_of_mem _ hk)
  rcases hsane.consistent.nodeDetached_cases i j with hn | ⟨hheld, hn⟩
  · rw [hn]
    exact h.put (hrest _ hsane.consistent rfl) (fun _ hk => hk) fun _ hw => hw
  · have hfree := hheld.releaseLocalDdlLock
      (by simp [hstopped j List.mem_cons_self, WorkerPc.granting])
    have hworkers : ((s.node i).releaseLocalDdlLock j).workers = (s.node i).workers := by
      rw [hheld.releaseLocalDdlLock_eq]
    rw [hn]
    refine h.put (hrest _ (.free hfree) hworkers) (fun k hk => ?_) (by simp [hworkers])
    exact absurd hk (hfree.not_pending k)

theorem Cluster.Grants.setNnodes (ht : s.setNnodes i = some t) : t.Grants := by
  obtain ⟨counted, -, rfl⟩ := setNnodes_cases ht
  have hsane := h.sane i
  have hgrants : (s.put i ((s.node i).setNnodes counted)).Grants :=
    h.put ⟨hsane.consistent.setPerdb _ _ _ _, hsane.noClearing, by simp [LockNode.setNnodes]⟩
      (fun _ hk => hk) fun _ hw => hw
  exact { hgrants with }

theorem Cluster.Grants.step [Fintype ν] {a : Action ν} (ha : a.crashes = false)
    (ht : s.step a = some t) : t.Grants := by
  cases a with
  | acquire i p lockType => exact h.acquire ht
  | check i p => exact h.check ht
  | interrupt i p => exact h.interrupt ht
  | finish i p => exact h.finish ht
  | sendRelease i p => exact h.sendRelease ht
  | releaseOwned i p => exact h.releaseOwned ht
  | deliver i w => exact h.deliver ht
  | work i w cancelled => exact h.work ht
  | advance i w => exact h.advance ht
  | rewind i w k => cases ha
  | restart i => cases ha
  | kill i j =>
    obtain rfl := kill_cases ht
    exact h.put_backend ((h.sane i).consistent.setPerdb _ _ _ _) rfl rfl fun _ hk => hk
  | stopWorker i j => exact stopWorker_cases ht ▸ h.stopWorker i j
  | maintain i => exact maintain_cases ht ▸ h.maintain i
  | forget i => exact h.forget ht
  | setNnodes i => exact h.setNnodes ht
  | writeWal i k =>
    cases ht
    exact h.put_backend ((h.sane i).consistent.setPerdb _ _ _ _) rfl rfl fun _ hk => hk

end

end Pgactive.Locks
