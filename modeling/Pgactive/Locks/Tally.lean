import Pgactive.Locks.Grants

/-!
# The tally of confirmations

If each confirmation that a node counts answers its latest request, the counter is the number of
distinct peers that have confirmed this request. A peer that has been counted must not leave the set
of peers during the tally.
-/

namespace Pgactive.Locks

open BroadcastLog

variable {ν : Type}

def Cluster.attempt (s : Cluster ν) (i : ν) : ℕ := lastNumber Entry.isAcquire (s.net.log i)

def Cluster.Confirmed (s : Cluster ν) (i j : ν) (lockType : LockType) : Prop :=
  ∃ e ∈ s.net.log j, e.message = .confirmLock i lockType ∧ e.answers = some (i, s.attempt i)

/-- Node `i` counts a confirmation only if it answers the node's latest request. -/
def Cluster.CountsCurrent (s : Cluster ν) : Action ν → Prop
  | .work i w _ => (s.node i).workers w = .countingConfirm →
    ∀ e, s.net.next i w = some e → e.answers = some (i, s.attempt i)
  | _ => True

/-- While a backend of the node holds or acquires the lock, a peer whose confirmation is
counted stays in the number of nodes. -/
def Cluster.KeepsCounted (s : Cluster ν) : Action ν → Prop
  | .setNnodes i => (s.node i).db.lockHolderLocalPid ≠ none →
    ∀ nodes counted, (s.node i).perdb = .maintaining nodes counted →
      ∀ j ∈ s.confirmedBy i, j ∈ counted
  | _ => True

variable {s : Cluster ν}

theorem Cluster.keepsCounted_of_isLockStep {a : Action ν} (h : a.isLockStep = true) :
    s.KeepsCounted a := by
  cases a <;> trivial

/-- What node `i` sees of the logs has not changed, and its latest request is the same. -/
structure Cluster.SameView (s : Cluster ν) (i : ν) (t : Cluster ν) : Prop where
  log : ∀ j, s.net.log j <+: t.net.log j
  pos : ∀ j, t.net.pos i j = s.net.pos i j
  attempt : t.attempt i = s.attempt i

variable {t : Cluster ν} {i j : ν} {e : Entry ν}

theorem Cluster.SameView.next (h : s.SameView i t) (he : s.net.next i j = some e) :
    t.net.next i j = some e := by
  rw [Net.next, h.pos]
  exact getElem?_of_isPrefix (h.log j) he

variable {lockType : LockType}

theorem Cluster.SameView.confirmed (h : s.SameView i t) (hj : s.Confirmed i j lockType) :
    t.Confirmed i j lockType := by
  obtain ⟨e, he, hm, hanswers⟩ := hj
  exact ⟨e, (h.log j).subset he, hm, h.attempt ▸ hanswers⟩

/-- The members that node `i` knows of: a node leaves them only when it is detached and
its worker is gone. -/
structure Cluster.MembersAt (s : Cluster ν) (i : ν) : Prop where
  nnodes : (s.node i).db.nnodes = (s.peers i).card
  live : ∀ j, j ≠ i → (j ∈ (s.node i).killed → (s.node i).workers j ≠ .stopped) → j ∈ s.peers i
  /-- What the per-database worker counts lies between the live nodes and the old peers. -/
  pass : ∀ nodes counted, (s.node i).perdb = .maintaining nodes counted →
    counted ⊆ s.peers i ∧
      ∀ j, j ≠ i → (j ∈ (s.node i).killed → (s.node i).workers j ≠ .stopped) → j ∈ counted

variable {k : ν}

theorem Cluster.MembersAt.frame (h : s.MembersAt k)
    (hnnodes : (t.node k).db.nnodes = (s.node k).db.nnodes) (hpeers : t.peers k = s.peers k)
    (hkilled : (t.node k).killed = (s.node k).killed)
    (hperdb : (t.node k).perdb = (s.node k).perdb)
    (hworkers : ∀ j, (s.node k).workers j = .stopped → (t.node k).workers j = .stopped) :
    t.MembersAt k := by
  have hlive {j : ν} (hj : j ∈ (t.node k).killed → (t.node k).workers j ≠ .stopped) :
      j ∈ (s.node k).killed → (s.node k).workers j ≠ .stopped :=
    fun hk hstop => hj (hkilled ▸ hk) (hworkers j hstop)
  refine ⟨by rw [hnnodes, hpeers, h.nnodes], fun j hjk hj => ?_, fun nodes counted hp => ?_⟩
  · exact hpeers ▸ h.live j hjk (hlive hj)
  · obtain ⟨hsub, hcounted⟩ := h.pass nodes counted (hperdb ▸ hp)
    exact ⟨hpeers ▸ hsub, fun j hjk hj => hcounted j hjk (hlive hj)⟩

variable {w : ν} {n : LockNode ν}

theorem Cluster.MembersAt.workerStep {ms : List (LockMessage ν)} (h : s.MembersAt i)
    (hstep : (s.node i).WorkerStep w n ms) (lsn : ℕ)
    (hnode : t.node i = { n with insertLsn := lsn }) (hpeers : t.peers i = s.peers i)
    (hw : (s.node i).workers w ≠ .stopped) : t.MembersAt i := by
  refine h.frame ?_ hpeers ?_ ?_ fun j hj => ?_
  all_goals simp only [hnode]
  · exact hstep.frame.nnodes
  · exact hstep.frame.killed
  · exact hstep.frame.perdb
  · rwa [hstep.frame.workers j fun hjw => hw (hjw ▸ hj)]

variable {p : ℕ}

theorem Cluster.Grants.answers_le_attempt (h : s.Grants) (he : e ∈ s.net.log j)
    (hm : e.message = .confirmLock i lockType) (ha : e.answers = some (i, p)) :
    p ≤ s.attempt i := by
  obtain ⟨q, hq, ha'⟩ := h.answers j e he i lockType hm
  obtain ⟨-, rfl⟩ := Prod.mk.inj (Option.some.inj (ha.symm.trans ha'))
  exact hq.trans (h.granted_le j i)

variable [DecidableEq ν]

instance (s : Cluster ν) (a : Action ν) : Decidable (s.CountsCurrent a) := by
  rcases a <;> unfold Cluster.CountsCurrent <;> infer_instance

def Cluster.Handled (s : Cluster ν) (i j : ν) (e : Entry ν) : Prop :=
  e ∈ s.net.seenBy i j ∨
    ((s.node i).workers j = .done ∨ (s.node i).workers j = .stopped) ∧ s.net.next i j = some e

/-- The tally of node `i`. -/
structure Cluster.TallyAt (s : Cluster ν) (i : ν) : Prop where
  inHand : ∀ w, (s.node i).workers w = .countingConfirm → ∃ e lockType,
    s.net.next i w = some e ∧ e.message = .confirmLock i lockType ∧
      ((s.node i).db.lockHolderLocalPid ≠ none → e.answers = some (i, s.attempt i) →
        (s.node i).db.lockType = lockType)
  /-- The counter counts different peers. -/
  nodup : (s.node i).db.lockHolderLocalPid ≠ none → (s.confirmedBy i).Nodup
  length : (s.node i).db.lockHolderLocalPid ≠ none →
    (s.node i).db.acquireConfirmed = (s.confirmedBy i).length
  counted : (s.node i).db.lockHolderLocalPid ≠ none → ∀ j ∈ s.confirmedBy i, j ∈ s.peers i ∧
    ∃ e, s.Handled i j e ∧ e.message = .confirmLock i (s.node i).db.lockType ∧
      e.answers = some (i, s.attempt i)
  /-- Past the tally all peers have confirmed the latest request. -/
  quorum : ((s.node i).db.lockState = .acquireAcquired ∨
      ∃ p lockType, ((s.node i).backends p).pc = .quorum lockType) →
    ∀ j ∈ s.peers i, s.Confirmed i j (s.node i).db.lockType

/-- Every node has a sound tally. -/
structure Cluster.Tally (s : Cluster ν) : Prop extends s.Grants where
  members : ∀ i, s.MembersAt i
  tally : ∀ i, s.TallyAt i

theorem Cluster.start_tally [Fintype ν] : (start ν).Tally where
  toGrants := start_grants
  members i := ⟨rfl, fun j hj _ => by simpa [start] using hj, by simp [start, LockNode.unlocked]⟩
  tally i := by
    constructor <;> simp [start, LockNode.unlocked, LocksDb.unlocked, Backend.fresh]

theorem Cluster.SameView.mem_seenBy (h : s.SameView i t) (he : e ∈ s.net.seenBy i j) :
    e ∈ t.net.seenBy i j := by
  unfold Net.seenBy at he ⊢
  split_ifs at he ⊢
  · exact (h.log j).subset he
  · rw [h.pos]
    exact ((h.log j).take _).subset he

theorem Cluster.TallyAt.frame (h : s.TallyAt i) (hview : s.SameView i t)
    (hpid : (t.node i).db.lockHolderLocalPid ≠ none → (s.node i).db.lockHolderLocalPid ≠ none ∧
      (t.node i).db.lockType = (s.node i).db.lockType ∧
      (t.node i).db.acquireConfirmed = (s.node i).db.acquireConfirmed)
    (hcounting : ∀ w, (t.node i).workers w = .countingConfirm →
      (s.node i).workers w = .countingConfirm ∨
        ∃ e, t.net.next i w = some e ∧ e.message = .confirmLock i (t.node i).db.lockType)
    (hdone : ∀ w, (s.node i).workers w = .done ∨ (s.node i).workers w = .stopped →
      (t.node i).workers w = .done ∨ (t.node i).workers w = .stopped)
    (hquorum : ((t.node i).db.lockState = .acquireAcquired ∨
        ∃ p lockType, ((t.node i).backends p).pc = .quorum lockType) →
      ∀ j ∈ s.peers i, s.Confirmed i j (t.node i).db.lockType)
    (hconfirmedBy : t.confirmedBy i = s.confirmedBy i) (hpeers : t.peers i ⊆ s.peers i)
    (hkeep : (s.node i).db.lockHolderLocalPid ≠ none →
      ∀ j ∈ s.confirmedBy i, j ∈ s.peers i → j ∈ t.peers i) : t.TallyAt i where
  inHand w hw := by
    rcases hcounting w hw with hw | ⟨e, hnext, hm⟩
    · obtain ⟨e, lockType, hnext, hm, htype⟩ := h.inHand w hw
      refine ⟨e, lockType, hview.next hnext, hm, fun hp ha => ?_⟩
      obtain ⟨hp', ht, -⟩ := hpid hp
      rw [ht]
      exact htype hp' (hview.attempt ▸ ha)
    · exact ⟨e, _, hnext, hm, fun _ _ => rfl⟩
  nodup hp := hconfirmedBy ▸ h.nodup (hpid hp).1
  length hp := by rw [hconfirmedBy, (hpid hp).2.2, h.length (hpid hp).1]
  counted hp j hj := by
    obtain ⟨hp', ht, -⟩ := hpid hp
    rw [hconfirmedBy] at hj
    obtain ⟨hpeer, e, he, hm, ha⟩ := h.counted hp' j hj
    refine ⟨hkeep hp' j hj hpeer, e, ?_, ht ▸ hm, hview.attempt ▸ ha⟩
    rcases he with he | ⟨hw, hnext⟩
    · exact .inl (hview.mem_seenBy he)
    · exact .inr ⟨hdone j hw, hview.next hnext⟩
  quorum hq j hj := hview.confirmed (hquorum hq j (hpeers hj))

theorem Cluster.TallyAt.bystander (h : s.TallyAt k) (hview : s.SameView k t)
    (hnode : t.node k = s.node k) (hconfirmedBy : t.confirmedBy k = s.confirmedBy k)
    (hpeers : t.peers k = s.peers k) : t.TallyAt k := by
  refine h.frame hview ?_ ?_ ?_ ?_ hconfirmedBy (hpeers ▸ subset_rfl) fun _ _ _ hj => hpeers ▸ hj
  all_goals rw [hnode]
  · exact fun hp => ⟨hp, rfl, rfl⟩
  · exact fun _ hw => .inl hw
  · exact fun _ hw => hw
  · exact h.quorum

theorem Cluster.Frame.sameView {es : List (Entry ν)} (h : s.Frame i es t)
    (hes : k = i → ∀ e ∈ es, e.isAcquire = false) : s.SameView k t := by
  refine ⟨fun j => ?_, by simp [h.net], ?_⟩
  · rw [h.net]
    by_cases hj : j = i
    · subst hj
      rw [Net.append_log_self]
      exact List.prefix_append _ _
    · rw [s.net.append_log_of_ne hj]
  · unfold attempt
    rw [h.net]
    by_cases hk : k = i
    · subst hk
      rw [Net.append_log_self, lastNumber_append_of_forall (hes rfl)]
    · rw [s.net.append_log_of_ne hk]

theorem Cluster.Tally.workerStep (h : s.Tally) {ms : List (LockMessage ν)}
    (hview : s.SameView i t) (hstep : (s.node i).WorkerStep w n ms) (lsn : ℕ)
    (hnode : t.node i = { n with insertLsn := lsn })
    (hw : (s.node i).workers w ≠ .countingConfirm ∧ (s.node i).workers w ≠ .done ∧
      (s.node i).workers w ≠ .stopped)
    (hcounting : n.workers w = .countingConfirm →
      ∃ e, s.net.next i w = some e ∧ e.message = .confirmLock i n.db.lockType)
    (hconfirmedBy : t.confirmedBy i = s.confirmedBy i) (hpeers : t.peers i = s.peers i) :
    t.TallyAt i := by
  have hframe := hstep.frame
  refine (h.tally i).frame hview ?_ ?_ ?_ ?_ hconfirmedBy (hpeers ▸ subset_rfl)
    fun _ _ _ hj => hpeers ▸ hj
  all_goals simp only [hnode]
  · intro hp
    rw [hframe.localPid] at hp
    exact ⟨hp, (hframe.own hp).1, hframe.confirmed hw.1⟩
  · intro v hv
    by_cases hvw : v = w
    · subst hvw
      obtain ⟨e, hnext, hm⟩ := hcounting hv
      exact .inr ⟨e, hview.next hnext, hm⟩
    · exact .inl (hframe.workers v hvw ▸ hv)
  · intro v hv
    by_cases hvw : v = w
    · subst hvw
      exact absurd hv (not_or.mpr hw.2)
    · rwa [hframe.workers v hvw]
  · intro hq
    have hpid := hstep.consistent.localPid_ne_none hq
    rw [hframe.localPid] at hpid
    obtain ⟨htype, hstate⟩ := hframe.own hpid
    rw [hstate, hframe.backends] at hq
    rw [htype]
    exact (h.tally i).quorum hq

theorem Cluster.ActsAt.sameView (h : s.ActsAt i t) (hk : k ≠ i) : s.SameView k t where
  log := h.log_isPrefix
  pos j := congrFun (h.pos k hk) j
  attempt := by rw [attempt, h.log k hk, attempt]

theorem Cluster.Tally.of_acting (h : s.Tally) (hacts : s.ActsAt i t) (hgrants : t.Grants)
    (hmembers : t.MembersAt i) (htally : t.TallyAt i) : t.Tally where
  toGrants := hgrants
  members k := by
    by_cases hk : k = i
    · exact hk ▸ hmembers
    · have hnode := hacts.node k hk
      exact (h.members k).frame (by rw [hnode]) (hacts.peers k hk) (by rw [hnode]) (by rw [hnode])
        (by simp [hnode])
  tally k := by
    by_cases hk : k = i
    · exact hk ▸ htally
    · exact (h.tally k).bystander (hacts.sameView hk) (hacts.node k hk) (hacts.confirmedBy k hk)
        (hacts.peers k hk)

theorem Cluster.Tally.deliver (h : s.Tally) (hacts : s.ActsAt i t) (ht : s.deliver i w = some t) :
    t.Tally := by
  have hgrants := h.toGrants.deliver ht
  obtain ⟨-, hidle, e, n, ms, hnext, hn, rfl⟩ := deliver_cases ht
  have hmem : e ∈ s.net.log w := List.mem_of_getElem? hnext
  have hstep := (h.sane i).consistent.processMessage hidle (h.sent w e hmem) hn
  have hview : s.SameView i (s.send i n (ms.map (s.entry i w))) :=
    Frame.sameView ⟨rfl, fun k hk => s.send_node_of_ne hk n _⟩
      fun _ => hstep.effect.isAcquire_eq_false
  refine h.of_acting hacts hgrants
    ((h.members i).workerStep hstep _ (s.send_node_self i n _) rfl ?_)
    (h.workerStep { hview with } hstep _ (s.send_node_self i n _) ?_ ?_ rfl rfl)
  · simp [hidle]
  · simp [hidle]
  · intro hcounting
    have hplace := LockNode.place_of_processMessage hn
    rw [hcounting] at hplace
    exact ⟨e, hnext, hplace.confirmLock⟩

theorem Cluster.Tally.not_mem_confirmedBy (h : s.Tally) (hiw : i ≠ w)
    (hpid : (s.node i).db.lockHolderLocalPid ≠ none)
    (hcounting : (s.node i).workers w = .countingConfirm) (hnext : s.net.next i w = some e)
    (hm : e.message = .confirmLock i lockType) (ha : e.answers = some (i, s.attempt i)) :
    w ∉ s.confirmedBy i := by
  intro hw
  obtain ⟨-, e', he' | ⟨hdone, -⟩, hm', ha'⟩ := (h.tally i).counted hpid w hw
  · have honce := Net.rel_next_of_pairwise (h.once w) hiw hnext he'
    refine honce ?_ ?_ (ha'.trans ha.symm) <;> simp [Entry.isConfirm, *]
  · simp [hcounting] at hdone

variable {lsn : ℕ}

theorem Cluster.Tally.count (h : s.Tally) (hiw : i ≠ w) (hview : s.SameView i t)
    (hnode : t.node i = { { s.node i with
      db := { (s.node i).db with
        acquireConfirmed := (s.node i).db.acquireConfirmed + 1 } }.setWorker w .done with
      insertLsn := lsn }) (hcounting : (s.node i).workers w = .countingConfirm)
    (hnext : s.net.next i w = some e) (ha : e.answers = some (i, s.attempt i))
    (hconfirmedBy : t.confirmedBy i = w :: s.confirmedBy i) (hpeers : t.peers i = s.peers i) :
    t.TallyAt i := by
  obtain ⟨e', lockType, hnext', hm, htype⟩ := (h.tally i).inHand w hcounting
  obtain rfl : e = e' := Option.some.inj (hnext.symm.trans hnext')
  have hdb : (t.node i).db = { (s.node i).db with
      acquireConfirmed := (s.node i).db.acquireConfirmed + 1 } := by simp [hnode]
  have hbackends : (t.node i).backends = (s.node i).backends := by simp [hnode]
  have hdone : (t.node i).workers w = .done := by simp [hnode]
  have hsame (v : ν) (hv : v ≠ w) : (t.node i).workers v = (s.node i).workers v := by
    simp [hnode, LockNode.setWorker, hv]
  refine ⟨fun v hv => ?_, fun hp => ?_, fun hp => ?_, fun hp j hj => ?_, fun hq j hj => ?_⟩
  all_goals simp only [hdb, hbackends, hconfirmedBy, hpeers] at *
  · have hvw : v ≠ w := by
      rintro rfl
      simp [hdone] at hv
    obtain ⟨e', lockType', hnext', hm', htype'⟩ := (h.tally i).inHand v (hsame v hvw ▸ hv)
    exact ⟨e', lockType', hview.next hnext', hm', fun hp ha' => htype' hp (hview.attempt ▸ ha')⟩
  · exact List.nodup_cons.mpr
      ⟨h.not_mem_confirmedBy hiw hp hcounting hnext hm ha, (h.tally i).nodup hp⟩
  · rw [(h.tally i).length hp]
    simp
  · rcases List.mem_cons.mp hj with rfl | hj
    · refine ⟨(h.members i).live j hiw.symm fun _ => by simp [hcounting], e,
        .inr ⟨.inl hdone, hview.next hnext⟩, ?_, hview.attempt ▸ ha⟩
      rw [hm, htype hp ha]
    · obtain ⟨hpeer, e', he', hm', ha'⟩ := (h.tally i).counted hp j hj
      refine ⟨hpeer, e', ?_, hm', hview.attempt ▸ ha'⟩
      rcases he' with he' | ⟨hw, hnext'⟩
      · exact .inl (hview.mem_seenBy he')
      · have hjw : j ≠ w := by
          rintro rfl
          simp [hcounting] at hw
        exact .inr ⟨by rwa [hsame j hjw], hview.next hnext'⟩
  · exact hview.confirmed ((h.tally i).quorum hq j hj)

theorem Cluster.Tally.work (h : s.Tally) {cancelled : Bool} (hacts : s.ActsAt i t)
    (hcurrent : s.CountsCurrent (.work i w cancelled)) (ht : s.work i w cancelled = some t) :
    t.Tally := by
  have hgrants := h.toGrants.work ht
  obtain ⟨hiw, e, n, ms, hnext, hn, heq⟩ := work_cases ht
  obtain ⟨-, hdone, hstopped⟩ := LockNode.place_of_work hn
  have hstep := (h.sane i).consistent.work ((h.sane i).noClearing w) hn
  have hview : s.SameView i (s.send i n (ms.map (s.entry i w))) :=
    Frame.sameView ⟨rfl, fun k hk => s.send_node_of_ne hk n _⟩
      fun _ => hstep.effect.isAcquire_eq_false
  by_cases hcounting : (s.node i).workers w = .countingConfirm
  · simp only [hcounting] at heq
    subst heq
    simp only [LockNode.work, hcounting, Option.some.injEq, Prod.mk.injEq] at hn
    obtain ⟨rfl, rfl⟩ := hn
    exact h.of_acting hacts hgrants
      ((h.members i).workerStep hstep _ (s.send_node_self i _ _) rfl hstopped)
      (h.count hiw { hview with } (s.send_node_self i _ _) hcounting hnext
        (hcurrent hcounting e hnext) (by simp) rfl)
  · have hquiet : (s.send i n (ms.map (s.entry i w))).MembersAt i ∧
        (s.send i n (ms.map (s.entry i w))).TallyAt i :=
      ⟨(h.members i).workerStep hstep _ (s.send_node_self i n _) rfl hstopped,
        h.workerStep hview hstep _ (s.send_node_self i n _) ⟨hcounting, hdone, hstopped⟩
          (fun hc => absurd hc (LockNode.place_after_work hn).1) rfl rfl⟩
    -- the other branches record declines and replay confirmations only
    split at heq
    · next hc => exact absurd hc hcounting
    all_goals
      subst heq
      exact h.of_acting hacts hgrants { hquiet.1 with } { hquiet.2 with }

theorem Cluster.Handled.advance {e' : Entry ν} (hiw : i ≠ w) (hnext : s.net.next i w = some e')
    (h : s.Handled i j e) :
    { s.put i ((s.node i).setWorker w .idle) with net := s.net.advance i w }.Handled i j e := by
  rcases h with he | ⟨hw, he⟩
  · exact .inl (Net.seenBy_subset_advance hiw hnext i j he)
  · by_cases hj : j = w
    · subst hj
      exact .inl (Net.mem_seenBy_advance hiw he)
    · refine .inr ⟨?_, ?_⟩
      · rwa [put_node_self, LockNode.setWorker_of_ne _ hj]
      · rw [Net.next, s.net.advance_pos_of_ne (.inr hj)]
        exact he

theorem Cluster.Tally.advance (h : s.Tally) (hacts : s.ActsAt i t) (ht : s.advance i w = some t) :
    t.Tally := by
  have hgrants := h.toGrants.advance ht
  obtain ⟨hiw, hdone, ⟨e, hnext⟩, rfl⟩ := advance_cases ht
  refine h.of_acting hacts hgrants ?_ ?_
  · refine (h.members i).frame ?_ rfl ?_ ?_ fun j hj => ?_
    all_goals rw [put_node_self]
    · rfl
    · rfl
    · rfl
    · rwa [LockNode.setWorker_of_ne]
      rintro rfl
      simp [hdone] at hj
  · have htally := h.tally i
    refine ⟨fun v hv => ?_, ?_, ?_, fun hp j hj => ?_, ?_⟩
    all_goals simp only [put_node_self, LockNode.setWorker_db] at *
    · have hvw : v ≠ w := by
        rintro rfl
        simp at hv
      rw [LockNode.setWorker_of_ne _ hvw] at hv
      rw [Net.next, s.net.advance_pos_of_ne (.inr hvw)]
      exact htally.inHand v hv
    · exact htally.nodup
    · exact htally.length
    · obtain ⟨hpeer, e', he', hm⟩ := htally.counted hp j hj
      exact ⟨hpeer, e', he'.advance hiw hnext, hm⟩
    · exact htally.quorum

theorem Cluster.sameView_put (s : Cluster ν) (i k : ν) (n : LockNode ν) :
    s.SameView k (s.put i n) := ⟨fun _ => List.prefix_rfl, fun _ => rfl, rfl⟩

theorem Cluster.TallyAt.setBackend {b : Backend} (h : s.TallyAt i) (hview : s.SameView i t)
    (hnode : t.node i = { (s.node i).setBackend p b with insertLsn := lsn })
    (hb : ∀ lockType, b.pc = .quorum lockType →
      ∀ j ∈ s.peers i, s.Confirmed i j (s.node i).db.lockType)
    (hconfirmedBy : t.confirmedBy i = s.confirmedBy i) (hpeers : t.peers i = s.peers i) :
    t.TallyAt i := by
  refine h.frame hview ?_ ?_ ?_ ?_ hconfirmedBy (hpeers ▸ subset_rfl) fun _ _ _ hj => hpeers ▸ hj
  all_goals simp only [hnode, LockNode.setBackend_db, LockNode.setBackend_workers]
  · exact fun hp => ⟨hp, trivial, trivial⟩
  · exact fun _ hw => .inl hw
  · exact fun _ hw => hw
  · rintro (hstate | ⟨q, lockType, hq⟩)
    · exact h.quorum (.inl hstate)
    · by_cases hqp : q = p
      · subst hqp
        exact hb lockType (by simpa using hq)
      · rw [LockNode.setBackend_of_ne _ hqp] at hq
        exact h.quorum (.inr ⟨q, lockType, hq⟩)

section

variable (h : s.Tally)
include h

theorem Cluster.Tally.sendAcquire
    (hacq : ((s.node i).backends p).thisXactAcquiredLock = true ∨ (s.node i).db.lockcount ≤ 0)
    (hframe : s.Frame i [unasked (.acquireLock lockType)] t)
    (hnode : t.node i = { ((s.node i).sendAcquire p lockType).1 with insertLsn := lsn })
    (hconfirmedBy : t.confirmedBy i = []) : t.TallyAt i := by
  have howned := (h.sane i).consistent.sendAcquire hacq lockType
  have hattempt : t.attempt i = (s.net.log i).length + 1 := by
    rw [attempt, hframe.net, Net.append_log_self, lastNumber_concat]
    rfl
  refine ⟨fun v hv => ?_, ?_, ?_, ?_, ?_⟩
  · rw [hnode] at hv
    obtain ⟨e, lockType', hnext, hm, -⟩ := (h.tally i).inHand v hv
    refine ⟨e, lockType', ?_, hm, fun _ ha => ?_⟩
    · rw [hframe.net]
      exact Net.next_append hnext i _
    · have hle := h.answers_le_attempt (List.mem_of_getElem? hnext) hm ha
      have := lastNumber_le_length Entry.isAcquire (s.net.log i)
      rw [hattempt, attempt] at hle
      omega
  · simp [hconfirmedBy]
  · simp [hconfirmedBy, hnode, LockNode.sendAcquire]
  · simp [hconfirmedBy]
  · rw [hnode]
    rintro (hstate | ⟨q, lockType', hq⟩)
    · simp [LockNode.sendAcquire] at hstate
    · by_cases hqp : q = p
      · subst hqp
        simp [LockNode.sendAcquire] at hq
      · simp [howned.backends q hqp, Backend.fresh] at hq

theorem Cluster.Tally.put_backend (hgrants : (s.put i n).Grants)
    (htally : (s.put i n).TallyAt i) (hworkers : n.workers = (s.node i).workers)
    (hnnodes : n.db.nnodes = (s.node i).db.nnodes) (hkilled : n.killed = (s.node i).killed)
    (hperdb : n.perdb = (s.node i).perdb) : (s.put i n).Tally := by
  refine h.of_acting (s.put_actsAt i n) hgrants ?_ htally
  exact (h.members i).frame (by simpa using hnnodes) rfl (by simpa using hkilled)
    (by simpa using hperdb) (by simp [hworkers])

theorem Cluster.Tally.put_setBackend {pc : BackendPc}
    (hgrants : (s.put i ((s.node i).setBackend p { (s.node i).backends p with pc := pc })).Grants)
    (hpc : ∀ lockType, pc = .quorum lockType →
      ∀ j ∈ s.peers i, s.Confirmed i j (s.node i).db.lockType) :
    (s.put i ((s.node i).setBackend p { (s.node i).backends p with pc := pc })).Tally :=
  h.put_backend hgrants ((h.tally i).setBackend (s.sameView_put i i _) (s.put_node_self i _) hpc
    rfl rfl) rfl rfl rfl rfl

theorem Cluster.Tally.put_self (hgrants : (s.put i (s.node i)).Grants) :
    (s.put i (s.node i)).Tally :=
  h.put_backend hgrants
    ((h.tally i).bystander (s.sameView_put i i _) (s.put_node_self i _) rfl rfl) rfl rfl rfl rfl

theorem Cluster.Tally.acquire (hacts : s.ActsAt i t)
    (ht : s.acquire i p lockType = some t) : t.Tally := by
  have hgrants := h.toGrants.acquire ht
  obtain ⟨-, -, ⟨hacq, -, rfl⟩ | ⟨hacq, rfl⟩ | ⟨hacq, rfl⟩⟩ := acquire_cases ht
  · refine h.of_acting hacts hgrants ?_ ?_
    · exact (h.members i).frame (by simp) rfl (by simp) (by simp) (by simp)
    · exact (h.tally i).setBackend (s.sameView_put i i _) (s.put_node_self i _) (by simp) rfl rfl
  · rw [(h.sane i).consistent.setBackend_idle hacq] at hgrants ⊢
    exact h.put_self hgrants
  · have hframe : s.Frame i [unasked (.acquireLock lockType)]
        (s.send i ((s.node i).sendAcquire p lockType).1 [unasked (.acquireLock lockType)]) :=
      ⟨rfl, fun k hk => s.send_node_of_ne hk _ _⟩
    refine h.of_acting hacts hgrants ?_ ?_
    · exact (h.members i).frame (by simp [LockNode.sendAcquire]) rfl
        (by simp [LockNode.sendAcquire]) (by simp [LockNode.sendAcquire])
        (by simp [LockNode.sendAcquire])
    · exact h.sendAcquire hacq { hframe with } (s.send_node_self i _ _) (by simp)

theorem Cluster.Tally.confirmed_of_le (hpid : (s.node i).db.lockHolderLocalPid ≠ none)
    (hfull : (s.node i).db.nnodes ≤ (s.node i).db.acquireConfirmed) (hj : j ∈ s.peers i) :
    s.Confirmed i j (s.node i).db.lockType := by
  have htally := h.tally i
  have hcard : (s.peers i).card ≤ (s.confirmedBy i).length := by
    rw [(h.members i).nnodes, htally.length hpid] at hfull
    omega
  -- the counted peers are distinct and as many as there are peers
  have hcounted : j ∈ s.confirmedBy i := by
    refine mem_of_card_le_length (htally.nodup hpid) (fun k hk => ?_) hcard hj
    exact (htally.counted hpid k hk).1
  obtain ⟨-, e, he, hm, ha⟩ := htally.counted hpid j hcounted
  refine ⟨e, ?_, hm, ha⟩
  rcases he with he | ⟨-, hnext⟩
  · exact Net.seenBy_subset _ _ _ he
  · exact List.mem_of_getElem? hnext

theorem Cluster.Tally.check (ht : s.check i p = some t) : t.Tally := by
  have hgrants := h.toGrants.check ht
  obtain ⟨_, hpc, rfl⟩ := check_cases ht
  unfold LockNode.checkTally at hgrants ⊢
  split_ifs at hgrants ⊢ with hdeclined hfull
  · exact h.put_setBackend hgrants (by simp)
  · refine h.put_setBackend hgrants fun _ _ j hj => h.confirmed_of_le ?_ hfull hj
    simp [(h.ownedBy hpc (by simp)).localPid]
  · exact h.put_self hgrants

theorem Cluster.Tally.interrupt (ht : s.interrupt i p = some t) : t.Tally := by
  have hgrants := h.toGrants.interrupt ht
  obtain ⟨_, -, rfl⟩ := interrupt_cases ht
  exact h.put_setBackend hgrants (by simp)

theorem Cluster.Tally.finish (hacts : s.ActsAt i t) (ht : s.finish i p = some t) : t.Tally := by
  have hgrants := h.toGrants.finish ht
  obtain ⟨lockType, hpc, rfl⟩ := finish_cases ht
  have hconfirmed := (h.tally i).quorum (.inr ⟨p, lockType, hpc⟩)
  refine h.of_acting hacts hgrants ?_ ?_
  · exact (h.members i).frame (by simp [LockNode.finishAcquire]) rfl
      (by simp [LockNode.finishAcquire]) (by simp [LockNode.finishAcquire])
      (by simp [LockNode.finishAcquire])
  · refine ⟨fun w hw => ?_, ?_, ?_, ?_, fun _ j hj => ?_⟩
    all_goals simp only [put_node_self, Function.update_self] at *
    · exact (h.tally i).inHand w hw
    · simp
    · simp [LockNode.finishAcquire]
    · simp
    · exact hconfirmed j hj

theorem Cluster.Tally.sendRelease (hacts : s.ActsAt i t)
    (ht : s.sendRelease i p = some t) : t.Tally := by
  have hgrants := h.toGrants.sendRelease ht
  obtain ⟨-, rfl⟩ := sendRelease_cases ht
  have hframe : s.Frame i [unasked (.releaseLock i)]
      (s.send i ((s.node i).sendRelease i p).1 [unasked (.releaseLock i)]) :=
    ⟨rfl, fun k hk => s.send_node_of_ne hk _ _⟩
  have hview := hframe.sameView (k := i) fun _ => by simp [unasked, Entry.isAcquire]
  refine h.of_acting hacts hgrants ?_ ?_
  · exact (h.members i).frame (by simp [LockNode.sendRelease]) rfl
      (by simp [LockNode.sendRelease]) (by simp [LockNode.sendRelease])
      (by simp [LockNode.sendRelease])
  · exact (h.tally i).setBackend hview (s.send_node_self i _ _) (by simp) rfl rfl

theorem Cluster.Tally.releaseOwned (ht : s.releaseOwned i p = some t) : t.Tally := by
  have hgrants := h.toGrants.releaseOwned ht
  obtain ⟨hpc, rfl⟩ := releaseOwned_cases ht
  have hfree := (h.ownedBy hpc (by simp)).releaseOwned
  refine h.put_backend hgrants ?_ rfl rfl rfl rfl
  refine (h.tally i).frame (s.sameView_put i i _) ?_ ?_ ?_ ?_ rfl subset_rfl fun _ _ _ hj => hj
  all_goals rw [put_node_self]
  · exact fun hp => absurd hfree.localPid hp
  · exact fun _ hw => .inl hw
  · exact fun _ hw => hw
  · exact fun hq => absurd hfree.localPid
      ((LockNode.Consistent.free hfree).localPid_ne_none hq)

theorem Cluster.Tally.perdb (hacts : s.ActsAt i t) (hgrants : t.Grants)
    (hnet : t.net = s.net) (hmembers : t.MembersAt i)
    (hpid : (t.node i).db.lockHolderLocalPid ≠ none →
      (s.node i).db.lockHolderLocalPid ≠ none ∧
      (t.node i).db.lockType = (s.node i).db.lockType ∧
      (t.node i).db.lockState = (s.node i).db.lockState ∧
      (t.node i).db.acquireConfirmed = (s.node i).db.acquireConfirmed)
    (hbackends : (t.node i).backends = (s.node i).backends)
    (hcounting : ∀ w, (t.node i).workers w = .countingConfirm →
      (s.node i).workers w = .countingConfirm)
    (hdone : ∀ w, (s.node i).workers w = .done ∨ (s.node i).workers w = .stopped →
      (t.node i).workers w = .done ∨ (t.node i).workers w = .stopped)
    (hconfirmedBy : t.confirmedBy = s.confirmedBy) (hpeers : t.peers i ⊆ s.peers i)
    (hkeep : (s.node i).db.lockHolderLocalPid ≠ none →
      ∀ j ∈ s.confirmedBy i, j ∈ s.peers i → j ∈ t.peers i) : t.Tally := by
  have hview : s.SameView i t :=
    ⟨hacts.log_isPrefix, fun _ => by rw [hnet], by rw [attempt, hnet, attempt]⟩
  refine h.of_acting hacts hgrants hmembers ?_
  refine (h.tally i).frame hview (fun hp => ?_) (fun w hw => .inl (hcounting w hw)) hdone
    (fun hq => ?_) (congrFun hconfirmedBy i) hpeers hkeep
  · obtain ⟨hp', htype, -, hconfirmed⟩ := hpid hp
    exact ⟨hp', htype, hconfirmed⟩
  · obtain ⟨-, htype, hstate, -⟩ := hpid ((hgrants.sane i).consistent.localPid_ne_none hq)
    rw [hstate, hbackends] at hq
    rw [htype]
    exact (h.tally i).quorum hq

theorem Cluster.Tally.put_perdb (hgrants : (s.put i n).Grants)
    (hmembers : (s.put i n).MembersAt i) (hdb : n.db = (s.node i).db)
    (hbackends : n.backends = (s.node i).backends)
    (hcounting : ∀ w, n.workers w = .countingConfirm → (s.node i).workers w = .countingConfirm)
    (hdone : ∀ w, (s.node i).workers w = .done ∨ (s.node i).workers w = .stopped →
      n.workers w = .done ∨ n.workers w = .stopped) : (s.put i n).Tally := by
  refine h.perdb (s.put_actsAt i n) hgrants rfl hmembers ?_ ?_ ?_ ?_ rfl subset_rfl
    fun _ _ _ hj => hj
  all_goals rw [put_node_self]
  · rw [hdb]
    exact fun hp => ⟨hp, rfl, rfl, rfl⟩
  · exact hbackends
  · exact hcounting
  · exact hdone

theorem Cluster.Tally.stopWorker : (s.put i ((s.node i).setWorker j .stopped)).Tally := by
  refine h.put_perdb (h.toGrants.stopWorker i j) ?_ rfl rfl (fun w hw => ?_) fun w hw => ?_
  · refine (h.members i).frame (by simp) rfl (by simp) (by simp) fun w hw => ?_
    rw [put_node_self]
    by_cases hwj : w = j
    · simp [hwj]
    · rwa [LockNode.setWorker_of_ne _ hwj]
  all_goals by_cases hwj : w = j
  · simp [hwj] at hw
  · rwa [LockNode.setWorker_of_ne _ hwj] at hw
  · simp [hwj]
  · rwa [LockNode.setWorker_of_ne _ hwj]

theorem Cluster.Tally.maintain [Fintype ν] (i : ν) :
    (s.put i ((s.node i).maintainDbWorkers i)).Tally := by
  refine h.put_perdb (h.toGrants.maintain i) ?_ rfl rfl (fun _ hw => hw) fun _ hw => hw
  have hmembers := h.members i
  refine ⟨?_, ?_, ?_⟩
  all_goals rw [put_node_self]
  · exact hmembers.nnodes
  · exact hmembers.live
  · intro nodes counted hp
    obtain ⟨-, rfl⟩ := PerdbPc.maintaining.inj hp
    refine ⟨fun j hj => ?_, fun j hji hj => ?_⟩
    · obtain ⟨-, hji, hj⟩ := Finset.mem_filter.mp hj
      exact hmembers.live j hji hj
    · exact Finset.mem_filter.mpr ⟨Finset.mem_univ j, hji, hj⟩

theorem Cluster.Tally.kill
    (hgrants : (s.put i { s.node i with killed := j :: (s.node i).killed }).Grants) :
    (s.put i { s.node i with killed := j :: (s.node i).killed }).Tally := by
  refine h.put_perdb hgrants ?_ rfl rfl (fun _ hw => hw) fun _ hw => hw
  have hmembers := h.members i
  have hlive {k : ν} (hk : k ∈ j :: (s.node i).killed → (s.node i).workers k ≠ .stopped) :
      k ∈ (s.node i).killed → (s.node i).workers k ≠ .stopped :=
    fun hmem => hk (List.mem_cons_of_mem _ hmem)
  refine ⟨?_, ?_, ?_⟩
  all_goals rw [put_node_self]
  · exact hmembers.nnodes
  · exact fun k hki hk => hmembers.live k hki (hlive hk)
  · intro nodes counted hp
    obtain ⟨hsub, hcounted⟩ := hmembers.pass nodes counted hp
    exact ⟨hsub, fun k hki hk => hcounted k hki (hlive hk)⟩

theorem Cluster.Tally.forget (ht : s.forget i = some t) : t.Tally := by
  have hgrants := h.toGrants.forget ht
  obtain ⟨j, rest, counted, hp, rfl⟩ := forget_cases ht
  have hsame (n : LockNode ν) (hworkers : n.workers = (s.node i).workers)
      (hbackends : n.backends = (s.node i).backends) (hkilled : n.killed = (s.node i).killed)
      (hnnodes : n.db.nnodes = (s.node i).db.nnodes)
      (hpid : n.db.lockHolderLocalPid ≠ none → n.db = (s.node i).db)
      (hgrants : (s.put i { n with perdb := .maintaining rest counted }).Grants) :
      (s.put i { n with perdb := .maintaining rest counted }).Tally := by
    obtain ⟨hsub, hcounted⟩ := (h.members i).pass _ _ hp
    refine h.perdb (s.put_actsAt i _) hgrants rfl ⟨?_, ?_, ?_⟩ ?_ ?_ ?_ ?_ rfl subset_rfl
      fun _ _ _ hj => hj
    all_goals simp only [put_node_self, hworkers, hbackends, hkilled]
    · exact hnnodes.trans (h.members i).nnodes
    · exact (h.members i).live
    · intro nodes counted' hp'
      obtain ⟨-, rfl⟩ := PerdbPc.maintaining.inj hp'
      exact ⟨hsub, hcounted⟩
    · intro hne
      have hdb := hpid hne
      rw [hdb] at hne ⊢
      exact ⟨hne, rfl, rfl, rfl⟩
    · exact fun _ hw => hw
    · exact fun _ hw => hw
  rcases (h.sane i).consistent.nodeDetached_cases i j with hn | ⟨hheld, hn⟩
  · rw [hn] at hgrants ⊢
    exact hsame _ rfl rfl rfl rfl (fun _ => rfl) hgrants
  · -- the released lock was not one of a local backend
    rw [hn, hheld.releaseLocalDdlLock_eq] at hgrants ⊢
    exact hsame _ rfl rfl rfl rfl (fun hne => absurd hheld.localPid hne) hgrants

theorem Cluster.Tally.setNnodes (hacts : s.ActsAt i t)
    (hkeep : s.KeepsCounted (.setNnodes i)) (ht : s.setNnodes i = some t) : t.Tally := by
  have hgrants := h.toGrants.setNnodes ht
  obtain ⟨counted, hp, rfl⟩ := setNnodes_cases ht
  obtain ⟨hsub, hcounted⟩ := (h.members i).pass _ _ hp
  refine h.perdb hacts hgrants rfl ⟨?_, ?_, ?_⟩ ?_ ?_ ?_ ?_ rfl (by simpa using hsub)
    fun hpid j hj _ => by simpa using hkeep hpid _ _ hp j hj
  all_goals simp only [put_node_self, Function.update_self]
  · rfl
  · exact hcounted
  · simp [LockNode.setNnodes]
  · exact fun hp => ⟨hp, rfl, rfl, rfl⟩
  · rfl
  · exact fun _ hw => hw
  · exact fun _ hw => hw

theorem Cluster.Tally.step [Fintype ν] {a : Action ν} (ha : a.crashes = false)
    (hcurrent : s.CountsCurrent a) (hkeep : s.KeepsCounted a) (ht : s.step a = some t) :
    t.Tally := by
  have hacts := step_actsAt ht
  cases a with
  | acquire i p lockType => exact h.acquire hacts ht
  | check i p => exact h.check ht
  | interrupt i p => exact h.interrupt ht
  | finish i p => exact h.finish hacts ht
  | sendRelease i p => exact h.sendRelease hacts ht
  | releaseOwned i p => exact h.releaseOwned ht
  | deliver i w => exact h.deliver hacts ht
  | work i w cancelled => exact h.work hacts hcurrent ht
  | advance i w => exact h.advance hacts ht
  | rewind i w k => cases ha
  | restart i => cases ha
  | kill i j =>
    have hgrants := h.toGrants.step ha ht
    obtain rfl := kill_cases ht
    exact h.kill hgrants
  | stopWorker i j => exact stopWorker_cases ht ▸ h.stopWorker
  | maintain i => exact maintain_cases ht ▸ h.maintain i
  | forget i => exact h.forget ht
  | setNnodes i => exact h.setNnodes hacts hkeep ht
  | writeWal i k =>
    have hgrants := h.toGrants.step ha ht
    cases ht
    refine h.put_perdb hgrants ?_ rfl rfl (fun _ hw => hw) fun _ hw => hw
    exact (h.members i).frame (by simp) rfl (by simp) (by simp) (by simp)

end

end Pgactive.Locks
