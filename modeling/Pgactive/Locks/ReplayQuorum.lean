import Pgactive.Locks.Sections

/-!
# Replay confirmations for a write lock

A replay confirmation names no request, and one that is delivered again is counted again. If every
counted one answers the current request and comes from a peer not counted before, the lock is
confirmed only after all peers have answered.
-/

namespace Pgactive.Locks

open BroadcastLog Transition

variable {ν : Type}

def Cluster.replayRequest (s : Cluster ν) (i : ν) : ℕ :=
  lastNumber Entry.isReplayRequest (s.net.log i)

def Cluster.RequestsReplay (s : Cluster ν) (i : ν) (lsn : ℕ) : Prop :=
  ∃ k r, s.replayRequest i = k + 1 ∧ (s.net.log i)[k]? = some r ∧
    r.message = .requestReplayConfirm lsn

def Cluster.Replayed (s : Cluster ν) (i j : ν) (lsn : ℕ) : Prop :=
  ∃ e ∈ s.net.log j, e.message = .replayConfirm lsn ∧ e.answers = some (i, s.replayRequest i)

/-- If the step from `s` to `t` confirms a write lock, then all peers of the node have
answered its current replay request before. -/
def Cluster.ConfirmsReplayed (s t : Cluster ν) : Prop :=
  ∀ i, ∀ e ∈ (t.net.log i).drop (s.net.log i).length, ∀ k, e.message = .confirmLock k .write →
    ∃ lsn, s.RequestsReplay i lsn ∧ ∀ j ∈ s.peers i, s.Replayed i j lsn

/-- A replay confirmation that a node counts answers the node's current request and comes
from a peer that was not counted before, while the number of nodes is that of the peers
and the peers counted before are still among them. A lock that is confirmed without a
replay request is no write lock. -/
def Cluster.CountsReplay (s : Cluster ν) : Action ν → Prop
  | .deliver i w => ∀ e ∈ s.net.next i w, (s.node i).db.countsMessage e.message = true →
    e.answers = some (i, s.replayRequest i) ∧ w ∈ s.peers i ∧ w ∉ s.replayedBy i ∧
      (∀ j ∈ s.replayedBy i, j ∈ s.peers i) ∧ (s.node i).db.nnodes = (s.peers i).card
  | .work i w _ => (s.node i).workers w = .confirming → (s.node i).db.lockType ≠ .write
  | _ => True

/-- The replay confirmations of node `i`. -/
structure Cluster.ReplayAt (s : Cluster ν) (i : ν) : Prop where
  request : ∀ lsn, (s.node i).db.replayConfirmedLsn = some lsn → s.RequestsReplay i lsn
  replayed : ∀ lsn, (s.node i).db.replayConfirmedLsn = some lsn →
    ∀ j ∈ s.replayedBy i, s.Replayed i j lsn
  nodup : (s.node i).db.replayConfirmedLsn ≠ none → (s.replayedBy i).Nodup
  length : (s.node i).db.replayConfirmedLsn ≠ none →
    (s.node i).db.replayConfirmed = (s.replayedBy i).length
  raising : ∀ w lockType, (s.node i).workers w = .raisingConfirm lockType → lockType ≠ .write

instance [DecidableEq ν] (s : Cluster ν) (a : Action ν) : Decidable (s.CountsReplay a) := by
  rcases a <;> unfold Cluster.CountsReplay <;> infer_instance

variable {s : Cluster ν} {i w : ν} {lsn : ℕ} {e : Entry ν}

theorem Cluster.ReplayAt.replayed_of_full [DecidableEq ν] (h : s.ReplayAt i)
    (hnext : s.net.next i w = some e) (hm : e.message = .replayConfirm lsn)
    (hlsn : (s.node i).db.replayConfirmedLsn = some lsn)
    (hcounts : e.answers = some (i, s.replayRequest i) ∧ w ∈ s.peers i ∧ w ∉ s.replayedBy i ∧
      (∀ j ∈ s.replayedBy i, j ∈ s.peers i) ∧ (s.node i).db.nnodes = (s.peers i).card)
    (hfull : (s.node i).db.nnodes ≤ (s.node i).db.replayConfirmed + 1) {j : ν}
    (hj : j ∈ s.peers i) : s.Replayed i j lsn := by
  obtain ⟨ha, hw, hnew, hpeers, hnnodes⟩ := hcounts
  have hne : (s.node i).db.replayConfirmedLsn ≠ none := by simp [hlsn]
  have hcard : (s.peers i).card ≤ (w :: s.replayedBy i).length := by
    have hlength := h.length hne
    rw [List.length_cons]
    omega
  have hanswered : j ∈ w :: s.replayedBy i := by
    refine mem_of_card_le_length (List.nodup_cons.mpr ⟨hnew, h.nodup hne⟩) ?_ hcard hj
    exact List.forall_mem_cons.mpr ⟨hw, hpeers⟩
  rcases List.mem_cons.mp hanswered with rfl | hj
  · exact ⟨e, List.mem_of_getElem? hnext, hm, ha⟩
  · exact h.replayed lsn hlsn j hj

variable {t : Cluster ν}

theorem Cluster.replayRequest_eq {es : List (Entry ν)} (hlog : t.net.log i = s.net.log i ++ es)
    (hes : ∀ e ∈ es, e.isReplayRequest = false) : t.replayRequest i = s.replayRequest i := by
  rw [replayRequest, hlog, lastNumber_append_of_forall hes, replayRequest]

theorem Cluster.ReplayAt.of_request {earlier : List (Entry ν)} {r : Entry ν}
    (hlog : t.net.log i = earlier ++ [r]) (hr : r.message = .requestReplayConfirm lsn)
    (hlsn : (t.node i).db.replayConfirmedLsn = some lsn)
    (hconfirmed : (t.node i).db.replayConfirmed = 0) (hby : t.replayedBy i = [])
    (hraising : ∀ w lockType, (t.node i).workers w = .raisingConfirm lockType → lockType ≠ .write) :
    t.ReplayAt i := by
  refine ⟨fun lsn' hlsn' => ?_, by simp [hby], by simp [hby], by simp [hby, hconfirmed], hraising⟩
  obtain rfl : lsn = lsn' := Option.some.inj (hlsn.symm.trans hlsn')
  refine ⟨earlier.length, r, ?_, ?_, hr⟩
  · have hrequest : r.isReplayRequest = true := by simp [Entry.isReplayRequest, hr]
    rw [replayRequest, hlog, lastNumber_concat, if_pos hrequest]
  · rw [hlog, List.getElem?_concat_length]

theorem LockNode.Delivered.raisingConfirm {me : ν} {n n' : LockNode ν} {m : LockMessage ν}
    {lockType : LockType} (h : Delivered me n n' m (.raisingConfirm lockType)) :
    lockType ≠ .write := by
  generalize hpc : WorkerPc.raisingConfirm lockType = pc at h
  cases h with
  | granting upgrade requested =>
    rintro rfl
    unfold WorkerPc.afterGrant at hpc
    split_ifs at hpc with hlevel
    · obtain rfl := WorkerPc.raisingConfirm.inj hpc
      simp at hlevel
  | _ => cases hpc

theorem Entry.isReplayRequest_eq_false (h : e.isAcquire = true ∨ e.isRelease = true) :
    e.isReplayRequest = false := by
  cases hm : e.message <;> simp_all [isReplayRequest, isAcquire, isRelease]

theorem LocksDb.countsMessage_eq_true {db : LocksDb ν} {m : LockMessage ν}
    (h : db.countsMessage m = true) :
    ∃ lsn, m = .replayConfirm lsn ∧ db.replayConfirmedLsn = some lsn := by
  cases m with
  | replayConfirm lsn => exact ⟨lsn, rfl, by simpa [countsMessage, countsReplay] using h⟩
  | _ => cases h

variable [DecidableEq ν]

variable {k : ν}

theorem Cluster.ActsAt.replayed {j : ν} (hacts : s.ActsAt i t)
    (hrequest : t.replayRequest k = s.replayRequest k) (hj : s.Replayed k j lsn) :
    t.Replayed k j lsn := by
  obtain ⟨e, he, hm, ha⟩ := hj
  exact ⟨e, (hacts.log_isPrefix j).subset he, hm, by rw [hrequest, ha]⟩

theorem Cluster.ActsAt.requestsReplay (hacts : s.ActsAt i t)
    (hrequest : t.replayRequest k = s.replayRequest k) (h : s.RequestsReplay k lsn) :
    t.RequestsReplay k lsn := by
  obtain ⟨m, r, hm, hr, hmessage⟩ := h
  exact ⟨m, r, by rw [hrequest, hm], getElem?_of_isPrefix (hacts.log_isPrefix k) hr, hmessage⟩

theorem Cluster.ReplayAt.frame (h : s.ReplayAt k) (hacts : s.ActsAt i t)
    (hrequest : t.replayRequest k = s.replayRequest k)
    (hreplay : (t.node k).db.replayConfirmedLsn ≠ none →
      (t.node k).db.replayConfirmedLsn = (s.node k).db.replayConfirmedLsn ∧
        (t.node k).db.replayConfirmed = (s.node k).db.replayConfirmed)
    (hby : t.replayedBy k = s.replayedBy k)
    (hraising : ∀ w lockType, (t.node k).workers w = .raisingConfirm lockType → lockType ≠ .write) :
    t.ReplayAt k := by
  have hold {lsn : ℕ} (hlsn : (t.node k).db.replayConfirmedLsn = some lsn) :
      (s.node k).db.replayConfirmedLsn = some lsn := by
    rw [← (hreplay (by simp [hlsn])).1, hlsn]
  refine ⟨fun lsn hlsn => ?_, fun lsn hlsn j hj => ?_, fun hne => ?_, fun hne => ?_, hraising⟩
  · exact hacts.requestsReplay hrequest (h.request lsn (hold hlsn))
  · rw [hby] at hj
    exact hacts.replayed hrequest (h.replayed lsn (hold hlsn) j hj)
  · rw [hby]
    exact h.nodup ((hreplay hne).1 ▸ hne)
  · rw [hby, (hreplay hne).2]
    exact h.length ((hreplay hne).1 ▸ hne)

theorem Cluster.ReplayAt.bystander (h : s.ReplayAt k) (hacts : s.ActsAt i t) (hk : k ≠ i) :
    t.ReplayAt k := by
  have hrequest : t.replayRequest k = s.replayRequest k := by
    rw [replayRequest, hacts.log k hk, replayRequest]
  refine h.frame hacts hrequest ?_ (hacts.replayedBy k hk) ?_
  all_goals rw [hacts.node k hk]
  · exact fun _ => ⟨rfl, rfl⟩
  · exact h.raising

theorem Cluster.ActsAt.confirmsReplayed {es : List (Entry ν)} (hacts : s.ActsAt i t)
    (hlog : t.net.log i = s.net.log i ++ es)
    (hes : ∀ e ∈ es, ∀ k, e.message = .confirmLock k .write →
      ∃ lsn, s.RequestsReplay i lsn ∧ ∀ j ∈ s.peers i, s.Replayed i j lsn) :
    s.ConfirmsReplayed t := by
  intro v e he k hm
  by_cases hv : v = i
  · subst hv
    rw [hlog, List.drop_left] at he
    exact hes e he k hm
  · rw [hacts.log v hv, List.drop_length] at he
    cases he

section

variable (h : s.ReplayAt i) (hacts : s.ActsAt i t)
include h hacts

theorem Cluster.ReplayAt.localStep (hlocal : s.LocalStep i t) :
    t.ReplayAt i ∧ s.ConfirmsReplayed t := by
  obtain ⟨es, hlog, hes⟩ := hlocal.sent
  have hrequest : ∀ e ∈ es, e.isReplayRequest = false := fun e he =>
    Entry.isReplayRequest_eq_false (hes e he)
  refine ⟨h.frame hacts (replayRequest_eq hlog hrequest) hlocal.replay hlocal.replayedBy
    fun w lockType hw => ?_, hacts.confirmsReplayed hlog fun e he k hm => ?_⟩
  · rcases hlocal.workers w with hidle | hstopped | ⟨hsame, -⟩
    · simp [hidle] at hw
    · simp [hstopped] at hw
    · exact h.raising w lockType (hsame ▸ hw)
  · have hkind := hes e he
    simp [Entry.isAcquire, Entry.isRelease, hm] at hkind

theorem Cluster.ReplayAt.count (hrequest : t.replayRequest i = s.replayRequest i)
    (hnext : s.net.next i w = some e)
    (hm : e.message = .replayConfirm lsn) (ha : e.answers = some (i, s.replayRequest i))
    (hnew : w ∉ s.replayedBy i) (hlsn : (s.node i).db.replayConfirmedLsn = some lsn)
    (hreplay : (t.node i).db.replayConfirmedLsn ≠ none →
      (t.node i).db.replayConfirmedLsn = (s.node i).db.replayConfirmedLsn ∧
        (t.node i).db.replayConfirmed = (s.node i).db.replayConfirmed + 1)
    (hby : t.replayedBy i = w :: s.replayedBy i)
    (hraising : ∀ v lockType, (t.node i).workers v = .raisingConfirm lockType → lockType ≠ .write) :
    t.ReplayAt i := by
  have hne : (s.node i).db.replayConfirmedLsn ≠ none := by simp [hlsn]
  have hold {lsn' : ℕ} (hlsn' : (t.node i).db.replayConfirmedLsn = some lsn') : lsn' = lsn := by
    rw [(hreplay (by simp [hlsn'])).1, hlsn] at hlsn'
    exact (Option.some.inj hlsn').symm
  refine ⟨fun lsn' hlsn' => ?_, fun lsn' hlsn' j hj => ?_, fun _ => ?_, fun hne' => ?_, hraising⟩
  · rw [hold hlsn']
    exact hacts.requestsReplay hrequest (h.request lsn hlsn)
  · rw [hold hlsn']
    refine hacts.replayed hrequest ?_
    rw [hby] at hj
    rcases List.mem_cons.mp hj with rfl | hj
    · exact ⟨e, List.mem_of_getElem? hnext, hm, ha⟩
    · exact h.replayed lsn hlsn j hj
  · rw [hby]
    exact List.nodup_cons.mpr ⟨hnew, h.nodup hne⟩
  · rw [hby, (hreplay hne').2, h.length hne, List.length_cons]
    omega

theorem Cluster.ReplayAt.deliver (hcounts : s.CountsReplay (.deliver i w))
    (ht : s.deliver i w = some t) :
    t.ReplayAt i ∧ s.ConfirmsReplayed t := by
  obtain ⟨-, -, e, n, ms, hnext, hn, rfl⟩ := deliver_cases ht
  have hfirst := LockNode.firstSection hn
  have hlog := s.net.append_log_self i (ms.map (s.entry i w))
  have hrequest : ∀ e' ∈ ms.map (s.entry i w), e'.isReplayRequest = false := by
    intro e' he'
    obtain ⟨m, hm, rfl⟩ := List.mem_map.mp he'
    rcases hfirst.sent m hm with ⟨lsn, rfl⟩ | ⟨-, -, k, rfl⟩ <;> rfl
  have hraising : ∀ v lockType, n.workers v = .raisingConfirm lockType → lockType ≠ .write := by
    intro v lockType hv
    by_cases hvw : v = w
    · subst hvw
      have hplace := LockNode.place_of_processMessage hn
      rw [hv] at hplace
      exact hplace.raisingConfirm
    · exact h.raising v lockType (hfirst.workers v hvw ▸ hv)
  have hreplay := hfirst.replay
  have hsame := replayRequest_eq (t := s.send i n (ms.map (s.entry i w))) hlog hrequest
  refine ⟨?_, hacts.confirmsReplayed hlog fun e' he' k hm' => ?_⟩
  · cases hcounted : (s.node i).db.countsMessage e.message with
    | false =>
      rw [hcounted] at hreplay
      refine h.frame hacts hsame ?_ ?_ ?_
      · simpa using hreplay
      · cases hm : e.message <;> simp_all [LocksDb.countsMessage, send]
      · simpa using hraising
    | true =>
      obtain ⟨lsn, hm, hlsn⟩ := LocksDb.countsMessage_eq_true hcounted
      obtain ⟨ha, -, hnew, -⟩ := hcounts e hnext hcounted
      rw [hcounted] at hreplay
      refine h.count hacts hsame hnext hm ha hnew hlsn ?_ ?_ ?_
      · simpa using hreplay
      · simp [hm, LocksDb.countsReplay, hlsn]
      · simpa using hraising
  · obtain ⟨m, hm, rfl⟩ := List.mem_map.mp he'
    rcases hfirst.sent m hm with ⟨lsn, rfl⟩ | ⟨hcounted, hfull, j, rfl⟩
    · cases hm'
    · obtain ⟨lsn, hm, hlsn⟩ := LocksDb.countsMessage_eq_true hcounted
      exact ⟨lsn, h.request lsn hlsn, fun j hj =>
        h.replayed_of_full hnext hm hlsn (hcounts e hnext hcounted) hfull hj⟩

theorem Cluster.ReplayAt.workerStep {n : LockNode ν} {ms : List (LockMessage ν)}
    (hlater : (s.node i).LaterSection w n ms)
    (hnet : t.net = s.net.append i (ms.map (s.entry i w))) (hdb : (t.node i).db = n.db)
    (hempty : ∀ lsn, (s.node i).workers w = .requesting lsn → t.replayedBy i = [])
    (hby : (∀ lsn, (s.node i).workers w ≠ .requesting lsn) → t.replayedBy i = s.replayedBy i)
    (hraising : ∀ v lockType, (t.node i).workers v = .raisingConfirm lockType → lockType ≠ .write) :
    t.ReplayAt i := by
  have hlog : t.net.log i = s.net.log i ++ ms.map (s.entry i w) := by
    rw [hnet, Net.append_log_self]
  rcases hlater.replay with ⟨lsn, hpc, hlsn, hconfirmed, rfl⟩ | ⟨hpc, hms, hreplay⟩
  · exact of_request hlog rfl (hdb ▸ hlsn) (hdb ▸ hconfirmed) (hempty lsn hpc)
      hraising
  · refine h.frame hacts (replayRequest_eq hlog fun e he => ?_) (hdb ▸ hreplay) (hby hpc)
      hraising
    obtain ⟨m, hm, rfl⟩ := List.mem_map.mp he
    rcases hlater.sent m hm with ⟨lsn, rfl⟩ | ⟨_, lockType, -, rfl⟩ | ⟨k, -, rfl⟩ |
      ⟨k, lockType, -, rfl⟩
    · exact absurd hm (hms lsn)
    all_goals rfl

theorem Cluster.ReplayAt.work {cancelled : Bool}
    (hcounts : s.CountsReplay (.work i w cancelled)) (ht : s.work i w cancelled = some t) :
    t.ReplayAt i ∧ s.ConfirmsReplayed t := by
  obtain ⟨-, e, n, ms, hnext, hn, heq⟩ := work_cases ht
  have hlater := LockNode.laterSection hn
  have hraising : ∀ v lockType, n.workers v = .raisingConfirm lockType → lockType ≠ .write := by
    intro v lockType hv
    by_cases hvw : v = w
    · exact absurd (hvw ▸ hv) (hlater.place.2.2.2.1 lockType)
    · exact h.raising v lockType (hlater.workers v hvw ▸ hv)
  have hlog := s.net.append_log_self i (ms.map (s.entry i w))
  have hsent : ∀ e' ∈ ms.map (s.entry i w), ∀ k, e'.message ≠ .confirmLock k .write := by
    intro e' he' k hm'
    obtain ⟨m, hm, rfl⟩ := List.mem_map.mp he'
    rcases hlater.sent m hm with ⟨lsn, rfl⟩ | ⟨_, lockType, -, rfl⟩ | ⟨j, hpc, rfl⟩ |
      ⟨j, lockType, hpc, rfl⟩
    · cases hm'
    · cases hm'
    · exact hcounts hpc (LockMessage.confirmLock.inj hm').2
    · exact h.raising w lockType hpc (LockMessage.confirmLock.inj hm').2
  have hconfirms := fun (t : Cluster ν) (hacts : s.ActsAt i t)
      (hlog : t.net.log i = s.net.log i ++ ms.map (s.entry i w)) =>
    hacts.confirmsReplayed hlog fun e' he' k hm' => absurd hm' (hsent e' he' k)
  by_cases hpc : ∃ lsn, (s.node i).workers w = .requesting lsn
  · obtain ⟨lsn, hpc⟩ := hpc
    simp only [hpc] at heq
    subst heq
    refine ⟨h.workerStep hacts hlater rfl (by simp) (fun _ _ => Function.update_self i _ _)
      (fun hnot => absurd hpc (hnot lsn)) (by simpa using hraising), hconfirms _ hacts hlog⟩
  · split at heq
    case h_3 lsn hc => exact absurd ⟨lsn, hc⟩ hpc
    all_goals
      subst heq
      refine ⟨h.workerStep hacts hlater rfl (by simp) (fun lsn hlsn => absurd ⟨lsn, hlsn⟩ hpc)
        (fun _ => rfl) (by simpa using hraising), hconfirms _ hacts hlog⟩

end

theorem Cluster.ReplayAt.restart (hacts : s.ActsAt i (s.restart i)) :
    (s.restart i).ReplayAt i ∧ s.ConfirmsReplayed (s.restart i) := by
  have hstarted := (s.node i).startup_started
  have hlog := s.net.append_log_self i ((s.node i).startup.2.map unasked)
  have hnode : (s.restart i).node i = { (s.node i).startup.1 with
      insertLsn := (s.node i).startup.1.insertLsn + ((s.node i).startup.2.map unasked).length } :=
    s.send_node_self i _ _
  have hby : (s.restart i).replayedBy i = [] := Function.update_self i _ _
  have hraising : ∀ w lockType, ((s.restart i).node i).workers w = .raisingConfirm lockType →
      lockType ≠ .write := by
    intro w lockType hw
    rw [hnode] at hw
    rcases hstarted.workers w with hidle | hstopped
    · simp [hidle] at hw
    · simp [hstopped] at hw
  refine ⟨?_, hacts.confirmsReplayed hlog fun e he k hm => ?_⟩
  · cases hlsn : (s.node i).startup.1.db.replayConfirmedLsn with
    | none =>
      refine ⟨fun lsn h => ?_, by simp [hby], by simp [hby], fun h => ?_, hraising⟩
      · simp [hnode, hlsn] at h
      · simp [hnode, hlsn] at h
    | some lsn =>
      obtain ⟨earlier, hms⟩ := hstarted.replay lsn hlsn
      have hlast : (s.restart i).net.log i =
          (s.net.log i ++ earlier.map unasked) ++ [unasked (.requestReplayConfirm lsn)] := by
        rw [Cluster.restart, Cluster.send_net, hlog, hms]
        simp
      refine Cluster.ReplayAt.of_request hlast rfl ?_ ?_ hby hraising
      · rw [hnode, hlsn]
      · rw [hnode, hstarted.replayConfirmed]
  · obtain ⟨m, hm', rfl⟩ := List.mem_map.mp he
    rcases hstarted.sent m hm' with rfl | ⟨lsn, rfl⟩ <;> cases hm

theorem Cluster.ReplayAt.step [Fintype ν] {a : Action ν} (h : s.ReplayAt a.node)
    (hcounts : s.CountsReplay a) (ht : s.step a = some t) :
    t.ReplayAt a.node ∧ s.ConfirmsReplayed t := by
  have hacts := Cluster.step_actsAt ht
  cases hhandler : a.isHandler with
  | false => exact h.localStep hacts (Cluster.localStep hhandler ht)
  | true =>
    cases a with
    | deliver i w => exact h.deliver hacts hcounts ht
    | work i w cancelled => exact h.work hacts hcounts ht
    | restart i =>
      cases ht
      exact Cluster.ReplayAt.restart hacts
    | _ => cases hhandler

/-- In every run whose steps count replay confirmations of the current request from new
peers only, a write lock is confirmed only after all peers have answered that request. -/
theorem replayQuorum_confirmsReplayed [Fintype ν] {s t : Cluster ν} {a : Action ν}
    (hs : Reach (· = Cluster.start ν) Cluster.step Cluster.CountsReplay s)
    (ha : s.CountsReplay a) (ht : s.step a = some t) : s.ConfirmsReplayed t := by
  have hreplay : ∀ i, s.ReplayAt i := by
    refine hs.invariant (I := fun s => ∀ i, s.ReplayAt i) ?_ fun s a t _ h ha ht k => ?_
    · rintro _ rfl i
      constructor <;> simp [Cluster.start, LockNode.unlocked, LocksDb.unlocked]
    · by_cases hk : k = a.node
      · exact hk ▸ ((h a.node).step ha ht).1
      · exact (h k).bystander (Cluster.step_actsAt ht) hk
  exact ((hreplay a.node).step ha ht).2

/-- Node `a` requests the write lock. Node `b` takes it, cancels its transactions and asks its
peers to confirm replay, and node `a` does. -/
def catchUp (a b : ν) : List (Action ν) :=
  [.acquire a 1 .write] ++ Action.process b a 4 ++ Action.process a b 0

/-- Node 2 reads the replay request twice, and node 1 confirms the lock with the first of
the two answers. -/
theorem replayQuorum_confirmsReplayed_twiceRead :
    ∃ s t : Cluster (Fin 3),
      Reach (· = Cluster.start (Fin 3)) Cluster.step Cluster.CountsReplay s ∧
      s.step (.deliver 1 2) = some t ∧
      (∃ e ∈ (t.net.log 1).drop (s.net.log 1).length, e.message = .confirmLock 0 .write) ∧
      s.ConfirmsReplayed t := by
  have hstart : Reach (· = Cluster.start (Fin 3)) Cluster.step Cluster.CountsReplay
      (Cluster.start (Fin 3)) := .init rfl
  obtain ⟨s, hs, ha, hstep⟩ := hstart.exists_of_run
    (catchUp 0 1 ++ Action.process 2 1 0 ++ [.rewind 2 1 0] ++ Action.process 2 1 0 ++
      Action.process 1 0 0)
    (fun s => s.CountsReplay (.deliver 1 2) ∧ (s.step (.deliver 1 2)).any (fun t => decide
      (∃ e ∈ (t.net.log 1).drop (s.net.log 1).length, e.message = .confirmLock 0 .write)) = true)
    (by decide +kernel)
  obtain ⟨t, ht, hconfirm⟩ := (Option.any_eq_true _ _).mp hstep
  exact ⟨s, t, hs, ht, of_decide_eq_true hconfirm, replayQuorum_confirmsReplayed hs ha ht⟩

/-- A replay confirmation that is delivered twice stands in for a missing one: node 1
confirms the write lock although node 2 has not sent anything. -/
theorem replayQuorum_countsTwice :
    ¬∀ (n : ℕ) (s t : Cluster (Fin n)) (a : Action (Fin n)),
      Reach (· = Cluster.start (Fin n)) Cluster.step (fun _ _ => True) s →
      s.step a = some t → s.ConfirmsReplayed t := by
  intro hclaim
  have hstart : Reach (· = Cluster.start (Fin 3)) Cluster.step (fun _ _ => True)
      (Cluster.start (Fin 3)) := .init rfl
  obtain ⟨s, hs, hpeer, hempty, hstep⟩ := hstart.exists_of_run
    (catchUp 0 1 ++ [.deliver 1 0, .rewind 1 0 1])
    (fun s => 2 ∈ s.peers 1 ∧ s.net.log 2 = [] ∧ (s.step (.deliver 1 0)).any (fun t => decide
      (∃ e ∈ (t.net.log 1).drop (s.net.log 1).length, e.message = .confirmLock 0 .write)) = true)
    (by decide +kernel)
  obtain ⟨t, ht, hconfirm⟩ := (Option.any_eq_true _ _).mp hstep
  obtain ⟨e, he, hm⟩ := of_decide_eq_true hconfirm
  obtain ⟨lsn, -, hreplayed⟩ := hclaim 3 s t _ hs ht 1 e he 0 hm
  obtain ⟨e', he', -⟩ := hreplayed 2 hpeer
  simp [hempty] at he'

end Pgactive.Locks
