import Pgactive.Feedback
import Pgactive.Polling
import Pgactive.Membership.Nodes

/-!
# Catching up to an LSN

`pgactive_catchup_to_lsn` starts an apply worker that is to replay up to a position and waits for
its end. The worker clears `replay_stop_lsn` in its slot when it is done, and the parent takes that
for success. But a worker that unregisters itself frees its slot, which clears the field as well.
-/

namespace Pgactive.Replica

open Polling Transition
open Pgactive.Membership (NodeStatus)

/-- What a starting worker finds in `pgactive_bgworker_init` and `pgactive_apply_main`. -/
structure StartupState where
  /-- `worker_generation` is the one that the worker was registered with. -/
  sameGeneration : Bool
  /-- The `pgactive` schema exists. -/
  schemaPresent : Bool
  /-- The `pgactive` extension exists. -/
  extensionPresent : Bool
  /-- `find_pgactive_nid_getter_function` finds it. -/
  nidGetterPresent : Bool
  /-- Status of the local node, `none` without a row or schema. -/
  localStatus : Option NodeStatus
  managementPaused : Bool
  /-- Status of the remote node, `none` without a row. -/
  remoteStatus : Option NodeStatus
  deriving DecidableEq

/-- How the checks of a starting worker end. -/
inductive Startup
  | replays
  | exits
  /-- It calls `pgactive_worker_unregister`. -/
  | unregisters
  deriving DecidableEq

/-- `pgactive_bgworker_init` and `pgactive_apply_main`, up to the point where the worker reads
its connection. -/
def StartupState.applyMain (found : StartupState) : Startup :=
  if ¬found.sameGeneration then .exits
  else if found.schemaPresent ∧ ¬found.extensionPresent then .unregisters
  else if ¬found.nidGetterPresent then .unregisters
  else if found.localStatus = some .killed then .unregisters
  else if found.localStatus = none then .unregisters
  else if found.managementPaused then .exits
  else if found.remoteStatus = some .killed then .unregisters
  else .replays

def StartupState.Unregisters (found : StartupState) : Prop :=
  found.sameGeneration = true ∧
    ((found.schemaPresent = true ∧ found.extensionPresent = false) ∨
      found.nidGetterPresent = false ∨ found.localStatus = some .killed ∨
      found.localStatus = none ∨
      found.managementPaused = false ∧ found.remoteStatus = some .killed)

/-- Where the process of the worker is. -/
inductive CatchupPhase
  | launched
  | replaying
  | ended
  deriving DecidableEq

/-- The catchup worker, as far as its parent depends on it. `InvalidXLogRecPtr` is zero. -/
structure Catchup where
  phase : CatchupPhase
  /-- Field `replay_stop_lsn` of its slot. -/
  replayStopLsn : ℕ
  freed : Bool
  /-- The commit ends of the transactions that it has committed, in this order. One without
  changes counts when its COMMIT has been processed. -/
  committed : List ℕ
  deriving DecidableEq

/-- What happens to the worker. Messages other than COMMIT have no effect here. -/
inductive CatchupEvent
  | startup
  /-- It processes a COMMIT, to the end of `process_remote_commit`. -/
  | commit (commitEnd : ℕ)
  /-- It commits, but dies before it has looked at `replay_stop_lsn`. -/
  | commitAndDie (commitEnd : ℕ)
  /-- It dies, by an error, by a signal or as its connection is lost. Its exit hook
  `pgactive_worker_exit` keeps the slot. -/
  | die
  /-- Another worker has got the freed slot, and something stands at the place of the field. -/
  | reuse (lsn : ℕ)

def Catchup.commit (s : Catchup) (commitEnd : ℕ) : Catchup :=
  { s with committed := s.committed ++ [commitEnd] }

def Catchup.stopReplay (s : Catchup) (commitEnd : ℕ) : Catchup :=
  if s.replayStopLsn ≠ 0 ∧ s.replayStopLsn ≤ commitEnd then
    { s with replayStopLsn := 0, phase := .ended }
  else s

def Catchup.start (s : Catchup) : Startup → Catchup
  | .replays => { s with phase := .replaying }
  | .exits => { s with phase := .ended }
  -- pgactive_worker_shmem_free zeroes the slot
  | .unregisters => { s with phase := .ended, replayStopLsn := 0, freed := true }

def Catchup.Receives (s : Catchup) (commitEnd : ℕ) : Prop :=
  s.phase = .replaying ∧ ∀ c ∈ s.committed, c < commitEnd

instance (s : Catchup) (commitEnd : ℕ) : Decidable (s.Receives commitEnd) :=
  inferInstanceAs (Decidable (_ ∧ _))

def Catchup.step (found : StartupState) (s : Catchup) : CatchupEvent → Option Catchup
  | .startup => if s.phase = .launched then some (s.start found.applyMain) else none
  | .commit commitEnd =>
    if s.Receives commitEnd then some ((s.commit commitEnd).stopReplay commitEnd) else none
  | .commitAndDie commitEnd =>
    if s.Receives commitEnd then some { s.commit commitEnd with phase := .ended } else none
  | .die => if s.phase = .ended then none else some { s with phase := .ended }
  | .reuse lsn => if s.freed then some { s with replayStopLsn := lsn } else none

def Catchup.register (targetLsn : ℕ) : Catchup := ⟨.launched, targetLsn, false, []⟩

def Catchup.Reachable (targetLsn : ℕ) (found : StartupState) : Catchup → Prop :=
  Reach (· = .register targetLsn) (step found) fun _ _ => True

/-! ### The parent -/

/-- What the parent sees when it wakes up. -/
structure Glance where
  worker : Catchup
  /-- `CHECK_FOR_INTERRUPTS` raises an error. -/
  interrupted : Bool
  postmasterDied : Bool

/-- How the call ends. -/
inductive CatchupEnd
  | returned
  | raised
  | interrupted
  /-- By `proc_exit`. -/
  | exited
  deriving DecidableEq

/-- One turn of the loops of `WaitForBackgroundWorkerStartup` and `pgactive_catchup_to_lsn`,
with what follows them when the worker has ended. -/
def Glance.turn (g : Glance) : Option CatchupEnd :=
  if g.interrupted then some .interrupted
  else if g.postmasterDied then some .exited
  else if g.worker.phase ≠ .ended then none
  else if g.worker.replayStopLsn ≠ 0 then some .raised
  else some .returned

def catchupToLsn (glances : ℕ → Glance) (fuel : ℕ) : Option (ℕ × CatchupEnd) :=
  poll (fun n => (glances n).turn) fuel 0

/-- The parent sees the worker in the course of a run. -/
structure Observes (targetLsn : ℕ) (found : StartupState) (glances : ℕ → Glance) : Prop where
  first : Catchup.Reachable targetLsn found (glances 0).worker
  next : ∀ n, Reach (· = (glances n).worker) (Catchup.step found) (fun _ _ => True)
    (glances (n + 1)).worker

/-- The worker stops at the first transaction that reaches the target, and the parent returns
only after such a transaction. -/
structure CatchesUp (targetLsn : ℕ) (found : StartupState) : Prop where
  stops : ∀ s commitEnd t, Catchup.Reachable targetLsn found s →
    s.step found (.commit commitEnd) = some t → (t.phase = .ended ↔ targetLsn ≤ commitEnd)
  last : ∀ s, Catchup.Reachable targetLsn found s → ∀ before commitEnd after,
    s.committed = before ++ commitEnd :: after → targetLsn ≤ commitEnd →
      after = [] ∧ s.phase = .ended
  returns : ∀ glances, Observes targetLsn found glances → ∀ fuel n,
    catchupToLsn glances fuel = some (n, .returned) →
      ∃ commitEnd ∈ (glances n).worker.committed, targetLsn ≤ commitEnd
  /-- When the worker has died before, the parent raises an error. -/
  raises : ∀ glances, Observes targetLsn found glances → ∀ n, catchupToLsn glances n = none →
    (glances n).interrupted = false → (glances n).postmasterDied = false →
    (glances n).worker.phase = .ended → (∀ c ∈ (glances n).worker.committed, c < targetLsn) →
      catchupToLsn glances (n + 1) = some (n, .raised)

/-! ### Runs of the worker -/

theorem applyMain_eq_unregisters_iff {found : StartupState} :
    found.applyMain = .unregisters ↔ found.Unregisters := by
  unfold StartupState.applyMain StartupState.Unregisters
  split_ifs <;> simp_all

/-- What holds in every run of a worker that does not unregister itself. -/
structure Catchup.Inv (targetLsn : ℕ) (s : Catchup) : Prop where
  held : s.freed = false
  early : s.phase ≠ .ended → s.replayStopLsn = targetLsn ∧ ∀ c ∈ s.committed, c < targetLsn
  before : ∀ c ∈ s.committed.dropLast, c < targetLsn
  cleared : s.replayStopLsn = 0 → ∃ c ∈ s.committed, targetLsn ≤ c

section Runs

variable {targetLsn commitEnd : ℕ} {found : StartupState} {s t : Catchup}

theorem Catchup.stopReplay_of_le (hstop : s.replayStopLsn ≠ 0)
    (hle : s.replayStopLsn ≤ commitEnd) :
    s.stopReplay commitEnd = { s with replayStopLsn := 0, phase := .ended } :=
  if_pos ⟨hstop, hle⟩

theorem Catchup.stopReplay_of_lt (hlt : commitEnd < s.replayStopLsn) :
    s.stopReplay commitEnd = s := by
  apply if_neg
  omega

section

variable (hi : s.Inv targetLsn)
include hi

theorem Catchup.Inv.ended : { s with phase := .ended }.Inv targetLsn :=
  ⟨hi.held, fun hphase => absurd rfl hphase, hi.before, hi.cleared⟩

theorem Catchup.Inv.startup (hlaunched : s.phase = .launched)
    {startup : Startup} (hstartup : startup ≠ .unregisters) :
    (s.start startup).Inv targetLsn := by
  cases startup with
  | replays =>
    have hearly := hi.early (by simp [hlaunched])
    exact ⟨hi.held, fun _ => hearly, hi.before, hi.cleared⟩
  | exits => exact hi.ended
  | unregisters => exact absurd rfl hstartup

theorem Catchup.Inv.before_commit (hphase : s.phase = .replaying) :
    ∀ c ∈ (s.commit commitEnd).committed.dropLast, c < targetLsn := by
  have hearly := hi.early (by simp [hphase])
  simp only [commit, List.dropLast_concat]
  exact hearly.2

theorem Catchup.Inv.cleared_commit (hzero : (s.commit commitEnd).replayStopLsn = 0) :
    ∃ c ∈ (s.commit commitEnd).committed, targetLsn ≤ c := by
  obtain ⟨c, hc, hle⟩ := hi.cleared hzero
  exact ⟨c, List.mem_append_left _ hc, hle⟩

theorem Catchup.Inv.commit (htarget : targetLsn ≠ 0) (hphase : s.phase = .replaying) :
    ((s.commit commitEnd).stopReplay commitEnd).Inv targetLsn := by
  have hearly := hi.early (by simp [hphase])
  have hstop : (s.commit commitEnd).replayStopLsn = targetLsn := hearly.1
  by_cases hle : targetLsn ≤ commitEnd
  · rw [stopReplay_of_le (by omega) (by omega)]
    refine ⟨hi.held, fun hrun => absurd rfl hrun, hi.before_commit hphase, fun _ => ?_⟩
    exact ⟨commitEnd, List.mem_append_right _ (List.mem_singleton_self _), hle⟩
  · rw [stopReplay_of_lt (by omega)]
    refine ⟨hi.held, fun _ => ⟨hstop, ?_⟩, hi.before_commit hphase, hi.cleared_commit⟩
    intro c hc
    rcases List.mem_append.mp hc with hold | hnew
    · exact hearly.2 c hold
    · rw [List.mem_singleton.mp hnew]
      omega

theorem Catchup.Inv.step (htarget : targetLsn ≠ 0)
    (hfound : found.applyMain ≠ .unregisters) {e : CatchupEvent}
    (hstep : s.step found e = some t) : t.Inv targetLsn := by
  cases e <;> simp only [Catchup.step, Option.ite_none_right_eq_some,
    Option.ite_none_left_eq_some, Option.some.injEq] at hstep <;> obtain ⟨hcan, rfl⟩ := hstep
  case startup => exact hi.startup hcan hfound
  case commit commitEnd => exact hi.commit htarget hcan.1
  case commitAndDie commitEnd =>
    exact ⟨hi.held, fun hrun => absurd rfl hrun, hi.before_commit hcan.1, hi.cleared_commit⟩
  case die => exact hi.ended
  case reuse lsn =>
    rw [hi.held] at hcan
    cases hcan

end

theorem Catchup.Reachable.inv (htarget : targetLsn ≠ 0)
    (hfound : found.applyMain ≠ .unregisters) (hs : s.Reachable targetLsn found) :
    s.Inv targetLsn := by
  apply Reach.invariant _ _ hs
  · rintro _ rfl
    exact ⟨rfl, fun _ => ⟨rfl, by simp [register]⟩, by simp [register],
      fun hzero => absurd hzero htarget⟩
  · intro s e t _ hi _ hstep
    exact hi.step htarget hfound hstep

theorem Catchup.Reachable.trans (hs : s.Reachable targetLsn found)
    (ht : Reach (· = s) (step found) (fun _ _ => True) t) :
    t.Reachable targetLsn found := by
  induction ht with
  | init heq => exact heq ▸ hs
  | step _ _ hstep ih => exact .step ih trivial hstep

end Runs

/-! ### What the parent makes of it -/

section Parent

variable {targetLsn : ℕ} {found : StartupState} {glances : ℕ → Glance} {g : Glance}

theorem Observes.reachable (h : Observes targetLsn found glances) (n : ℕ) :
    (glances n).worker.Reachable targetLsn found := by
  induction n with
  | zero => exact h.first
  | succ n ih => exact ih.trans (h.next n)

theorem Glance.turn_eq_returned (h : g.turn = some .returned) :
    g.worker.phase = .ended ∧ g.worker.replayStopLsn = 0 := by
  unfold turn at h
  split_ifs at h <;> simp_all

theorem Glance.turn_of_ended (hinterrupted : g.interrupted = false)
    (hpostmaster : g.postmasterDied = false) (hended : g.worker.phase = .ended) :
    g.turn = some (if g.worker.replayStopLsn ≠ 0 then .raised else .returned) := by
  unfold turn
  rw [if_neg (by simp [hinterrupted]), if_neg (by simp [hpostmaster]), if_neg (by simp [hended])]
  split_ifs <;> rfl

theorem not_catchesUp_of_cleared {s : Catchup} (hs : s.Reachable targetLsn found)
    (hended : s.phase = .ended) (hcleared : s.replayStopLsn = 0) (hnone : s.committed = []) :
    ¬CatchesUp targetLsn found := by
  intro hcatches
  have hobserves : Observes targetLsn found fun _ => ⟨s, false, false⟩ :=
    ⟨hs, fun _ => .init rfl⟩
  have hturn : Glance.turn ⟨s, false, false⟩ = some .returned := by
    rw [Glance.turn_of_ended rfl rfl hended, if_neg (by simp [hcleared])]
  have hreturned : catchupToLsn (fun _ => ⟨s, false, false⟩) 1 = some (0, .returned) := by
    simp [catchupToLsn, poll, hturn]
  obtain ⟨c, hc, -⟩ := hcatches.returns _ hobserves 1 0 hreturned
  simp [hnone] at hc

theorem not_catchesUp_zero : ¬CatchesUp 0 found := by
  have hdies : Catchup.Reachable 0 found ⟨.ended, 0, false, []⟩ :=
    .step (.init rfl) trivial (a := .die) rfl
  exact not_catchesUp_of_cleared hdies rfl rfl rfl

theorem not_catchesUp_of_unregisters (h : found.applyMain = .unregisters) :
    ¬CatchesUp targetLsn found := by
  have hstart : Catchup.step found (.register targetLsn) .startup =
      some ⟨.ended, 0, true, []⟩ := by
    simp [Catchup.step, Catchup.register, Catchup.start, h]
  exact not_catchesUp_of_cleared (.step (.init rfl) trivial hstart) rfl rfl rfl

theorem Catchup.Inv.stops {s : Catchup} (h : s.Inv targetLsn) {before after : List ℕ}
    {commitEnd : ℕ} (heq : s.committed = before ++ commitEnd :: after)
    (hle : targetLsn ≤ commitEnd) : after = [] ∧ s.phase = .ended := by
  constructor
  · by_contra hafter
    have hmem : commitEnd ∈ s.committed.dropLast := by
      rw [heq, List.dropLast_append_of_ne_nil (List.cons_ne_nil _ _),
        List.dropLast_cons_of_ne_nil hafter]
      simp
    have hlt := h.before _ hmem
    omega
  · by_contra hrunning
    have hlt := (h.early hrunning).2 commitEnd (by simp [heq])
    omega

/-- **Catching up.** A catchup worker stops right after the first transaction that reaches the
target, and its parent returns only after such a transaction, if and only if the target is a
valid position and the worker does not unregister itself when it starts. -/
theorem catchesUp_iff :
    CatchesUp targetLsn found ↔ targetLsn ≠ 0 ∧ ¬found.Unregisters := by
  rw [← applyMain_eq_unregisters_iff]
  constructor
  · intro hcatches
    constructor
    · rintro rfl
      exact not_catchesUp_zero hcatches
    · intro hunregisters
      exact not_catchesUp_of_unregisters hunregisters hcatches
  · rintro ⟨htarget, hfound⟩
    constructor
    · intro s commitEnd t hs hstep
      simp only [Catchup.step, Option.ite_none_right_eq_some, Option.some.injEq] at hstep
      obtain ⟨⟨hphase, -⟩, rfl⟩ := hstep
      have hstop : (s.commit commitEnd).replayStopLsn = targetLsn :=
        ((hs.inv htarget hfound).early (by simp [hphase])).1
      by_cases hle : targetLsn ≤ commitEnd
      · simp [Catchup.stopReplay_of_le (hstop ▸ htarget) (hstop ▸ hle), hle]
      · rw [Catchup.stopReplay_of_lt (by omega)]
        simp [Catchup.commit, hphase, hle]
    · intro s hs before commitEnd after heq hle
      exact (hs.inv htarget hfound).stops heq hle
    · intro glances hobserves fuel n hreturned
      have hturn := Glance.turn_eq_returned (poll_eq_none_of_some hreturned).2
      exact ((hobserves.reachable n).inv htarget hfound).cleared hturn.2
    · intro glances hobserves n hwaits hinterrupted hpostmaster hended hearly
      have hstop : (glances n).worker.replayStopLsn ≠ 0 := by
        intro hzero
        obtain ⟨c, hc, hle⟩ := ((hobserves.reachable n).inv htarget hfound).cleared hzero
        have hlt := hearly c hc
        omega
      rw [catchupToLsn, poll_succ_of_none hwaits,
        Glance.turn_of_ended hinterrupted hpostmaster hended, if_pos hstop, Option.map_some]

end Parent

def detachedPeer : StartupState where
  sameGeneration := true
  schemaPresent := true
  extensionPresent := true
  nidGetterPresent := true
  localStatus := some .catchup
  managementPaused := false
  remoteStatus := some .killed

/-- The worker that is to catch up with a detached peer unregisters itself. It has committed
nothing, and the parent returns as if it had caught up. -/
theorem catchupToLsn_detachedPeer :
    (Catchup.register 100).step detachedPeer .startup = some ⟨.ended, 0, true, []⟩ ∧
      catchupToLsn (fun _ => ⟨⟨.ended, 0, true, []⟩, false, false⟩) 1 = some (0, .returned) ∧
      ¬CatchesUp 100 detachedPeer := by
  have hstart : (Catchup.register 100).step detachedPeer .startup =
      some ⟨.ended, 0, true, []⟩ := by decide
  have hreach : Catchup.Reachable 100 detachedPeer ⟨.ended, 0, true, []⟩ :=
    .step (.init rfl) trivial hstart
  exact ⟨hstart, by decide, not_catchesUp_of_cleared hreach rfl rfl rfl⟩

end Pgactive.Replica
