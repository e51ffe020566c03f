import Pgactive.Polling
import Pgactive.Workers.Slots
import Mathlib.Algebra.GroupWithZero.Nat

/-!
# Waiting for the inbound slots

`pgactive_init_wait_for_slot_creation` counts the walsenders of all peers in one number and compares
that with the number of peers, so a peer that has two walsenders can stand in for one that has none,
or keep the wait from ending.
-/

namespace Pgactive.Replica

open Polling Workers

variable {δ ν : Type} [DecidableEq δ] [DecidableEq ν]

/-- The fields of a `pgactiveWorker` that the wait looks at. -/
structure ScannedWorker (δ ν : Type) where
  workerType : WorkerType
  /-- `data.walsnd.remote_node`, of a walsender. -/
  remoteNode : ν
  /-- The `databaseId` of `worker_proc`, `none` if there is no process. -/
  procDatabase : Option δ

def ScannedWorker.connected (myDatabase : δ) (peer : ν) (w : ScannedWorker δ ν) : Bool :=
  w.workerType = .walsender && peer = w.remoteNode && w.procDatabase = some myDatabase

def inboundSlots (myDatabase : δ) (peer : ν) (slots : List (ScannedWorker δ ν)) : ℕ :=
  slots.countP (ScannedWorker.connected myDatabase peer)

/-- What a scan sees. The lock is taken once for each configuration, so the slots may change
from one to the next. -/
abbrev View (δ ν : Type) := ℕ → List (ScannedWorker δ ν)

def scanConfigs (myDatabase : δ) (myid : ν) (view : View δ ν) : ℕ → ℕ → List ν → ℕ
  | _, found, [] => found
  | k, found, cfg :: rest =>
    if cfg = myid then scanConfigs myDatabase myid view (k + 1) found rest
    else scanConfigs myDatabase myid view (k + 1)
      (found + inboundSlots myDatabase cfg (view k)) rest

/-- How the wait ends. -/
inductive WaitEnd
  | returned
  | interrupted
  deriving DecidableEq

def scanTurn (myDatabase : δ) (myid : ν) (configs : List ν) (view : View δ ν)
    (interrupted : Bool) : Option WaitEnd :=
  if scanConfigs myDatabase myid view 0 0 configs = configs.length then some .returned
  else if interrupted then some .interrupted
  else none

/-- The configurations that `pgactive_init_wait_for_slot_creation` goes through: the first one
of the own node is deleted. -/
def expectedConfigs (myid : ν) (configs : List ν) : List ν := configs.erase myid

/-- `pgactive_init_wait_for_slot_creation`, for at most `fuel` scans. -/
def waitForSlotCreation (myDatabase : δ) (myid : ν) (configs : List ν) (views : ℕ → View δ ν)
    (interrupts : ℕ → Bool) (fuel : ℕ) : Option (ℕ × WaitEnd) :=
  poll (fun n => scanTurn myDatabase myid (expectedConfigs myid configs) (views n) (interrupts n))
    fuel 0

def AllConnected (myDatabase : δ) (myid : ν) (configs : List ν) (view : View δ ν) : Prop :=
  ∀ k peer, (expectedConfigs myid configs)[k]? = some peer → peer ≠ myid →
    ∃ w ∈ view k, w.connected myDatabase peer = true

/-- The wait is over at the scans at which all peers are connected, and at no others. -/
structure WaitsForEachPeer (myDatabase : δ) (myid : ν) (configs : List ν) (views : ℕ → View δ ν)
    (interrupts : ℕ → Bool) : Prop where
  only : ∀ fuel n, waitForSlotCreation myDatabase myid configs views interrupts fuel =
    some (n, .returned) → AllConnected myDatabase myid configs (views n)
  returns : ∀ n, waitForSlotCreation myDatabase myid configs views interrupts n = none →
    AllConnected myDatabase myid configs (views n) →
    waitForSlotCreation myDatabase myid configs views interrupts (n + 1) = some (n, .returned)

/-! ### What a scan counts -/

/-- The numbers of walsenders of the peers other than the own node, from position `k` on. -/
def peerCounts (myDatabase : δ) (myid : ν) (view : View δ ν) : ℕ → List ν → List ℕ
  | _, [] => []
  | k, cfg :: rest =>
    if cfg = myid then peerCounts myDatabase myid view (k + 1) rest
    else inboundSlots myDatabase cfg (view k) :: peerCounts myDatabase myid view (k + 1) rest

def missing (counts : List ℕ) : ℕ := counts.countP (· = 0)

def surplus (counts : List ℕ) : ℕ := (counts.map (· - 1)).sum

/-- The scan counts right: either no peer is missing, and there are as many surplus walsenders
as the list still mentions the own node, or some are missing and the surplus does not make
up for them. -/
def Balanced (myDatabase : δ) (myid : ν) (configs : List ν) (view : View δ ν) : Prop :=
  let counts := peerCounts myDatabase myid view 0 (expectedConfigs myid configs)
  let own := (expectedConfigs myid configs).count myid
  (missing counts = 0 → surplus counts = own) ∧
    (missing counts ≠ 0 → surplus counts ≠ missing counts + own)

theorem sum_add_missing (counts : List ℕ) :
    counts.sum + missing counts = counts.length + surplus counts := by
  induction counts with
  | nil => rfl
  | cons c counts ih =>
    simp only [missing, surplus] at ih
    simp only [missing, surplus, List.sum_cons, List.map_cons, List.length_cons, List.countP_cons,
      decide_eq_true_eq]
    split_ifs with hc <;> omega

section Scan

variable {myDatabase : δ} {myid : ν} {view : View δ ν} {configs : List ν}

theorem scanConfigs_eq (k found : ℕ) (configs : List ν) :
    scanConfigs myDatabase myid view k found configs =
      found + (peerCounts myDatabase myid view k configs).sum := by
  induction configs generalizing k found with
  | nil => simp [scanConfigs, peerCounts]
  | cons cfg rest ih =>
    simp only [scanConfigs, peerCounts]
    split_ifs with hown
    · exact ih (k + 1) found
    · rw [ih (k + 1), List.sum_cons]
      omega

theorem length_peerCounts (k : ℕ) (configs : List ν) :
    (peerCounts myDatabase myid view k configs).length + configs.count myid = configs.length := by
  induction configs generalizing k with
  | nil => rfl
  | cons cfg rest ih =>
    have htail := ih (k + 1)
    simp only [peerCounts, List.count_cons, List.length_cons, beq_iff_eq]
    split_ifs with hown
    · omega
    · rw [List.length_cons]
      omega

theorem missing_peerCounts_eq_zero_iff (k : ℕ) (configs : List ν) :
    missing (peerCounts myDatabase myid view k configs) = 0 ↔
      ∀ i peer, configs[i]? = some peer → peer ≠ myid →
        ∃ w ∈ view (k + i), w.connected myDatabase peer = true := by
  induction configs generalizing k with
  | nil => simp [missing, peerCounts]
  | cons cfg rest ih =>
    have htail : (∀ i peer, rest[i]? = some peer → peer ≠ myid →
        ∃ w ∈ view (k + 1 + i), w.connected myDatabase peer = true) ↔
        ∀ i peer, (cfg :: rest)[i + 1]? = some peer → peer ≠ myid →
          ∃ w ∈ view (k + (i + 1)), w.connected myDatabase peer = true := by
      simp only [List.getElem?_cons_succ, Nat.add_assoc, Nat.add_comm 1]
    have hhead : (∃ w ∈ view k, w.connected myDatabase cfg = true) ↔
        inboundSlots myDatabase cfg (view k) ≠ 0 := by
      rw [inboundSlots, ← Nat.pos_iff_ne_zero, List.countP_pos_iff]
    rw [← Nat.and_forall_add_one, ← htail, ← ih (k + 1)]
    simp only [List.getElem?_cons_zero, Option.some.injEq, Nat.add_zero, forall_eq', peerCounts]
    split_ifs with hown
    · simp [hown]
    · rw [hhead, missing, List.countP_cons]
      simp only [missing, hown, ne_eq, not_false_eq_true, forall_true_left, decide_eq_true_eq]
      split_ifs with hzero <;> simp [hzero]

theorem allConnected_iff : AllConnected myDatabase myid configs view ↔
    missing (peerCounts myDatabase myid view 0 (expectedConfigs myid configs)) = 0 := by
  rw [missing_peerCounts_eq_zero_iff]
  simp only [Nat.zero_add, AllConnected]

theorem scan_right_iff :
    (scanConfigs myDatabase myid view 0 0 (expectedConfigs myid configs) =
        (expectedConfigs myid configs).length ↔ AllConnected myDatabase myid configs view) ↔
      Balanced myDatabase myid configs view := by
  have hsum := sum_add_missing (peerCounts myDatabase myid view 0 (expectedConfigs myid configs))
  have hlen : (peerCounts myDatabase myid view 0 (expectedConfigs myid configs)).length +
      (expectedConfigs myid configs).count myid = (expectedConfigs myid configs).length :=
    length_peerCounts 0 _
  rw [allConnected_iff, scanConfigs_eq]
  simp only [Balanced]
  constructor
  · intro hright
    constructor
    · intro hzero
      have hall := hright.mpr hzero
      omega
    · intro hsome hequal
      apply hsome
      apply hright.mp
      omega
  · rintro ⟨hzero, hsome⟩
    constructor
    · intro hfound
      by_contra hmissing
      apply hsome hmissing
      omega
    · intro hmissing
      have hown := hzero hmissing
      omega

end Scan

section Wait

variable {myDatabase : δ} {myid : ν} {configs : List ν} {views : ℕ → View δ ν}
variable {interrupts : ℕ → Bool}

theorem scanTurn_eq_returned_iff {view : View δ ν} {interrupted : Bool} :
    scanTurn myDatabase myid configs view interrupted = some .returned ↔
      scanConfigs myDatabase myid view 0 0 configs = configs.length := by
  unfold scanTurn
  split_ifs with hfound <;> simp [hfound]

/-- **The wait for inbound slots.** It ends at the scans at which every listed peer has a
connected walsender, and at no others, if and only if every scan that it makes counts
right. -/
theorem waitForSlotCreation_iff :
    WaitsForEachPeer myDatabase myid configs views interrupts ↔
      ∀ n, waitForSlotCreation myDatabase myid configs views interrupts n = none →
        Balanced myDatabase myid configs (views n) := by
  constructor
  · intro hwaits n hmade
    apply scan_right_iff.mp
    constructor
    · intro hfound
      apply hwaits.only (n + 1)
      rw [waitForSlotCreation, poll_succ_of_none hmade,
        scanTurn_eq_returned_iff.mpr hfound, Option.map_some]
    · intro hall
      have hreturn := hwaits.returns n hmade hall
      rw [waitForSlotCreation] at hreturn
      exact scanTurn_eq_returned_iff.mp (poll_eq_none_of_some hreturn).2
  · intro hbalanced
    constructor
    · intro fuel n hreturn
      obtain ⟨hmade, hturn⟩ := poll_eq_none_of_some hreturn
      have hright := scan_right_iff.mpr (hbalanced n hmade)
      exact hright.mp (scanTurn_eq_returned_iff.mp hturn)
    · intro n hmade hall
      have hright := scan_right_iff.mpr (hbalanced n hmade)
      rw [waitForSlotCreation, poll_succ_of_none hmade,
        scanTurn_eq_returned_iff.mpr (hright.mpr hall), Option.map_some]

end Wait

def walsenderFor (peer : ℕ) : ScannedWorker ℕ ℕ := ⟨.walsender, peer, some 5⟩

/-- The node 0 waits for the nodes 1 and 2. When the node 1 has two walsenders, the wait is
over although the node 2 has none; once that one has connected as well, it never ends. -/
theorem waitForSlotCreation_two_walsenders :
    (waitForSlotCreation 5 0 [0, 1, 2] (fun _ _ => [walsenderFor 1, walsenderFor 1])
        (fun _ => false) 1 = some (0, .returned) ∧
      ¬AllConnected 5 0 [0, 1, 2] fun _ => [walsenderFor 1, walsenderFor 1]) ∧
    (AllConnected 5 0 [0, 1, 2] fun _ => [walsenderFor 1, walsenderFor 1, walsenderFor 2]) ∧
      ∀ fuel, waitForSlotCreation 5 0 [0, 1, 2]
        (fun _ _ => [walsenderFor 1, walsenderFor 1, walsenderFor 2]) (fun _ => false) fuel =
          none := by
  refine ⟨⟨by decide, ?_⟩, ?_, ?_⟩
  · rw [allConnected_iff]
    decide
  · rw [allConnected_iff]
    decide
  · intro fuel
    rw [waitForSlotCreation, poll_eq_none_iff]
    intro m _ _
    decide

end Pgactive.Replica
