import Pgactive.Transition
import Pgactive.BroadcastLog
import Mathlib.Order.Lattice.Nat

/-!
# Joining and leaving the group

Each node has its own copy of `pgactive_nodes`. A joining node counts the rows of its target, copies
them with the insertion of its own row there, and ends with an update of that row, which picks its
`node_seq_id`. Changes are replicated in the order of their origin; which of two conflicting
versions survives is left open. A node that comes back is a new node.
-/

namespace Pgactive.Membership

open BroadcastLog Transition

variable {ν : Type}

inductive NodeStatus
  | beginningInit
  | copyingInitialData
  | catchup
  | creatingOutboundSlots
  | ready
  | killed
deriving DecidableEq, Repr

/-- A row of `pgactive_nodes`. -/
structure NodeRow where
  /-- Column `node_status`. -/
  status : NodeStatus
  /-- Column `node_seq_id`. -/
  seqId : Option ℕ
deriving DecidableEq

def Table (ν : Type) := ν → Option NodeRow

/-- A replicated change of `pgactive_nodes`. -/
structure RowChange (ν : Type) where
  node : ν
  row : NodeRow
  isInsert : Bool
deriving DecidableEq

/-- How far a node has come with `pgactive_join_group` and `pgactive_init_replica`. -/
inductive Stage (ν : Type)
  | outside
  /-- `_pgactive_begin_join_private` has passed its checks. -/
  | begun (target : ν) (curNodes : ℕ)
  /-- The slot on the target exists, and the dump is being restored. -/
  | copying (target : ν) (curNodes : ℕ)
  /-- `pgactive_sync_nodes` has run. -/
  | synced (target : ν)
  /-- The row of the node is ready on its target. -/
  | finished
deriving DecidableEq

/-- The nodes and their copies of the table. -/
structure Group (ν : Type) where
  /-- The changes that each node replicates, and how far the others have replayed them. -/
  net : Net ν (RowChange ν)
  /-- The copies of `pgactive_nodes`. -/
  table : ν → Table ν
  stage : ν → Stage ν
  /-- `slot i p`: node `i` has a slot on `p`, or gets the changes of `p` in catchup mode. -/
  slot : ν → ν → Bool

/-- What all nodes have in common. -/
structure Config (ν : Type) where
  maxNodes : ℕ
  skipDdlReplication : Bool
  /-- Whether a node gets the global DDL lock, as the lock protocol decides. -/
  grantsDdlLock : Group ν → ν → Bool

/-- A step of the group. -/
inductive Action (ν : Type)
  /-- `pgactive_join_group` on `j` with the target `t`. -/
  | beginJoin (j t : ν)
  /-- `pgactive_init_replica` on `j` creates the slot on the target. -/
  | establishSlot (j : ν)
  /-- `pgactive_sync_nodes` on `j`. -/
  | syncNodes (j : ν)
  /-- `pgactive_nodes_set_remote_status_ready` on `j`. -/
  | setRemoteStatusReady (j : ν)
  /-- `pgactive_detach_nodes` on `u`. -/
  | detachNodes (u n : ν)
  /-- Node `i` creates a slot on `p`, of which it has learned. -/
  | connectBack (i p : ν)
  /-- Node `p` drops the slot of the detached node `i`. -/
  | dropSlot (p i : ν)
  /-- Node `i` replays the next change of `p`. The flag tells who wins a conflict. -/
  | replay (i p : ν) (wins : Bool)

def Stage.member : Stage ν → Bool
  | .synced _ | .finished => true
  | _ => false

/-- The node that a joining node copies its data from. -/
def Stage.target : Stage ν → Option ν
  | .begun t _ | .copying t _ | .synced t => some t
  | _ => none

/-- Whether a row counts in `max_nodes` and in the choice of a sequence identifier. -/
def NodeRow.live (row : NodeRow) : Bool := row.status ≠ .killed

def Table.live (tbl : Table ν) (n : ν) : Bool := (tbl n).any NodeRow.live

def Config.acquireGlobalLock (cfg : Config ν) (s : Group ν) (t : ν) : Bool :=
  cfg.skipDdlReplication || cfg.grantsDdlLock s t

/-- The largest value of `node_seq_id`, a column of type smallint. -/
def maxSeqId : ℕ := 32767

def joinThrough (a b : ν) : List (Action ν) :=
  [.beginJoin b a, .establishSlot b, .syncNodes b, .connectBack a b, .setRemoteStatusReady b,
    .replay b a true, .replay b a true]

section

variable [DecidableEq ν]

def Table.set (tbl : Table ν) (n : ν) (row : NodeRow) : Table ν :=
  Function.update tbl n (some row)

def Table.replay (tbl : Table ν) (c : RowChange ν) (wins : Bool) : Table ν :=
  match tbl c.node with
  | none => if c.isInsert then tbl.set c.node c.row else tbl
  | some _ => if wins then tbl.set c.node c.row else tbl

/-- What `pgactive_sync_nodes` copies to the joining node `j`: the trigger
`pgactive_handle_rejoin` drops the killed rows. -/
def Table.copyTo (target own : Table ν) (j : ν) : Table ν :=
  fun n => if n = j then own n else (target n).filter NodeRow.live

variable (s : Group ν)

def Group.setTable (i : ν) (tbl : Table ν) : Group ν :=
  { s with table := Function.update s.table i tbl }

def Group.commit (t : ν) (c : RowChange ν) : Group ν :=
  { s.setTable t ((s.table t).set c.node c.row) with net := s.net.append t [c] }

def Group.setStage (j : ν) (stage : Stage ν) : Group ν :=
  { s with stage := Function.update s.stage j stage }

/-- The first part of `pgactive_init_replica`: the slot on the target `t` and the snapshot for
the dump. From here on the catchup gives `j` what the target has not replayed yet. -/
def Group.takeSlot (j t : ν) : Group ν :=
  { s with
    net := ⟨s.net.log, Function.update s.net.pos j
      (Function.update (s.net.pos t) t (s.net.log t).length)⟩
    slot := Function.update s.slot j (Function.update (s.slot t) t true) }

def Group.establishSlot (j : ν) : Option (Group ν) :=
  match s.stage j, s.table j j with
  | .begun t curNodes, some row =>
    if row.status = .beginningInit then
      some (((s.setTable j ((s.table j).set j { row with status := .copyingInitialData })).takeSlot
        j t).setStage j (.copying t curNodes))
    else none
  | _, _ => none

def Group.syncNodes (j : ν) : Option (Group ν) :=
  match s.stage j, s.table j j with
  | .copying t _, some row =>
    if row.status = .copyingInitialData ∧ s.table t j = none ∧ t ≠ j then
      some (((s.setTable j ((s.table t).copyTo (s.table j) j)).commit t ⟨j, row, true⟩).setStage j
        (.synced t))
    else none
  | _, _ => none

def Group.setSlot (i p : ν) (held : Bool) : Group ν :=
  { s with slot := Function.update s.slot i (Function.update (s.slot i) p held) }

def Group.connectBack (i p : ν) : Option (Group ν) :=
  if s.slot i p = false ∧ (s.table i).live p = true then
    some ({ s with net := s.net.seek i p (s.net.log p).length }.setSlot i p true)
  else none

def Group.dropSlot (p i : ν) : Option (Group ν) :=
  if (s.table p i).any (fun row => row.status = .killed) then
    some (s.setSlot i p false)
  else none

def Group.replay (i p : ν) (wins : Bool) : Option (Group ν) := do
  guard (i ≠ p ∧ s.slot i p = true ∧ (s.stage i).member = true)
  let c ← s.net.next i p
  return { s.setTable i ((s.table i).replay c wins) with net := s.net.advance i p }

variable {s s' : Group ν} {j : ν}

theorem Group.establishSlot_cases (h : s.establishSlot j = some s') :
    ∃ t curNodes row, s.stage j = .begun t curNodes ∧ s.table j j = some row ∧
      s' = ((s.setTable j ((s.table j).set j { row with status := .copyingInitialData })).takeSlot
        j t).setStage j (.copying t curNodes) := by
  unfold establishSlot at h
  split at h
  · next t curNodes row hstage hrow =>
    split_ifs at h
    exact ⟨t, curNodes, row, hstage, hrow, (Option.some.inj h).symm⟩
  · cases h

theorem Group.syncNodes_cases (h : s.syncNodes j = some s') :
    ∃ t curNodes row, s.stage j = .copying t curNodes ∧ s.table j j = some row ∧
      row.status = .copyingInitialData ∧ s.table t j = none ∧ t ≠ j ∧
      s' = ((s.setTable j ((s.table t).copyTo (s.table j) j)).commit t ⟨j, row, true⟩).setStage j
        (.synced t) := by
  unfold syncNodes at h
  split at h
  · next t curNodes row hstage hrow =>
    split_ifs at h with hguard
    exact ⟨t, curNodes, row, hstage, hrow, hguard.1, hguard.2.1, hguard.2.2,
      (Option.some.inj h).symm⟩
  · cases h

variable {i p : ν}

theorem Group.connectBack_cases (h : s.connectBack i p = some s') :
    s' = { s with net := s.net.seek i p (s.net.log p).length }.setSlot i p true := by
  unfold connectBack at h
  split_ifs at h
  exact (Option.some.inj h).symm

theorem Group.dropSlot_cases (h : s.dropSlot p i = some s') : s' = s.setSlot i p false := by
  unfold dropSlot at h
  split_ifs at h
  exact (Option.some.inj h).symm

theorem Group.replay_cases {wins : Bool} (h : s.replay i p wins = some s') :
    i ≠ p ∧ s.slot i p = true ∧ (s.stage i).member = true ∧ ∃ c, s.net.next i p = some c ∧
      s' = { s.setTable i ((s.table i).replay c wins) with net := s.net.advance i p } := by
  simp only [replay, Option.bind_eq_bind, Option.bind_eq_some_iff, Option.guard_eq_some',
    Option.pure_def, Option.some.injEq, exists_const] at h
  obtain ⟨⟨hip, hslot, hmember⟩, c, hc, rfl⟩ := h
  exact ⟨hip, hslot, hmember, c, hc, rfl⟩

theorem Table.replay_cases (tbl : Table ν) (c : RowChange ν) (wins : Bool) :
    tbl.replay c wins = tbl ∨ tbl.replay c wins = tbl.set c.node c.row := by
  unfold replay
  split
  · split_ifs
    · exact .inr rfl
    · exact .inl rfl
  · split_ifs
    · exact .inr rfl
    · exact .inl rfl

@[simp] theorem Table.set_self (tbl : Table ν) (n : ν) (row : NodeRow) :
    tbl.set n row n = some row := Function.update_self ..

variable {k : ν}

theorem Table.set_of_ne (tbl : Table ν) {n : ν} (h : k ≠ n) (row : NodeRow) :
    tbl.set n row k = tbl k := Function.update_of_ne h ..

@[simp] theorem Group.setTable_self (s : Group ν) (i : ν) (tbl : Table ν) :
    (s.setTable i tbl).table i = tbl := by simp [setTable]

theorem Group.setTable_of_ne (s : Group ν) (h : k ≠ i) (tbl : Table ν) :
    (s.setTable i tbl).table k = s.table k := by simp [setTable, h]

@[simp] theorem Group.commit_table_self (s : Group ν) (t : ν) (c : RowChange ν) :
    (s.commit t c).table t = (s.table t).set c.node c.row := by simp [commit]

variable {t : ν}

theorem Group.commit_table_of_ne (s : Group ν) (h : k ≠ t) (c : RowChange ν) :
    (s.commit t c).table k = s.table k := by simp [commit, setTable, h]

@[simp] theorem Group.setSlot_self (s : Group ν) (i p : ν) (held : Bool) :
    (s.setSlot i p held).slot i p = held := by simp [setSlot]

theorem Group.setSlot_of_ne (s : Group ν) {q : ν} (h : k ≠ i ∨ q ≠ p) (held : Bool) :
    (s.setSlot i p held).slot k q = s.slot k q := by
  by_cases hk : k = i
  · subst hk
    simp [setSlot, h.resolve_left (by simp)]
  · simp [setSlot, hk]

@[simp] theorem Group.setStage_self (s : Group ν) (j : ν) (stage : Stage ν) :
    (s.setStage j stage).stage j = stage := by simp [setStage]

theorem Group.setStage_of_ne (s : Group ν) (h : k ≠ j) (stage : Stage ν) :
    (s.setStage j stage).stage k = s.stage k := by simp [setStage, h]

theorem Group.member_of_setStage {stage : Stage ν}
    (hstage : stage.member = true → (s.stage j).member = true)
    (hi : ((s.setStage j stage).stage i).member = true) : (s.stage i).member = true := by
  by_cases hij : i = j
  · subst hij
    rw [s.setStage_self] at hi
    exact hstage hi
  · rwa [s.setStage_of_ne hij] at hi

/-- A group of one node, `pgactive_init_standalone_node`. -/
def Group.standalone (f : ν) : Group ν where
  net := Net.empty
  table := fun i n => if i = f ∧ n = f then some ⟨.ready, some 1⟩ else none
  stage := fun i => if i = f then .finished else .outside
  slot := fun _ _ => false

/-- What the tables hold by the stages of the nodes. -/
structure Group.Staged (s : Group ν) : Prop where
  /-- Before it has synchronized, a node has no row but its own, and that one is not ready. -/
  alone : ∀ i n row, (s.stage i).member = false → s.table i n = some row →
    n = i ∧ row.status ≠ .ready ∧ row.seqId = none
  target : ∀ j t, (s.stage j).target = some t → (s.stage t).member = true

omit [DecidableEq ν] in
theorem Group.Staged.member_of_ready (h : s.Staged) {row : NodeRow}
    (hrow : s.table t t = some row) (hready : row.status = .ready) : (s.stage t).member = true := by
  by_contra hmember
  exact (h.alone t t row (Bool.eq_false_iff.mpr hmember) hrow).2.1 hready

theorem Group.Staged.setStage (h : s.Staged) {stage : Stage ν}
    (hmember : (s.stage j).member = true → stage.member = true)
    (htarget : ∀ t, stage.target = some t → (s.stage t).member = true) :
    (s.setStage j stage).Staged := by
  -- No node stops being a member.
  have hmono : ∀ k, (s.stage k).member = true → ((s.setStage j stage).stage k).member = true := by
    intro k hk
    by_cases hkj : k = j
    · subst hkj
      rw [s.setStage_self]
      exact hmember hk
    · rwa [s.setStage_of_ne hkj]
  refine ⟨fun i n row hi hrow => h.alone i n row ?_ hrow, fun k t hk => hmono t ?_⟩
  · by_contra hold
    rw [hmono i (by simpa using hold)] at hi
    cases hi
  · by_cases hkj : k = j
    · subst hkj
      rw [s.setStage_self] at hk
      exact htarget t hk
    · rw [s.setStage_of_ne hkj] at hk
      exact h.target k t hk

theorem Group.Staged.setTable (h : s.Staged) {tbl : Table ν}
    (hrows : (s.stage i).member = false → ∀ n row, tbl n = some row →
      n = i ∧ row.status ≠ .ready ∧ row.seqId = none) : (s.setTable i tbl).Staged := by
  refine ⟨fun k n row hk hrow => ?_, h.target⟩
  by_cases hki : k = i
  · subst hki
    rw [s.setTable_self] at hrow
    exact hrows hk n row hrow
  · rw [s.setTable_of_ne hki] at hrow
    exact h.alone k n row hk hrow

theorem Group.Staged.commit (h : s.Staged) (ht : (s.stage t).member = true) (c : RowChange ν) :
    (s.commit t c).Staged := by
  have htable : (s.setTable t ((s.table t).set c.node c.row)).Staged :=
    h.setTable fun hnot => by rw [ht] at hnot; cases hnot
  exact ⟨htable.alone, htable.target⟩

theorem Group.Staged.setOwn (h : s.Staged) {row : NodeRow} (hready : row.status ≠ .ready)
    (hid : (s.stage j).member = false → row.seqId = none) :
    (s.setTable j ((s.table j).set j row)).Staged := by
  refine h.setTable fun hj n row' hrow => ?_
  by_cases hn : n = j
  · subst hn
    rw [Table.set_self] at hrow
    cases hrow
    exact ⟨rfl, hready, hid hj⟩
  · rw [Table.set_of_ne _ hn] at hrow
    exact h.alone j n row' hj hrow

theorem Group.standalone_staged (f : ν) : (standalone f).Staged := by
  refine ⟨fun i n row hi hrow => ?_, fun j t ht => ?_⟩
  · by_cases hif : i = f
    · simp [standalone, hif, Stage.member] at hi
    · simp [standalone, hif] at hrow
  · by_cases hjf : j = f <;> simp [standalone, hjf, Stage.target] at ht

variable [Fintype ν]

/-- The nodes that are not killed, as `pgactive_get_remote_nodeinfo_internal` counts them. -/
def Table.liveNodes (tbl : Table ν) : Finset ν := Finset.univ.filter fun n => tbl.live n = true

/-- The largest `node_seq_id` of the rows selected by `p`, zero without any. -/
def Table.maxSeqId (tbl : Table ν) (p : NodeRow → Bool) : ℕ :=
  Finset.univ.sup fun n => (((tbl n).filter p).bind NodeRow.seqId).getD 0

/-- Whether a row that is not killed has this `node_seq_id`. -/
def Table.usesSeqId (tbl : Table ν) (x : ℕ) : Bool :=
  decide (∃ n, (tbl n).any fun row => row.live && decide (row.seqId = some x))

/-- The identifier that `pgactive_nodes_set_remote_status_ready` selects: the lowest one that
has been released, otherwise the next greatest. -/
def Table.freeSeqId (tbl : Table ν) : ℕ :=
  ((List.range' 1 (tbl.maxSeqId fun _ => true)).find? fun x => !tbl.usesSeqId x).getD
    (tbl.maxSeqId NodeRow.live + 1)

/-- `_pgactive_begin_join_private` with a remote node. The joining node and its target have
the same settings. -/
def Group.beginJoin (cfg : Config ν) (s : Group ν) (j t : ν) : Option (Group ν) :=
  if s.stage j = .outside ∧ (s.table t t).any (fun row => row.status = .ready) then
    let curNodes := (s.table t).liveNodes.card
    -- "cannot allow more than pgactive.max_nodes number of nodes in a pgactive group"
    if cfg.maxNodes = curNodes then none
    else some ((s.setTable j ((s.table j).set j ⟨.beginningInit, none⟩)).setStage j
      (.begun t curNodes))
  else none

/-- `pgactive_nodes_set_remote_status_ready` on `j`. -/
def Group.setRemoteStatusReady (cfg : Config ν) (s : Group ν) (j : ν) : Option (Group ν) :=
  match s.stage j with
  | .synced t =>
    if cfg.acquireGlobalLock s t ∧ (s.table t j).isSome ∧ (s.table t).freeSeqId ≤ maxSeqId then
      some ((s.commit t ⟨j, ⟨.ready, some (s.table t).freeSeqId⟩, false⟩).setStage j .finished)
    else none
  | _ => none

def Group.detachNodes (s : Group ν) (u n : ν) : Option (Group ν) := do
  guard (u ≠ n ∨
    (Finset.univ.filter fun k => (s.table u k).any (fun row => row.status = .ready)).card ≤ 1)
  let row ← s.table u n
  return s.commit u ⟨n, { row with status := .killed }, false⟩

def Group.step (cfg : Config ν) (s : Group ν) : Action ν → Option (Group ν)
  | .beginJoin j t => s.beginJoin cfg j t
  | .establishSlot j => s.establishSlot j
  | .syncNodes j => s.syncNodes j
  | .setRemoteStatusReady j => s.setRemoteStatusReady cfg j
  | .detachNodes u n => s.detachNodes u n
  | .connectBack i p => s.connectBack i p
  | .dropSlot p i => s.dropSlot p i
  | .replay i p wins => s.replay i p wins

variable {cfg : Config ν}

theorem Group.beginJoin_cases (h : s.beginJoin cfg j t = some s') :
    s.stage j = .outside ∧ (∃ row, s.table t t = some row ∧ row.status = .ready) ∧
      cfg.maxNodes ≠ (s.table t).liveNodes.card ∧
      s' = (s.setTable j ((s.table j).set j ⟨.beginningInit, none⟩)).setStage j
        (.begun t (s.table t).liveNodes.card) := by
  simp only [beginJoin] at h
  split_ifs at h with hguard hfull
  obtain ⟨row, hrow, hready⟩ := (Option.any_eq_true _ _).mp hguard.2
  exact ⟨hguard.1, ⟨row, hrow, of_decide_eq_true hready⟩, hfull, (Option.some.inj h).symm⟩

theorem Group.setRemoteStatusReady_cases (h : s.setRemoteStatusReady cfg j = some s') :
    ∃ t, s.stage j = .synced t ∧ (s.table t j).isSome = true ∧
      s' = (s.commit t ⟨j, ⟨.ready, some (s.table t).freeSeqId⟩, false⟩).setStage j .finished := by
  unfold setRemoteStatusReady at h
  split at h
  · next t hstage =>
    split_ifs at h with hguard
    exact ⟨t, hstage, hguard.2.1, (Option.some.inj h).symm⟩
  · cases h

theorem Group.detachNodes_cases {u n : ν} (h : s.detachNodes u n = some s') :
    ∃ row, s.table u n = some row ∧ s' = s.commit u ⟨n, { row with status := .killed }, false⟩ := by
  simp only [detachNodes, Option.bind_eq_bind, Option.bind_eq_some_iff,
    Option.guard_eq_some', Option.pure_def, Option.some.injEq, exists_const] at h
  obtain ⟨-, row, hrow, rfl⟩ := h
  exact ⟨row, hrow, rfl⟩

theorem Group.Staged.step (h : s.Staged) {a : Action ν} (hstep : s.step cfg a = some s') :
    s'.Staged := by
  cases a with
  | beginJoin j t =>
    obtain ⟨hout, ⟨row, hrow, hready⟩, -, rfl⟩ := Group.beginJoin_cases hstep
    have hown : (s.setTable j ((s.table j).set j ⟨.beginningInit, none⟩)).Staged :=
      h.setOwn (by simp) fun _ => rfl
    refine hown.setStage (fun hmember => ?_) fun t' ht' => ?_
    · simp [Group.setTable, hout, Stage.member] at hmember
    · cases ht'
      exact h.member_of_ready hrow hready
  | establishSlot j =>
    obtain ⟨t, c, row, hstage, hrow, rfl⟩ := Group.establishSlot_cases hstep
    have hown : (s.setTable j
        ((s.table j).set j { row with status := .copyingInitialData })).Staged :=
      h.setOwn (by simp) fun hj => (h.alone j j row hj hrow).2.2
    have hslot : ((s.setTable j
        ((s.table j).set j { row with status := .copyingInitialData })).takeSlot j t).Staged :=
      ⟨hown.alone, hown.target⟩
    refine hslot.setStage (fun hmember => ?_) fun t' ht' => ?_
    · simp [Group.setTable, Group.takeSlot, hstage, Stage.member] at hmember
    · cases ht'
      exact h.target j t (by rw [hstage]; rfl)
  | syncNodes j =>
    obtain ⟨t, c, row, hstage, hrow, -, -, -, rfl⟩ := Group.syncNodes_cases hstep
    have ht : (s.stage t).member = true := h.target j t (by rw [hstage]; rfl)
    -- The stage is set first here, since only a member may have the rows of the target.
    have hsynced : (s.setStage j (.synced t)).Staged :=
      h.setStage (fun _ => rfl) fun t' ht' => by
        cases ht'
        exact ht
    have hcopied : ((s.setStage j (.synced t)).setTable j
        ((s.table t).copyTo (s.table j) j)).Staged :=
      hsynced.setTable fun hnot => by simp [Stage.member] at hnot
    refine hcopied.commit (t := t) ?_ ⟨j, row, true⟩
    exact hsynced.target j t (by simp [Stage.target])
  | setRemoteStatusReady j =>
    obtain ⟨t, hstage, -, rfl⟩ := Group.setRemoteStatusReady_cases hstep
    have ht : (s.stage t).member = true := h.target j t (by rw [hstage]; rfl)
    exact (h.commit ht _).setStage (fun _ => rfl) fun t' ht' => by cases ht'
  | detachNodes u n =>
    obtain ⟨row, hrow, rfl⟩ := Group.detachNodes_cases hstep
    have htable : (s.setTable u ((s.table u).set n { row with status := .killed })).Staged := by
      by_cases hu : (s.stage u).member = true
      · exact h.setTable fun hnot => by rw [hu] at hnot; cases hnot
      · have hu' : (s.stage u).member = false := by simpa using hu
        obtain ⟨rfl, -, hid⟩ := h.alone u n row hu' hrow
        exact h.setOwn (by simp) fun _ => hid
    exact ⟨htable.alone, htable.target⟩
  | connectBack i p =>
    obtain rfl := Group.connectBack_cases hstep
    exact ⟨h.alone, h.target⟩
  | dropSlot p i =>
    obtain rfl := Group.dropSlot_cases hstep
    exact ⟨h.alone, h.target⟩
  | replay i p wins =>
    obtain ⟨-, -, hmember, c, -, rfl⟩ := Group.replay_cases hstep
    have htable : (s.setTable i ((s.table i).replay c wins)).Staged :=
      h.setTable fun hnot => by rw [hmember] at hnot; cases hnot
    exact ⟨htable.alone, htable.target⟩

end

end Pgactive.Membership
