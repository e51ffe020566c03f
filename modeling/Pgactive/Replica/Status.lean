import Pgactive.Membership.Nodes

/-!
# The status of a joining node

The per-db worker leads the node through the phases of `pgactive_init_replica` and commits after
each phase where it stands, in the node's row. It may stop at any point and goes on from the
committed status. The row has other writers: it is copied to the target, and the changes there are
replayed on the node; which version survives is left to the timestamps.
-/

namespace Pgactive.Replica.Status

open Pgactive.Membership

variable {ν : Type}

/-- The row of the node in `pgactive_nodes`. -/
structure Row where
  /-- Column `node_status`. -/
  status : NodeStatus
  /-- Column `node_read_only`. -/
  readOnly : Bool
deriving DecidableEq

/-- Where the per-db worker is: what it does next. -/
inductive Pc
  | down
  /-- `pgactive_init_standalone_node` makes the node ready. -/
  | standalone
  /-- The status becomes "copying initial data". -/
  | beginning
  /-- The node is forced to be read-only. -/
  | flagging
  /-- The slot on the target is made, and the dump is taken and restored. -/
  | copying
  /-- `pgactive_sync_nodes` commits on the target. -/
  | syncing
  | committing
  /-- The status becomes "catchup". -/
  | synced
  /-- The other slots are made, and the catchup worker is started. -/
  | preparing
  | catchingUp
  /-- The status becomes "creating outbound slots". -/
  | caught
  /-- The apply workers are started. -/
  | outbound
  /-- The connection is announced to the target, and the slots of all nodes are waited for. -/
  | connecting
  /-- `pgactive_nodes_set_remote_status_ready` updates the row on the target. -/
  | announcing
  /-- `pgactive_wait_for_local_node_ready`. -/
  | waiting
  /-- The node is made writable again. -/
  | clearing
  | main
deriving DecidableEq

/-- Who replays the changes of a node. -/
inductive Replayer
  | none
  | catchup (stop : ℕ)
  | apply
deriving DecidableEq

/-- The new node, as far as its row is concerned. -/
structure Node (ν : Type) where
  /-- The committed row in its own table. -/
  row : Row
  remote : Option Row
  /-- The versions of the row that other nodes have committed, in the order in which they
  replicate them. -/
  log : ν → List Row
  /-- How many of them have been replayed. -/
  pos : ν → ℕ
  /-- Who replays them. These workers survive an error of the per-db worker. -/
  replayer : ν → Replayer
  /-- The per-db worker. -/
  pc : Pc
  /-- The data and the tables of the target have been copied. -/
  copied : Bool
  caughtUp : Bool
  connected : Bool

/-- What does not change during a join. -/
structure Setup (ν : Type) where
  /-- The node that is joined through. -/
  target : ν
  /-- Whether `init_from_dsn` is set; the first node of a group has none. -/
  initFromDsn : Bool

/-- A new row, before the per-db worker is started. -/
def Node.fresh : Node ν where
  row := ⟨.beginningInit, false⟩
  remote := none
  log := fun _ => []
  pos := fun _ => 0
  replayer := fun _ => .none
  pc := .down
  copied := false
  caughtUp := false
  connected := false

/-- A step of the node or of another one. -/
inductive Action (ν : Type)
  /-- The per-db worker starts and reads the row. -/
  | start
  | advance
  /-- It stops with an error or is killed. -/
  | crash
  /-- The server stops, and with it all workers. -/
  | shutdown
  /-- The next change of `p` is replayed. The flag tells whether it wins the conflict with the
  committed row. -/
  | replay (p : ν) (wins : Bool)
  /-- `pgactive_detach_nodes` for this node on `p`. The flag is the one in the row there, which
  also has the changes that the node has replicated itself. -/
  | detach (p : ν) (readOnly : Bool)
  /-- `pgactive_detach_nodes` for this node on itself. -/
  | detachSelf
deriving DecidableEq

def Node.setLocalAttrs (s : Node ν) (status oldstatus : NodeStatus) : Node ν :=
  if s.row.status = oldstatus then { s with row := { s.row with status := status } } else s

@[simp] theorem log_setLocalAttrs (s : Node ν) (status oldstatus : NodeStatus) :
    (s.setLocalAttrs status oldstatus).log = s.log := by
  unfold Node.setLocalAttrs
  split_ifs <;> rfl

def Node.setReadOnly (s : Node ν) (readOnly : Bool) : Node ν :=
  { s with row := { s.row with readOnly := readOnly } }

/-- The start of `pgactive_perdb_worker_main` and of `pgactive_init_replica`. -/
def Setup.entry (g : Setup ν) : NodeStatus → Option Pc
  | .ready | .killed => some .main
  | .beginningInit => some (if g.initFromDsn then .beginning else .standalone)
  -- "previous init failed, manual cleanup is required"
  | .copyingInitialData => none
  | .catchup => if g.initFromDsn then some .preparing else none
  | .creatingOutboundSlots => if g.initFromDsn then some .outbound else none

/-- The per-db worker begins at a point of its program. With the main loop it starts the apply
workers. -/
def Node.enter (s : Node ν) (pc : Pc) : Node ν :=
  { s with pc := pc, replayer := if pc = .main then fun _ => .apply else s.replayer }

/-- The statuses in the call of `pgactive_nodes_set_local_attrs` that comes next. -/
def Pc.sets : Pc → Option (NodeStatus × NodeStatus)
  | .standalone => some (.ready, .beginningInit)
  | .beginning => some (.copyingInitialData, .beginningInit)
  | .synced => some (.catchup, .copyingInitialData)
  | .caught => some (.creatingOutboundSlots, .catchup)
  | _ => none

variable [DecidableEq ν]

def Node.commitRemote (s : Node ν) (g : Setup ν) (row : Row) : Node ν :=
  { s with
    remote := some row
    log := Function.update s.log g.target (s.log g.target ++ [row]) }

/-- A node joined by `pgactive_init_copy`, whose row has been inserted on the target. -/
def Node.physical (g : Setup ν) : Node ν :=
  { (fresh.commitRemote g ⟨.catchup, false⟩) with row := ⟨.catchup, false⟩, copied := true }

def Initial (g : Setup ν) (s : Node ν) : Prop :=
  s = .fresh ∨ g.initFromDsn = true ∧ s = .physical g

/-- The per-db worker goes on; where it raises an error, it does not. -/
def advance (g : Setup ν) (s : Node ν) : Option (Node ν) :=
  match s.pc with
  | .down => none
  | .standalone => some ((s.setLocalAttrs .ready .beginningInit).enter .main)
  | .beginning =>
    some { s.setLocalAttrs .copyingInitialData .beginningInit with pc := .flagging }
  | .flagging => some { s.setReadOnly true with pc := .copying }
  | .copying => some { s with pc := .syncing }
  | .syncing =>
    match s.remote with
    -- the row violates the primary key on one of the two nodes
    | some _ => none
    | none => some { s.commitRemote g s.row with pc := .committing }
  | .committing => some { s with copied := true, pc := .synced }
  | .synced => some { s.setLocalAttrs .catchup .copyingInitialData with pc := .preparing }
  | .preparing =>
    some { s with
      replayer := Function.update s.replayer g.target (.catchup (s.log g.target).length)
      pc := .catchingUp }
  | .catchingUp =>
    match s.replayer g.target with
    | .catchup stop =>
      if stop ≤ s.pos g.target then
        some { s with
          replayer := Function.update s.replayer g.target .none
          caughtUp := true
          pc := .caught }
      else none
    | _ => none
  | .caught => some { s.setLocalAttrs .creatingOutboundSlots .catchup with pc := .outbound }
  | .outbound => some { s with replayer := fun _ => .apply, pc := .connecting }
  | .connecting =>
    if s.remote.isSome then some { s with connected := true, pc := .announcing } else none
  | .announcing =>
    match s.remote with
    | some row => some { s.commitRemote g { row with status := .ready } with pc := .waiting }
    -- "affected 0 rows instead of expected 1"
    | none => none
  | .waiting => if s.row.status = .ready then some { s with pc := .clearing } else none
  | .clearing => some ((s.setReadOnly false).enter .main)
  | .main => none

def Node.next (s : Node ν) (p : ν) : Option Row :=
  match s.replayer p with
  | .none => none
  | .catchup stop => if s.pos p < stop then (s.log p)[s.pos p]? else none
  | .apply => (s.log p)[s.pos p]?

def step (g : Setup ν) (s : Node ν) : Action ν → Option (Node ν)
  | .start =>
    if s.pc = .down then (g.entry s.row.status).map s.enter else none
  | .advance => advance g s
  | .crash => some { s with pc := .down }
  | .shutdown => some { s with replayer := fun _ => .none, pc := .down }
  | .replay p wins => (s.next p).map fun row =>
      { s with
        row := if wins then row else s.row
        pos := Function.update s.pos p (s.pos p + 1) }
  | .detach p readOnly =>
    if p = g.target then
      if s.remote.isSome then some (s.commitRemote g ⟨.killed, readOnly⟩) else none
    -- whether the row has come to the other nodes is left open
    else some { s with log := Function.update s.log p (s.log p ++ [⟨.killed, readOnly⟩]) }
  | .detachSelf => some { s with row := { s.row with status := .killed } }

omit [DecidableEq ν] in
theorem mem_log_of_next {s : Node ν} {p : ν} {row : Row} (h : s.next p = some row) :
    row ∈ s.log p := by
  unfold Node.next at h
  split at h
  · cases h
  · split_ifs at h
    exact List.mem_of_getElem? h
  · exact List.mem_of_getElem? h

theorem mem_update_log {s : Node ν} {p q : ν} {new row : Row}
    (hmem : row ∈ Function.update s.log p (s.log p ++ [new]) q) : row ∈ s.log q ∨ row = new := by
  by_cases hq : q = p
  · subst hq
    rwa [Function.update_self, List.mem_append, List.mem_singleton] at hmem
  · rw [Function.update_of_ne hq] at hmem
    exact .inl hmem

def pair : Setup Unit := ⟨(), true⟩

end Pgactive.Replica.Status
