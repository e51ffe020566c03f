import Pgactive.Workers.Lookup

/-!
# Signals to the workers of detached nodes

For every detached node `pgactive_maintain_db_workers` signals the apply workers and walsenders of
that node in all slots of the server. Nothing compares their database with the one of the per-db
worker: if the local node is detached, it is compared with those of all detached nodes.
-/

namespace Pgactive.Workers

variable {n : ℕ} {δ ν : Type} [DecidableEq δ] [DecidableEq ν]

/-- What `pgactive_maintain_db_workers` reads of `pgactive_nodes`. -/
structure DetachView (δ ν : Type) where
  myDatabaseId : δ
  /-- `our_status` is `pgactive_NODE_STATUS_KILLED`. -/
  ourStatusKilled : Bool
  detachedNodes : List ν
  dboid : ν → δ

def DetachView.killProc (v : DetachView δ ν) (node : ν) (w : WorkerEntry δ ν) : Bool :=
  match w.data, w.workerProc with
  -- unused, not directly linked to a peer
  | .empty, _ | .perdb _ _ _, _ => false
  -- unconnected
  | _, none => false
  | .apply _ remoteNode, some proc | .walsender remoteNode, some proc =>
    if v.ourStatusKilled ∧ proc.databaseId = v.dboid node then true else remoteNode = node

def DetachView.foundAlive (v : DetachView δ ν) (slots : Fin n → WorkerEntry δ ν) (node : ν) :
    Bool :=
  (List.finRange n).any fun i => v.killProc node (slots i)

def DetachView.signals (v : DetachView δ ν) (slots : Fin n → WorkerEntry δ ν) : List (Fin n) :=
  v.detachedNodes.flatMap fun node => (List.finRange n).filter fun i => v.killProc node (slots i)

def WorkerEntry.InDatabase (w : WorkerEntry δ ν) (dboid : δ) : Prop :=
  ∃ proc, w.workerProc = some proc ∧ proc.databaseId = dboid

variable {v : DetachView δ ν} {node : ν} {w : WorkerEntry δ ν} {slots : Fin n → WorkerEntry δ ν}

theorem DetachView.killProc_iff :
    v.killProc node w = true ↔
      ∃ peer proc, w.remoteNode = some peer ∧ w.workerProc = some proc ∧
        (v.ourStatusKilled = true ∧ proc.databaseId = v.dboid node ∨ peer = node) := by
  unfold killProc WorkerEntry.remoteNode
  cases w.data with
  | empty | perdb => simp
  | apply | walsender =>
    cases w.workerProc with
    | none => simp
    | some proc =>
      by_cases h : v.ourStatusKilled = true ∧ proc.databaseId = v.dboid node <;> simp [h]

theorem DetachView.mem_signals {i : Fin n} :
    i ∈ v.signals slots ↔ ∃ node ∈ v.detachedNodes, v.killProc node (slots i) = true := by
  simp [signals]

def DetachView.Detached (v : DetachView δ ν) (w : WorkerEntry δ ν) : Prop :=
  v.ourStatusKilled = true ∨ ∃ peer ∈ v.detachedNodes, w.remoteNode = some peer

/-- No apply worker or walsender of another database has a detached peer, nor, if the local node is
detached, is one in a database with the identifier of a detached node's. -/
def DetachView.OthersApart (v : DetachView δ ν) (slots : Fin n → WorkerEntry δ ν) : Prop :=
  ∀ i peer proc, (slots i).remoteNode = some peer → (slots i).workerProc = some proc →
    proc.databaseId ≠ v.myDatabaseId →
      peer ∉ v.detachedNodes ∧
        (v.ourStatusKilled = true → ∀ node ∈ v.detachedNodes, proc.databaseId ≠ v.dboid node)

/-- For all detached nodes and all slots: only processes of this database are signalled whose local
node or peer is detached, exactly if the workers of other databases have nothing in common with the
detached nodes. -/
theorem detachSignals_precise (v : DetachView δ ν) (slots : Fin n → WorkerEntry δ ν) :
    (∀ i ∈ v.signals slots, (slots i).InDatabase v.myDatabaseId ∧ v.Detached (slots i)) ↔
      v.OthersApart slots := by
  constructor
  · intro hprecise i peer proc hpeer hproc hother
    have hquiet : i ∉ v.signals slots := by
      intro hsignal
      obtain ⟨⟨proc', hproc', hserves⟩, -⟩ := hprecise i hsignal
      rw [hproc] at hproc'
      cases hproc'
      exact hother hserves
    constructor
    · intro hmem
      refine hquiet (DetachView.mem_signals.mpr ⟨peer, hmem, ?_⟩)
      exact DetachView.killProc_iff.mpr ⟨peer, proc, hpeer, hproc, .inr rfl⟩
    · intro hkilled node hnode heq
      refine hquiet (DetachView.mem_signals.mpr ⟨node, hnode, ?_⟩)
      exact DetachView.killProc_iff.mpr ⟨peer, proc, hpeer, hproc, .inl ⟨hkilled, heq⟩⟩
  · intro hapart i hsignal
    obtain ⟨node, hnode, hkill⟩ := DetachView.mem_signals.mp hsignal
    obtain ⟨peer, proc, hpeer, hproc, hcause⟩ := DetachView.killProc_iff.mp hkill
    constructor
    · refine ⟨proc, hproc, ?_⟩
      by_contra hother
      obtain ⟨hpeers, hdatabases⟩ := hapart i peer proc hpeer hproc hother
      rcases hcause with ⟨hkilled, heq⟩ | rfl
      · exact hdatabases hkilled node hnode heq
      · exact hpeers hnode
    · rcases hcause with ⟨hkilled, -⟩ | rfl
      · exact .inl hkilled
      · exact .inr ⟨peer, hnode, hpeer⟩

/-- In the first server the databases 1 and 2 are in one group with the database 3, which is
detached. In the second one the local node is detached, and so is a node on another server whose
database happens to have the identifier of a local one. In both the per-db worker of database 1
signals the apply worker of database 2. -/
theorem detachSignals_other :
    (⟨1, false, [3], id⟩ : DetachView ℕ ℕ).signals
        (fun _ : Fin 1 => ⟨.apply 2 3, 100, some ⟨100, 2⟩⟩) = [0] ∧
      (⟨1, true, [1, 32], (· % 10)⟩ : DetachView ℕ ℕ).signals
        (fun _ : Fin 1 => ⟨.apply 2 47, 100, some ⟨100, 2⟩⟩) = [0] := by
  decide

end Pgactive.Workers
