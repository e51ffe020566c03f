import Pgactive.PrimaryKey
import Pgactive.JoinConvergence
import Mathlib.Data.Prod.Lex

/-!
# The history of one row

Each write of a row contributes its commit timestamp and, on equal timestamps, the id of its origin;
a delete is above all of them. If every conflict is decided by this order and no update is merged
with a different row, each node stores the greatest contribution it has seen.
-/

namespace Pgactive

open BroadcastLog

variable {ν D : Type}

/-- Commit timestamps first; on a tie the origin with the lesser id is greater. -/
abbrev Stamp := ℤ ×ₗ ℤᵒᵈ

def stamp (ts seq : ℤ) : Stamp := toLex (ts, OrderDual.toDual seq)

theorem stamp_lt_of_ts_lt {ts ts' : ℤ} (h : ts < ts') (seq seq' : ℤ) :
    stamp ts seq < stamp ts' seq' :=
  Prod.Lex.toLex_lt_toLex.mpr (Or.inl h)

theorem stamp_le_iff_of_ts_eq (ts seq seq' : ℤ) : stamp ts seq ≤ stamp ts seq' ↔ seq' ≤ seq := by
  simp [stamp, Prod.Lex.toLex_le_toLex]

theorem ts_le_of_stamp_le {ts ts' seq seq' : ℤ} (h : stamp ts seq ≤ stamp ts' seq') : ts ≤ ts' := by
  rcases Prod.Lex.toLex_le_toLex.mp h with h | ⟨h, -⟩
  · exact h.le
  · exact h.le

def Change.isDelete : Change D → Bool
  | .delete _ => true
  | _ => false

def Change.ForRow (ix : Index D) (desc : List Attribute) (key : List (Option D))
    (ch : Change D) : Prop :=
  ch.scanKey ix desc = key ∧
    match ch with
    | .insert _ => False
    | .update _ new => ix.key (new.map Datum.value) = key
    | .delete _ => True

section Row

variable [DecidableEq ν] [DecidableEq D]
variable (cfg : Config ν D) (ix : Index D) (key : List (Option D)) (row₀ : Row D) (ts₀ : ℤ)

/-- All nodes have the same version of the row, and nothing has been written yet. -/
def InitialRow (s : Cluster ν D) : Prop :=
  s.net = Net.empty ∧ (∀ i, ValidTable cfg.rel ix (s.tables i)) ∧
    ∀ i, ∃ o, ix.versions key (s.tables i) = [⟨row₀, ts₀, o⟩]

/-- Local transactions update or delete the row, keep its key, and commit later than
the version that they overwrite. -/
def WritesRow (s : Cluster ν D) : Action ν D → Prop
  | .insert _ _ _ => False
  | .update i ts k new => k = key ∧ ix.key (new.map Datum.value) = key ∧
      ∀ t ∈ ix.versions key (s.tables i), t.commitTs < ts
  | .delete i ts k => k = key ∧ ∀ t ∈ ix.versions key (s.tables i), t.commitTs < ts
  | .deliver _ _ => True

/-- Where a delivered update meets a version of another node with the same timestamp,
the receiver compares to the sender as the node that wrote the version does. -/
def TieByOrigin (s : Cluster ν D) : Action ν D → Prop
  | .deliver r w => ∀ c ∈ s.net.next r w, c.change.isDelete = false →
      ∀ t ∈ ix.versions key (s.tables r), t.commitTs = c.commitTs → t.nodeId ≠ some w →
        (cfg.nodeSeqId r < cfg.nodeSeqId w ↔
          cfg.nodeSeqId (t.nodeId.getD r) < cfg.nodeSeqId w)
  | _ => True

/-- Where a delivered update replaces the stored version, that version has the sender's
value in every column that was sent as unchanged. -/
def MergesWhole (s : Cluster ν D) : Action ν D → Prop
  | .deliver r w => ∀ c ∈ s.net.next r w, ∀ new ∈ c.change.updated,
      ∀ t ∈ ix.versions key (s.tables r), (cfg.session r w c).Supersedes t →
        AgreesOnUnchanged cfg.rel.desc t.values new
  | _ => True

def RowStep (s : Cluster ν D) (a : Action ν D) : Prop :=
  WritesRow ix key s a ∧ TieByOrigin cfg ix key s a ∧ MergesWhole cfg ix key s a

instance (s : Cluster ν D) (a : Action ν D) : Decidable (WritesRow ix key s a) := by
  rcases a <;> unfold WritesRow <;> infer_instance

instance (s : Cluster ν D) (a : Action ν D) : Decidable (TieByOrigin cfg ix key s a) := by
  rcases a <;> unfold TieByOrigin <;> infer_instance

instance (s : Cluster ν D) (a : Action ν D) : Decidable (MergesWhole cfg ix key s a) := by
  rcases a <;> unfold MergesWhole <;> infer_instance

def versionStamp (r : ν) (t : StoredTuple ν D) : Stamp :=
  stamp t.commitTs (if t.commitTs = ts₀ then 0 else cfg.nodeSeqId (t.nodeId.getD r))

def rank (r : ν) : List (StoredTuple ν D) → WithTop Stamp
  | [] => ⊤
  | t :: _ => versionStamp cfg ts₀ r t

def contribution (w : ν) (c : Commit D) : WithTop Stamp :=
  if c.change.isDelete then ⊤ else stamp c.commitTs (cfg.nodeSeqId w)

def FromHistory (net : Net ν (Commit D)) (r : ν) (t : StoredTuple ν D) : Prop :=
  t.values = row₀ ∧ t.commitTs = ts₀ ∨
    ∃ c ∈ net.seenBy r (t.nodeId.getD r), ∃ old new, c.change = .update old new ∧
      c.commitTs = t.commitTs ∧ new.map Datum.value = t.values

/-- What every run whose steps satisfy `RowStep` maintains. -/
structure Tracked (s : Cluster ν D) : Prop extends Sound cfg ix s where
  logged : ∀ w, ∀ c ∈ s.net.log w, ts₀ < c.commitTs ∧ c.change.ForRow ix cfg.rel.desc key
  /-- A node's own transactions have increasing timestamps. -/
  sorted : ∀ w, (s.net.log w).Pairwise fun c c' => c.commitTs < c'.commitTs
  source : ∀ r, ∀ t ∈ ix.versions key (s.tables r), FromHistory row₀ ts₀ s.net r t
  /-- A node without the row knows a delete. -/
  missing : ∀ r, ix.versions key (s.tables r) = [] →
    ∃ w, ∃ c ∈ s.net.seenBy r w, c.change.isDelete = true
  /-- Every node holds the greatest contribution that it knows. -/
  joined : s.net.Joined (stamp ts₀ 0 : WithTop Stamp) (contribution cfg)
    fun r => rank cfg ts₀ r (ix.versions key (s.tables r))

end Row

def intColumn : Attribute := ⟨false, true, true, 4, 23, ⟨'b', 0, 2406⟩⟩

def textColumn : Attribute := ⟨false, false, false, -1, 25, ⟨'b', 0, 2414⟩⟩

def documentsKey : Index ℕ := ⟨true, [0], []⟩

def documents : Relation ℕ where
  desc := [intColumn, textColumn, textColumn]
  indexes := [documentsKey]
  identity := some 0
  identity_plain := by simp [documentsKey]

/-- Nodes with the ids 1, 2, … that replicate `documents` in text format. -/
def documentsConfig (n : ℕ) : Config (Fin n) ℕ :=
  ⟨documents, fun i => i.val + 1, fun _ _ => ⟨false, false, false⟩, fun _ => false⟩

/-- Every node stores the document 1 with contents 10 and 20, written at time 0. -/
def documentsStart (n : ℕ) : Cluster (Fin n) ℕ :=
  ⟨fun _ => [⟨[some 1, some 10, some 20], 0, none⟩], Net.empty⟩

theorem documentsStart_initialRow (n : ℕ) :
    InitialRow (documentsConfig n) documentsKey [some 1] [some 1, some 10, some 20] 0
      (documentsStart n) := by
  refine ⟨rfl, fun i => ⟨fun t ht => ?_, fun key => ?_⟩, fun i => ⟨none, rfl⟩⟩
  · obtain rfl : t = _ := List.mem_singleton.mp ht
    exact .cons (by simp [intColumn]) (.cons (by simp [textColumn])
      (.cons (by simp [textColumn]) .nil))
  · exact List.length_filter_le _ _

end Pgactive
