import Pgactive.Versions
import Pgactive.BroadcastLog
import Pgactive.Transition

/-!
# A cluster replicating one table

Every node executes local transactions and logs them. The changes are sent to each peer on a
connection of its own and applied there in order; nothing orders the streams of different senders.
Applied changes are not logged again for the peers. A transaction changes one row here.
-/

namespace Pgactive

open BroadcastLog

variable {ν D : Type}

/-- A logged change of one row, as logical decoding hands it to the output plugin. -/
inductive Change (D : Type)
  | insert (new : List (Datum D))
  | update (old : Option (List (Datum D))) (new : List (Datum D))
  | delete (old : Option (List (Datum D)))
  deriving DecidableEq

/-- A change on the stream. -/
inductive ChangeMessage (D : Type)
  | insert (new : List (ColumnData D))
  | update (old : Option (List (ColumnData D))) (new : List (ColumnData D))
  | delete (old : Option (List (ColumnData D)))

/-- A committed transaction of the log. -/
structure Commit (D : Type) where
  commitTs : ℤ
  change : Change D
  deriving DecidableEq

def writeOldTuple (data : OutputData) (desc : List Attribute) :
    Option (List (Datum D)) → Except TupleError (Option (List (ColumnData D)))
  | none => .ok none
  | some old => (writeTuple data desc old).map some

def pgDecodeChange (data : OutputData) (desc : List Attribute) :
    Change D → Except TupleError (ChangeMessage D)
  | .insert new => (writeTuple data desc new).map .insert
  | .update old new => do
    let old' ← writeOldTuple data desc old
    let new' ← writeTuple data desc new
    return .update old' new'
  | .delete old => (writeOldTuple data desc old).map .delete

/-- What stays fixed during a run. -/
structure Config (ν D : Type) where
  /-- The replicated table, the same on all nodes. -/
  rel : Relation D
  /-- `node_seq_id` of each node. -/
  nodeSeqId : ν → ℤ
  /-- Options negotiated between a sender and a receiver. -/
  output : ν → ν → OutputData
  /-- `pgactive.discard_mismatched_row_attributes` of each node. -/
  discardMismatched : ν → Bool

/-- The tables of all nodes, their logs and what was delivered of them. -/
structure Cluster (ν D : Type) where
  tables : ν → List (StoredTuple ν D)
  net : Net ν (Commit D)

/-- A step of the cluster: a local transaction on one row, or a delivery to `r` of the
next transaction of `w`. -/
inductive Action (ν D : Type)
  | insert (i : ν) (ts : ℤ) (new : List (Datum D))
  | update (i : ν) (ts : ℤ) (key : List (Option D)) (new : List (Datum D))
  | delete (i : ν) (ts : ℤ) (key : List (Option D))
  | deliver (r w : ν)

def Datum.isExternal : Datum D → Bool
  | .external _ => true
  | _ => false

def keyTuple (ix : Index D) (row : Row D) : List (Datum D) :=
  row.mapIdx fun a v => if a ∈ ix.attrs then (v.elim .null .inline) else .null

/-- The session in which `r` replays a transaction of `w`. -/
def Config.session (cfg : Config ν D) (r w : ν) (c : Commit D) : ApplySession ν :=
  ⟨w, c.commitTs, cfg.nodeSeqId r, cfg.nodeSeqId w, cfg.discardMismatched r⟩

section Steps

variable [DecidableEq ν] [DecidableEq D]

/-- An update logs the old key if it changes the key, or if the new tuple holds a key
column out of line. -/
def logsOldKey (ix : Index D) (old : Row D) (new : List (Datum D)) : Bool :=
  ix.key old != ix.key (new.map Datum.value) ||
    ix.attrs.any fun a => (new[a]?.map Datum.isExternal).getD false

/-- Out-of-line values that an update refers to are those of the version it overwrites. -/
def CarriesOld (old : Row D) (new : List (Datum D)) : Prop :=
  ∀ x ∈ new.zip old, x.1.isExternal = true → x.2 = x.1.value

instance (old : Row D) (new : List (Datum D)) : Decidable (CarriesOld old new) :=
  inferInstanceAs (Decidable (∀ _ ∈ _, _ → _))

instance (desc : List Attribute) (t : List (Datum D)) : Decidable (Conforms desc t) :=
  inferInstanceAs (Decidable (List.Forall₂ _ desc t))

variable (cfg : Config ν D) (s : Cluster ν D)

def Config.localInsert (i : ν) (ts : ℤ) (new : List (Datum D)) : Option (Cluster ν D) := do
  guard (Conforms cfg.rel.desc new ∧ ∀ v ∈ new, v.isExternal = false)
  let rows ← (cfg.rel.insertTuple ⟨new.map Datum.value, ts, none⟩ (s.tables i)).toOption
  return ⟨Function.update s.tables i rows, s.net.append i [⟨ts, .insert new⟩]⟩

def Config.localUpdate (i : ν) (ts : ℤ)
    (key : List (Option D)) (new : List (Datum D)) : Option (Cluster ν D) := do
  let ix ← cfg.rel.identityIndex
  let (tid, t) ← ix.findPkeyTuple key (s.tables i)
  guard (Conforms cfg.rel.desc new ∧ CarriesOld t.values new)
  let rows ← (cfg.rel.updateTuple tid ⟨new.map Datum.value, ts, none⟩ (s.tables i)).toOption
  let old := if logsOldKey ix t.values new then some (keyTuple ix t.values) else none
  return ⟨Function.update s.tables i rows, s.net.append i [⟨ts, .update old new⟩]⟩

def Config.localDelete (i : ν) (ts : ℤ) (key : List (Option D)) : Option (Cluster ν D) := do
  let ix ← cfg.rel.identityIndex
  let (tid, t) ← ix.findPkeyTuple key (s.tables i)
  return ⟨Function.update s.tables i ((s.tables i).eraseIdx tid),
    s.net.append i [⟨ts, .delete (some (keyTuple ix t.values))⟩]⟩

def processRemoteChange (ss : ApplySession ν) (handlers : Handlers D) (rel : Relation D)
    (msg : ChangeMessage D) (rows : List (StoredTuple ν D)) : Except ApplyError (Applied ν D) :=
  match msg with
  | .insert new => processRemoteInsert ss handlers rel new rows
  | .update old new => processRemoteUpdate ss handlers rel old new rows
  | .delete old => processRemoteDelete ss handlers rel old rows

/-- Decode a transaction of `w` and apply it at `r`. No conflict handlers are defined. -/
def Config.replay (r w : ν) (c : Commit D) (rows : List (StoredTuple ν D)) :
    Except ApplyError (Applied ν D) := do
  let msg ← (pgDecodeChange (cfg.output w r) cfg.rel.desc c.change).mapError .tuple
  processRemoteChange (cfg.session r w c) noHandlers cfg.rel msg rows

/-- Deliver the next transaction of `w` to `r`. A transaction that raises an error is
not delivered. -/
def Config.deliver (r w : ν) : Option (Cluster ν D) := do
  guard (r ≠ w)
  let c ← s.net.next r w
  let out ← (cfg.replay r w c (s.tables r)).toOption
  return ⟨Function.update s.tables r out.rows, s.net.advance r w⟩

def Config.step : Action ν D → Option (Cluster ν D)
  | .insert i ts new => cfg.localInsert s i ts new
  | .update i ts key new => cfg.localUpdate s i ts key new
  | .delete i ts key => cfg.localDelete s i ts key
  | .deliver r w => cfg.deliver s r w

variable {cfg : Config ν D} {s s' : Cluster ν D}

theorem except_toOption_eq_some {ε α : Type} {x : Except ε α} {a : α} :
    x.toOption = some a ↔ x = .ok a := by
  cases x with
  | error e => simp [Except.toOption]
  | ok b => simp [Except.toOption]

variable {i : ν} {ts : ℤ}

theorem Config.localInsert_cases {new : List (Datum D)} (h : cfg.localInsert s i ts new = some s') :
    Conforms cfg.rel.desc new ∧ (∀ v ∈ new, v.isExternal = false) ∧
      ∃ rows, cfg.rel.insertTuple ⟨new.map Datum.value, ts, none⟩ (s.tables i) = .ok rows ∧
        s' = ⟨Function.update s.tables i rows, s.net.append i [⟨ts, .insert new⟩]⟩ := by
  unfold localInsert at h
  obtain ⟨u, hguard, h⟩ := Option.bind_eq_some_iff.mp h
  obtain ⟨hconf, hext⟩ := (Option.guard_eq_some' u).mp hguard
  obtain ⟨rows, hrows, h⟩ := Option.bind_eq_some_iff.mp h
  exact ⟨hconf, hext, rows, except_toOption_eq_some.mp hrows, (Option.some.inj h).symm⟩

theorem Config.localUpdate_cases {ix : Index D} {key : List (Option D)} {new : List (Datum D)}
    (hix : cfg.rel.identityIndex = some ix) (h : cfg.localUpdate s i ts key new = some s') :
    ∃ tid t rows, ix.findPkeyTuple key (s.tables i) = some (tid, t) ∧
      Conforms cfg.rel.desc new ∧ CarriesOld t.values new ∧
      cfg.rel.updateTuple tid ⟨new.map Datum.value, ts, none⟩ (s.tables i) = .ok rows ∧
      s' = ⟨Function.update s.tables i rows, s.net.append i [⟨ts, .update
        (if logsOldKey ix t.values new then some (keyTuple ix t.values) else none) new⟩]⟩ := by
  unfold localUpdate at h
  obtain ⟨ix', hix', h⟩ := Option.bind_eq_some_iff.mp h
  obtain rfl : ix' = ix := Option.some.inj (hix'.symm.trans hix)
  obtain ⟨⟨tid, t⟩, hfind, h⟩ := Option.bind_eq_some_iff.mp h
  obtain ⟨u, hguard, h⟩ := Option.bind_eq_some_iff.mp h
  obtain ⟨hconf, hold⟩ := (Option.guard_eq_some' u).mp hguard
  obtain ⟨rows, hrows, h⟩ := Option.bind_eq_some_iff.mp h
  exact ⟨tid, t, rows, hfind, hconf, hold, except_toOption_eq_some.mp hrows,
    (Option.some.inj h).symm⟩

theorem Config.localDelete_cases {ix : Index D} {key : List (Option D)}
    (hix : cfg.rel.identityIndex = some ix) (h : cfg.localDelete s i ts key = some s') :
    ∃ tid t, ix.findPkeyTuple key (s.tables i) = some (tid, t) ∧
      s' = ⟨Function.update s.tables i ((s.tables i).eraseIdx tid),
        s.net.append i [⟨ts, .delete (some (keyTuple ix t.values))⟩]⟩ := by
  unfold localDelete at h
  obtain ⟨ix', hix', h⟩ := Option.bind_eq_some_iff.mp h
  obtain rfl : ix' = ix := Option.some.inj (hix'.symm.trans hix)
  obtain ⟨⟨tid, t⟩, hfind, h⟩ := Option.bind_eq_some_iff.mp h
  exact ⟨tid, t, hfind, (Option.some.inj h).symm⟩

theorem Config.deliver_cases {r w : ν} (h : cfg.deliver s r w = some s') :
    r ≠ w ∧ ∃ c out, s.net.next r w = some c ∧ cfg.replay r w c (s.tables r) = .ok out ∧
      s' = ⟨Function.update s.tables r out.rows, s.net.advance r w⟩ := by
  unfold deliver at h
  obtain ⟨u, hguard, h⟩ := Option.bind_eq_some_iff.mp h
  obtain ⟨c, hc, h⟩ := Option.bind_eq_some_iff.mp h
  obtain ⟨out, hout, h⟩ := Option.bind_eq_some_iff.mp h
  exact ⟨(Option.guard_eq_some' u).mp hguard, c, out, hc, except_toOption_eq_some.mp hout,
    (Option.some.inj h).symm⟩

def Action.Logs (i : ν) (c : Commit D) : Action ν D → Prop
  | .insert j ts new => j = i ∧ c = ⟨ts, .insert new⟩
  | .update j ts _ new => j = i ∧ ∃ old, c = ⟨ts, .update old new⟩
  | .delete j ts _ => j = i ∧ ∃ old, c = ⟨ts, .delete old⟩
  | .deliver _ _ => False

theorem Config.step_log {a : Action ν D} (h : cfg.step s a = some s') :
    s'.net.log = s.net.log ∨ ∃ i c, s'.net = s.net.append i [c] ∧ a.Logs i c := by
  cases a with
  | insert i ts new =>
    obtain ⟨-, -, rows, -, rfl⟩ := localInsert_cases h
    exact Or.inr ⟨i, _, rfl, rfl, rfl⟩
  | update i ts key new =>
    obtain ⟨ix, hix, -⟩ := Option.bind_eq_some_iff.mp h
    obtain ⟨tid, t, rows, -, -, -, -, rfl⟩ := localUpdate_cases hix h
    exact Or.inr ⟨i, _, rfl, rfl, _, rfl⟩
  | delete i ts key =>
    obtain ⟨ix, hix, -⟩ := Option.bind_eq_some_iff.mp h
    obtain ⟨tid, t, -, rfl⟩ := localDelete_cases hix h
    exact Or.inr ⟨i, _, rfl, rfl, _, rfl⟩
  | deliver r w =>
    obtain ⟨-, c, out, -, -, rfl⟩ := deliver_cases h
    exact Or.inl rfl

theorem Config.mem_log_of_step {a : Action ν D} (h : cfg.step s a = some s') {w : ν}
    {c : Commit D} (hc : c ∈ s'.net.log w) : c ∈ s.net.log w ∨ a.Logs w c := by
  rcases step_log h with hlog | ⟨i, c', hnet, hlogs⟩
  · exact Or.inl (hlog ▸ hc)
  · rw [hnet, Net.mem_log_append, List.mem_singleton] at hc
    rcases hc with hc | ⟨rfl, rfl⟩
    · exact Or.inl hc
    · exact Or.inr hlogs

end Steps

end Pgactive
