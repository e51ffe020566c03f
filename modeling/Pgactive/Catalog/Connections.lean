import Pgactive.Catalog.Nodes
import Pgactive.FallibleState

/-!
# Registering the connection of a joining node

`_pgactive_join_node_private` is to check that the joining node has a row with status `i`, and
stores the connection to it. The query of the check selects no column, so that the variable stays
null and the comparison with `i` is never true.
-/

namespace Pgactive.Catalog

open Pgactive.Membership (NodeStatus)
open FallibleState

variable {τ : Type} [DecidableEq τ]

/-- A row of `pgactive_connections`, with its not-null columns and `conn_apply_delay >= 0`. -/
structure ConnectionRow (τ : Type) where
  /-- Column `conn_sysid`. -/
  sysid : τ
  /-- Column `conn_timeline`. -/
  timeline : ℕ
  /-- Column `conn_dboid`. -/
  dboid : ℕ
  /-- Column `conn_dsn`. -/
  dsn : τ
  /-- Column `conn_apply_delay`. -/
  applyDelay : Option ℕ
  /-- Column `conn_replication_sets`. -/
  replicationSets : Option (List (Option τ))
  deriving DecidableEq

def ConnectionRow.id (r : ConnectionRow τ) : τ × ℕ × ℕ := (r.sysid, r.timeline, r.dboid)

/-- `pgactive_connections`. -/
@[ext]
structure ConnectionsTable (τ : Type) where
  rows : List (ConnectionRow τ)
  pkey : (rows.map ConnectionRow.id).Nodup

/-- The arguments of `_pgactive_join_node_private`, any of which may be null. -/
structure JoinArgs (τ : Type) where
  sysid : Option τ
  timeline : Option ℕ
  dboid : Option ℕ
  nodeDsn : Option τ
  applyDelay : Option ℤ
  replicationSets : Option (List (Option τ))
  deriving DecidableEq

/-- The errors of `_pgactive_join_node_private`. -/
inductive JoinError
  /-- `pgactive_nodes` has no entry for the node. -/
  | nodeNotFound
  | unexpectedStatus
  | notNullViolation
  | checkViolation
  deriving DecidableEq

/-- The key columns are those of the arguments. Nothing is equal to null. -/
def JoinArgs.selects (args : JoinArgs τ) (id : τ × ℕ × ℕ) : Bool :=
  args.sysid = some id.1 && args.timeline = some id.2.1 && args.dboid = some id.2.2

/-- `SELECT columns INTO status FROM pgactive_nodes WHERE ...`: whether a row is found, and the
variable, which takes the first column of the row and is null if there is none. -/
def selectInto (columns : List (NodeEntry τ → NodeStatus)) (nodes : NodesTable τ)
    (args : JoinArgs τ) : Bool × Option NodeStatus :=
  match nodes.rows.find? fun r => args.selects r.id with
  | none => (false, none)
  | some r => (true, (columns.map fun column => column r).head?)

def sqlNe (a : Option NodeStatus) (b : NodeStatus) : Option Bool := a.map fun s => decide (s ≠ b)

def caseApplyDelay (applyDelay : Option ℤ) : Option ℤ :=
  if applyDelay = some (-1) then none else applyDelay

def checkApplyDelay : Option ℤ → Except JoinError (Option ℕ)
  | none => .ok none
  | some d => if 0 ≤ d then .ok (some d.toNat) else .error .checkViolation

def JoinArgs.connection (args : JoinArgs τ) : Except JoinError (ConnectionRow τ) :=
  match args.sysid, args.timeline, args.dboid, args.nodeDsn with
  | some sysid, some timeline, some dboid, some dsn => do
    let applyDelay ← checkApplyDelay (caseApplyDelay args.applyDelay)
    return ⟨sysid, timeline, dboid, dsn, applyDelay, args.replicationSets⟩
  | _, _, _, _ => .error .notNullViolation

def ConnectionsTable.insert (conns : ConnectionsTable τ) (row : ConnectionRow τ) :
    Option (ConnectionsTable τ) :=
  if h : ((conns.rows ++ [row]).map ConnectionRow.id).Nodup then some ⟨conns.rows ++ [row], h⟩
  else none

def ConnectionRow.setValues (r row : ConnectionRow τ) : ConnectionRow τ :=
  { r with
    dsn := row.dsn
    applyDelay := row.applyDelay
    replicationSets := row.replicationSets }

def ConnectionsTable.update (conns : ConnectionsTable τ) (row : ConnectionRow τ) :
    ConnectionsTable τ where
  rows := updateRows (fun r => r.id = row.id) (fun r => r.setValues row) conns.rows
  pkey := by
    have hid : ∀ r : ConnectionRow τ, (r.setValues row).id = r.id := fun _ => rfl
    rw [map_updateRows hid]
    exact conns.pkey

def joinNodePrivate (nodes : NodesTable τ) (conns : ConnectionsTable τ) (args : JoinArgs τ) :
    Except JoinError (ConnectionsTable τ) := do
  let (found, status) := selectInto [] nodes args
  if !found then throw .nodeNotFound
  else if sqlNe status .copyingInitialData = some true then throw .unexpectedStatus
  else
    let row ← args.connection
    match conns.insert row with
    | some conns' => return conns'
    | none => return conns.update row

/-- The connections after the call: one row for the node, with the passed values, and the
others as before. -/
def Registered (conns : ConnectionsTable τ) (args : JoinArgs τ) (conns' : ConnectionsTable τ) :
    Prop :=
  (∃ row, conns'.rows.filter (fun r => args.selects r.id) = [row] ∧
    args.nodeDsn = some row.dsn ∧
    row.applyDelay.map Int.ofNat = (if args.applyDelay = some (-1) then none else args.applyDelay) ∧
    row.replicationSets = args.replicationSets) ∧
  conns'.rows.filter (fun r => !args.selects r.id) =
    conns.rows.filter fun r => !args.selects r.id

/-- The call returns only for a node that has a row with status `i`; it has then registered the
connection, and does the same when it is repeated. -/
def RegistersJoiningNode (nodes : NodesTable τ) (conns : ConnectionsTable τ) (args : JoinArgs τ) :
    Prop :=
  ∀ conns', joinNodePrivate nodes conns args = .ok conns' →
    (∃ r ∈ nodes.rows, args.selects r.id = true ∧ r.status = .copyingInitialData) ∧
      Registered conns args conns' ∧ joinNodePrivate nodes conns' args = .ok conns'

/-- The values that the table accepts: a connection string, and a delay that is null, -1 or
not negative. -/
def JoinArgs.Acceptable (args : JoinArgs τ) : Prop :=
  args.nodeDsn.isSome = true ∧ ∀ d, args.applyDelay = some d → -1 ≤ d

section Store

variable {conns : ConnectionsTable τ} {row : ConnectionRow τ} {args : JoinArgs τ}

def ConnectionsTable.store (conns : ConnectionsTable τ) (row : ConnectionRow τ) :
    ConnectionsTable τ :=
  (conns.insert row).getD (conns.update row)

theorem JoinArgs.selects_iff {id : τ × ℕ × ℕ} :
    args.selects id = true ↔
      args.sysid = some id.1 ∧ args.timeline = some id.2.1 ∧ args.dboid = some id.2.2 := by
  simp [selects, and_assoc]

theorem JoinArgs.selects_unique {id id' : τ × ℕ × ℕ} (h : args.selects id = true)
    (h' : args.selects id' = true) : id = id' := by
  obtain ⟨h1, h2, h3⟩ := selects_iff.mp h
  obtain ⟨h1', h2', h3'⟩ := selects_iff.mp h'
  refine Prod.ext ?_ (Prod.ext ?_ ?_)
  · exact Option.some.inj (h1.symm.trans h1')
  · exact Option.some.inj (h2.symm.trans h2')
  · exact Option.some.inj (h3.symm.trans h3')

omit [DecidableEq τ] in
theorem ConnectionRow.setValues_eq {r row : ConnectionRow τ} (h : r.id = row.id) :
    r.setValues row = row := by
  obtain ⟨hsysid, hrest⟩ := Prod.mk.inj h
  obtain ⟨htimeline, hdboid⟩ := Prod.mk.inj hrest
  simp [setValues, hsysid, htimeline, hdboid]

theorem ConnectionsTable.store_rows (conns : ConnectionsTable τ) (row : ConnectionRow τ) :
    (∀ r ∈ conns.rows, r.id ≠ row.id) ∧ (conns.store row).rows = conns.rows ++ [row] ∨
      (∃ r ∈ conns.rows, r.id = row.id) ∧
        (conns.store row).rows = updateRows (fun r => r.id = row.id) (fun _ => row)
          conns.rows := by
  by_cases hnew : ∀ r ∈ conns.rows, r.id ≠ row.id
  · have hinsert : conns.insert row = some ⟨_, nodup_map_concat conns.pkey hnew⟩ := dif_pos _
    exact Or.inl ⟨hnew, by simp [store, hinsert]⟩
  · have hinsert : conns.insert row = none := by
      apply dif_neg
      intro hnodup
      apply hnew
      intro r hr hid
      rw [List.map_append, List.nodup_append] at hnodup
      exact hnodup.2.2 r.id (List.mem_map_of_mem hr) row.id (by simp) hid
    refine Or.inr ⟨by simpa using hnew, ?_⟩
    simp only [store, hinsert, Option.getD_none, update,
      updateRows]
    apply List.map_congr_left
    intro r _
    by_cases hid : r.id = row.id
    · simp [hid, ConnectionRow.setValues_eq hid]
    · simp [hid]

theorem ConnectionsTable.mem_store (conns : ConnectionsTable τ) (row : ConnectionRow τ) :
    row ∈ (conns.store row).rows := by
  rcases conns.store_rows row with ⟨-, hrows⟩ | ⟨⟨old, hold, hid⟩, hrows⟩
  · simp [hrows]
  · rw [hrows, mem_updateRows]
    exact Or.inr ⟨old, hold, by simpa using hid, rfl⟩

theorem ConnectionsTable.filter_store (conns : ConnectionsTable τ) {row : ConnectionRow τ}
    (hrow : args.selects row.id = true) :
    (conns.store row).rows.filter (fun r => args.selects r.id) = [row] ∧
      (conns.store row).rows.filter (fun r => !args.selects r.id) =
        conns.rows.filter fun r => !args.selects r.id := by
  have hsel : ∀ r : ConnectionRow τ, args.selects r.id = decide (r.id = row.id) := by
    intro r
    rw [Bool.eq_iff_iff, decide_eq_true_eq]
    constructor
    · intro hr
      exact JoinArgs.selects_unique hr hrow
    · intro hid
      rwa [hid]
  simp only [hsel]
  refine ⟨filter_key_eq_singleton (conns.store row).pkey (conns.mem_store row), ?_⟩
  rcases conns.store_rows row with ⟨-, hrows⟩ | ⟨-, hrows⟩
  · simp [hrows, List.filter_append]
  · rw [hrows]
    apply filter_updateRows
    intro r hr
    have hr' : r.id = row.id := by simpa using hr
    simp [hr']

theorem ConnectionsTable.store_store (conns : ConnectionsTable τ) (row : ConnectionRow τ) :
    (conns.store row).store row = conns.store row := by
  have hmem := conns.mem_store row
  rcases (conns.store row).store_rows row with ⟨hnew, -⟩ | ⟨-, hrows⟩
  · exact absurd rfl (hnew row hmem)
  · have hsame : ∀ r ∈ (conns.store row).rows, (if r.id = row.id then row else r) = r := by
      intro r hr
      split_ifs with hid
      · exact List.inj_on_of_nodup_map (conns.store row).pkey hmem hr hid.symm
      · rfl
    ext1
    rw [hrows, updateRows]
    simp only [decide_eq_true_eq]
    rw [List.map_congr_left hsame, List.map_id']

end Store

section Join

variable {nodes : NodesTable τ} {conns conns' : ConnectionsTable τ} {args : JoinArgs τ}
variable {row : ConnectionRow τ}

theorem checkApplyDelay_eq_ok {d : Option ℤ} {stored : Option ℕ}
    (h : checkApplyDelay d = .ok stored) : stored.map Int.ofNat = d := by
  cases d with
  | none =>
    cases h
    rfl
  | some d =>
    simp only [checkApplyDelay] at h
    split_ifs at h with hpos
    cases h
    simp [Int.toNat_of_nonneg hpos]

theorem JoinArgs.connection_eq_ok (h : args.connection = .ok row) :
    args.selects row.id = true ∧ args.nodeDsn = some row.dsn ∧
      row.applyDelay.map Int.ofNat = caseApplyDelay args.applyDelay ∧
      row.replicationSets = args.replicationSets := by
  unfold connection at h
  split at h
  · next hsysid htimeline hdboid hdsn =>
    obtain ⟨applyDelay, hdelay, hrow⟩ := except_bind_eq_ok.mp h
    cases hrow
    exact ⟨selects_iff.mpr ⟨hsysid, htimeline, hdboid⟩, hdsn,
      checkApplyDelay_eq_ok hdelay, rfl⟩
  · cases h

theorem JoinArgs.exists_connection_iff {id : τ × ℕ × ℕ} (hid : args.selects id = true) :
    (∃ row, args.connection = .ok row) ↔ args.Acceptable := by
  obtain ⟨hsysid, htimeline, hdboid⟩ := selects_iff.mp hid
  cases hdsn : args.nodeDsn with
  | none => simp [connection, Acceptable, hsysid, htimeline, hdboid, hdsn]
  | some dsn =>
    have hrow : (∃ row, args.connection = .ok row) ↔
        ∃ stored, checkApplyDelay (caseApplyDelay args.applyDelay) = .ok stored := by
      simp only [connection, hsysid, htimeline, hdboid, hdsn]
      constructor
      · rintro ⟨row, h⟩
        obtain ⟨stored, hstored, -⟩ := except_bind_eq_ok.mp h
        exact ⟨stored, hstored⟩
      · rintro ⟨stored, hstored⟩
        exact ⟨_, except_bind_eq_ok.mpr ⟨stored, hstored, rfl⟩⟩
    rw [hrow]
    cases hdelay : args.applyDelay with
    | none => simp [Acceptable, hdsn, hdelay, caseApplyDelay, checkApplyDelay]
    | some d =>
      have hcase : (∃ stored, checkApplyDelay (caseApplyDelay (some d)) = .ok stored) ↔ -1 ≤ d := by
        by_cases hminus : d = -1
        · simp [hminus, caseApplyDelay, checkApplyDelay]
        · by_cases hpos : 0 ≤ d
          · simp only [caseApplyDelay, Option.some.injEq, hminus, if_false, checkApplyDelay, hpos,
              if_true, Except.ok.injEq, exists_eq', true_iff]
            omega
          · simp only [caseApplyDelay, Option.some.injEq, hminus, if_false, checkApplyDelay, hpos,
              reduceCtorEq, exists_false, false_iff]
            omega
      rw [hcase]
      simp [Acceptable, hdsn, hdelay]

theorem joinNodePrivate_eq_ok : joinNodePrivate nodes conns args = .ok conns' ↔
    (∃ r ∈ nodes.rows, args.selects r.id = true) ∧
      ∃ row, args.connection = .ok row ∧ conns' = conns.store row := by
  -- The selected row has no column, so the variable is null whatever the row is.
  have hselect : selectInto [] nodes args =
      (nodes.rows.any fun r => args.selects r.id, none) := by
    unfold selectInto
    cases hfind : nodes.rows.find? fun r => args.selects r.id with
    | none =>
      have hnone := List.find?_eq_none.mp hfind
      simp only [Prod.mk.injEq, and_true]
      exact (List.any_eq_false.mpr hnone).symm
    | some r =>
      obtain ⟨hsel, hr⟩ := List.find?_eq_some_iff_append.mp hfind
      have hsome : (nodes.rows.any fun r => args.selects r.id) = true :=
        List.any_eq_true.mpr ⟨r, List.mem_of_find?_eq_some hfind, hsel⟩
      simp [hsome]
  have hstore : ∀ row, (match conns.insert row with
      | some conns' => (pure conns' : Except JoinError (ConnectionsTable τ))
      | none => pure (conns.update row)) = .ok (conns.store row) := by
    intro row
    unfold ConnectionsTable.store
    cases conns.insert row <;> rfl
  have hrow : (nodes.rows.any fun r => args.selects r.id) = true ↔
      ∃ r ∈ nodes.rows, args.selects r.id = true := List.any_eq_true
  rw [← hrow, joinNodePrivate, hselect]
  cases nodes.rows.any fun r => args.selects r.id with
  | false => simp [throw, throwThe, MonadExceptOf.throw]
  | true =>
    simp only [Bool.not_true, Bool.false_eq_true, if_false, sqlNe, Option.map_none, reduceCtorEq,
      hstore, true_and]
    rw [except_bind_eq_ok]
    simp only [Except.ok.injEq, eq_comm]

/-- **The target side of a join.** The call does what it should if and only if the row of the
node, should there be one, has status `i`, or the values are refused anyway. -/
theorem registersJoiningNode_iff (nodes : NodesTable τ) (conns : ConnectionsTable τ)
    (args : JoinArgs τ) : RegistersJoiningNode nodes conns args ↔
      ∀ r ∈ nodes.rows, args.selects r.id = true →
        r.status = .copyingInitialData ∨ ¬args.Acceptable := by
  constructor
  · intro hregisters r hr hsel
    by_cases hacceptable : args.Acceptable
    · obtain ⟨row, hrow⟩ := (JoinArgs.exists_connection_iff hsel).mpr hacceptable
      have hcall : joinNodePrivate nodes conns args = .ok (conns.store row) :=
        joinNodePrivate_eq_ok.mpr ⟨⟨r, hr, hsel⟩, row, hrow, rfl⟩
      obtain ⟨⟨r', hr', hsel', hstatus⟩, -⟩ := hregisters _ hcall
      obtain rfl : r = r' := List.inj_on_of_nodup_map nodes.pkey hr hr'
        (JoinArgs.selects_unique hsel hsel')
      exact Or.inl hstatus
    · exact Or.inr hacceptable
  · intro hcond conns' hcall
    obtain ⟨⟨r, hr, hsel⟩, row, hrow, rfl⟩ := joinNodePrivate_eq_ok.mp hcall
    have hacceptable := (JoinArgs.exists_connection_iff hsel).mp ⟨row, hrow⟩
    have hstatus := (hcond r hr hsel).resolve_right fun hnot => hnot hacceptable
    obtain ⟨hkey, hdsn, hdelay, hsets⟩ := JoinArgs.connection_eq_ok hrow
    obtain ⟨hone, hothers⟩ := conns.filter_store hkey
    refine ⟨⟨r, hr, hsel, hstatus⟩, ⟨⟨row, hone, hdsn, hdelay, hsets⟩, hothers⟩, ?_⟩
    exact joinNodePrivate_eq_ok.mpr ⟨⟨r, hr, hsel⟩, row, hrow, (conns.store_store row).symm⟩

end Join

/-- The node with the key (12, 1, 5) is ready already, and nevertheless registered. -/
theorem joinNodePrivate_ready_node :
    ∃ nodes : NodesTable ℕ, nodes.rows = [sampleNode 12 1 5 .ready 2] ∧
      ∃ conns, joinNodePrivate nodes ⟨[], by decide⟩
        ⟨some 12, some 1, some 5, some 7, some (-1), none⟩ = .ok conns ∧
        conns.rows = [⟨12, 1, 5, 7, none, none⟩] :=
  ⟨⟨_, by decide, by decide⟩, rfl, _, rfl, rfl⟩

end Pgactive.Catalog
