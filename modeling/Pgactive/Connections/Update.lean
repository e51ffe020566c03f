import Pgactive.Catalog.SeqIds
import Pgactive.Catalog.Connections
import Pgactive.Connections.Compare

/-!
# Changing the connection string of a node

`pgactive_update_node_conninfo` stores a new string in the rows of the node and in those of all
nodes that have joined through it, which it finds with `pgactive_conninfo_cmp`. It fails for a
string that is no connection string, and if there are no such nodes.
-/

namespace Pgactive.Connections

open Conninfo Identifiers Catalog FallibleState
open Pgactive.Membership (NodeStatus)

/-- The two tables. -/
structure Tables where
  nodes : NodesTable (List Char)
  conns : ConnectionsTable (List Char)

/-- The errors of `pgactive_update_node_conninfo`. -/
inductive UpdateError
  | nodeNotFound (name : List Char)
  | cmp (e : CmpError)
  /-- No row to update `node_init_from_dsn`. -/
  | noInitFromDsn
  /-- No row to update `node_dsn`. -/
  | noNodeDsn
  /-- No row to update `conn_dsn`. -/
  | noConnDsn
deriving DecidableEq

section Rows

variable {ρ ε : Type}

def holds : Except ε Bool → Bool
  | .ok selected => selected
  | .error _ => false

def rowCount (qual : ρ → Except ε Bool) : List ρ → Except ε ℕ
  | [] => .ok 0
  | row :: rows => do
    let selected ← qual row
    let n ← rowCount qual rows
    return if selected then n + 1 else n

theorem rowCount_eq_ok {qual : ρ → Except ε Bool} {rows : List ρ} {n : ℕ} :
    rowCount qual rows = .ok n ↔
      (∀ row ∈ rows, ∃ selected, qual row = .ok selected) ∧
        n = rows.countP fun row => holds (qual row) := by
  induction rows generalizing n with
  | nil => simp [rowCount, eq_comm]
  | cons row rows ih =>
    rw [rowCount, List.forall_mem_cons, List.countP_cons]
    constructor
    · intro h
      obtain ⟨selected, hselected, h⟩ := except_bind_eq_ok.mp h
      obtain ⟨m, hm, h⟩ := except_bind_eq_ok.mp h
      obtain ⟨hothers, rfl⟩ := ih.mp hm
      refine ⟨⟨⟨selected, hselected⟩, hothers⟩, ?_⟩
      cases h
      rw [hselected]
      cases selected with
      | true => rfl
      | false => rfl
    · rintro ⟨⟨⟨selected, hselected⟩, hothers⟩, rfl⟩
      refine except_bind_eq_ok.mpr ⟨selected, hselected, except_bind_eq_ok.mpr ⟨_, ih.mpr
        ⟨hothers, rfl⟩, ?_⟩⟩
      rw [hselected]
      cases selected with
      | true => rfl
      | false => rfl

end Rows

/-! ### The function -/

variable (r : Reading) (pq : Libpq) (statusFirst : Bool)

/-- The condition on the rows of the nodes that have joined through the node with the string
`nodeDsn`. The server chooses whether the status or the connection string is looked at first. The
comparison of strings is strict, so that it has no result for null. -/
def joinedThrough (nodeDsn : Option (List Char)) (row : NodeEntry (List Char)) :
    Except CmpError Bool :=
  match row.initFromDsn, nodeDsn with
  | some initFromDsn, some nodeDsn =>
    if statusFirst && row.status ≠ .ready then .ok false
    else (fun same => same && row.status = .ready) <$> conninfoCmp r pq initFromDsn nodeDsn
  | _, _ => .ok false

def updateInitFromDsn (nodes : NodesTable (List Char)) (nodeDsn : Option (List Char))
    (dsn : List Char) : NodesTable (List Char) :=
  nodes.update (fun row => holds (joinedThrough r pq statusFirst nodeDsn row))
    (fun row => { row with initFromDsn := some dsn }) (fun _ => rfl) fun _ => rfl

def ownNode (nodeName : List Char) (row : NodeEntry (List Char)) : Bool :=
  row.name = nodeName && row.status = .ready

def updateNodeDsn (nodes : NodesTable (List Char)) (nodeName dsn : List Char) :
    NodesTable (List Char) :=
  nodes.update (ownNode nodeName) (fun row => { row with dsn := some dsn }) (fun _ => rfl)
    fun _ => rfl

def ownConnection (node : NodeEntry (List Char)) (row : ConnectionRow (List Char)) : Bool :=
  row.id = node.id && some row.dsn = node.dsn

def updateConnDsn (conns : ConnectionsTable (List Char)) (node : NodeEntry (List Char))
    (dsn : List Char) : ConnectionsTable (List Char) where
  rows := updateRows (ownConnection node) (fun c => { c with dsn := dsn }) conns.rows
  pkey := by
    have hkey : ∀ c : ConnectionRow (List Char), { c with dsn := dsn }.id = c.id := fun _ => rfl
    rw [map_updateRows hkey]
    exact conns.pkey

def updateNodeConninfo (nodeName dsn : List Char) (t : Tables) : Except UpdateError Tables :=
  match t.nodes.rows.find? fun row => row.name = nodeName with
  | none => .error (.nodeNotFound nodeName)
  | some node =>
    match rowCount (joinedThrough r pq statusFirst node.dsn) t.nodes.rows with
    | .error e => .error (.cmp e)
    | .ok n =>
      if n = 0 then .error .noInitFromDsn
      else
        let nodes := updateInitFromDsn r pq statusFirst t.nodes node.dsn dsn
        if nodes.rows.countP (ownNode nodeName) = 0 then .error .noNodeDsn
        else if t.conns.rows.countP (ownConnection node) = 0 then .error .noConnDsn
        else .ok ⟨updateNodeDsn nodes nodeName dsn, updateConnDsn t.conns node dsn⟩

def callUpdateNodeConninfo (nodeName dsn : List Char) (t : Tables) :
    Except UpdateError Unit × Tables :=
  match updateNodeConninfo r pq statusFirst nodeName dsn t with
  | .ok t' => (.ok (), t')
  | .error e => (.error e, t)

/-! ### What it should do -/

def sameOptions (conninfo1 conninfo2 : List Char) : Bool :=
  match pq.conninfoParse conninfo1, pq.conninfoParse conninfo2 with
  | some values1, some values2 => pq.entries values1 = pq.entries values2
  | _, _ => false

def FoldedSame (conninfo1 conninfo2 : List Char) : Prop :=
  ∃ values1 values2, pq.conninfoParse conninfo1 = some values1 ∧
    pq.conninfoParse conninfo2 = some values2 ∧ SameFolded r pq values1 values2

def wantedInitFrom (nodeDsn dsn : List Char) (row : NodeEntry (List Char)) :
    Option (List Char) :=
  if row.status = .ready && row.initFromDsn.any (sameOptions pq · nodeDsn) then some dsn
  else row.initFromDsn

def Wanted (node : NodeEntry (List Char)) (nodeDsn dsn : List Char) (t t' : Tables) : Prop :=
  (t'.nodes.rows = t.nodes.rows.map fun row =>
    { row with
      dsn := if row.name = node.name then some dsn else row.dsn
      initFromDsn := wantedInitFrom pq nodeDsn dsn row }) ∧
    t'.conns.rows = t.conns.rows.map fun c =>
      if c.id = node.id then { c with dsn := dsn } else c

/-! ### The updates -/

section Update

variable {r pq statusFirst} {node : NodeEntry (List Char)} {nodeDsn dsn : List Char} {t : Tables}

variable {conninfo1 conninfo2 : List Char}

theorem FoldedSame.of_sameOptions (h : sameOptions pq conninfo1 conninfo2 = true) :
    FoldedSame r pq conninfo1 conninfo2 := by
  unfold sameOptions at h
  split at h
  · next values1 values2 h1 h2 =>
    exact ⟨values1, values2, h1, h2, .of_entries_eq (of_decide_eq_true h)⟩
  · cases h

theorem conninfoCmp_eq_true_iff :
    conninfoCmp r pq conninfo1 conninfo2 = .ok true ↔ FoldedSame r pq conninfo1 conninfo2 := by
  constructor
  · intro h
    unfold conninfoCmp at h
    split at h
    · cases h
    · next values1 h1 =>
      split at h
      · cases h
      · next values2 h2 =>
        exact ⟨values1, values2, h1, h2, cmpOptions_iff.mp (Except.ok.inj h)⟩
  · rintro ⟨values1, values2, h1, h2, h⟩
    exact (conninfoCmp_eq_true h1 h2).mpr h

theorem exists_conninfoCmp_iff :
    (∃ same, conninfoCmp r pq conninfo1 conninfo2 = .ok same) ↔
      (pq.conninfoParse conninfo1).isSome = true ∧ (pq.conninfoParse conninfo2).isSome = true := by
  unfold conninfoCmp
  cases pq.conninfoParse conninfo1 with
  | none => simp
  | some values1 =>
    cases pq.conninfoParse conninfo2 with
    | none => simp
    | some values2 => simp

variable {row : NodeEntry (List Char)}

theorem holds_joinedThrough :
    holds (joinedThrough r pq statusFirst (some nodeDsn) row) = true ↔
      row.status = .ready ∧ ∃ init, row.initFromDsn = some init ∧ FoldedSame r pq init nodeDsn := by
  unfold joinedThrough
  cases hinit : row.initFromDsn with
  | none => simp [holds]
  | some init =>
    simp only [Option.some.injEq, exists_eq_left', ← conninfoCmp_eq_true_iff]
    by_cases hready : row.status = .ready
    · simp only [hready, ne_eq, not_true_eq_false, decide_false, Bool.and_false,
        Bool.false_eq_true, if_false, decide_true, Bool.and_true, true_and]
      cases conninfoCmp r pq init nodeDsn with
      | ok same => simp [holds]
      | error e => simp [holds]
    · have hfalse : holds ((fun same => same && decide (row.status = .ready)) <$>
          conninfoCmp r pq init nodeDsn) = false := by
        cases conninfoCmp r pq init nodeDsn with
        | ok same => simp [holds, hready]
        | error e => rfl
      simp only [hready, false_and, iff_false, Bool.not_eq_true]
      split_ifs
      · rfl
      · simpa [hready] using hfalse

theorem exists_joinedThrough_iff :
    (∃ selected, joinedThrough r pq statusFirst (some nodeDsn) row = .ok selected) ↔
      ∀ init, row.initFromDsn = some init → (statusFirst = true → row.status = .ready) →
        (pq.conninfoParse init).isSome = true ∧ (pq.conninfoParse nodeDsn).isSome = true := by
  unfold joinedThrough
  cases hinit : row.initFromDsn with
  | none => simp
  | some init =>
    simp only [Option.some.injEq, forall_eq', ← exists_conninfoCmp_iff (r := r)]
    by_cases hlooked : statusFirst = true → row.status = .ready
    · have hnot : ¬(statusFirst && decide (row.status ≠ .ready)) = true := by
        simpa using hlooked
      rw [if_neg hnot]
      simp only [except_map_eq_ok]
      constructor
      · rintro ⟨selected, same, hsame, -⟩ -
        exact ⟨same, hsame⟩
      · intro h
        obtain ⟨same, hsame⟩ := h hlooked
        exact ⟨_, same, hsame, rfl⟩
    · have hskip : (statusFirst && decide (row.status ≠ .ready)) = true := by
        simpa using hlooked
      simp [hlooked]

theorem ownNode_initFromDsn (nodeName : List Char) (row : NodeEntry (List Char)) (selected : Bool) :
    ownNode nodeName (if selected then { row with initFromDsn := some dsn } else row) =
      ownNode nodeName row := by
  cases selected with
  | true => rfl
  | false => rfl

theorem rows_updateNodeDsn (nodes : NodesTable (List Char)) (nodeName : List Char)
    (oldDsn : Option (List Char)) :
    (updateNodeDsn (updateInitFromDsn r pq statusFirst nodes oldDsn dsn) nodeName dsn).rows =
      nodes.rows.map fun row =>
        { row with
          dsn := if ownNode nodeName row then some dsn else row.dsn
          initFromDsn :=
            if holds (joinedThrough r pq statusFirst oldDsn row) then some dsn
            else row.initFromDsn } := by
  change updateRows _ _ (updateRows _ _ nodes.rows) = _
  rw [updateRows, updateRows, List.map_map]
  refine List.map_congr_left fun row _ => ?_
  dsimp only [Function.comp_apply]
  rw [ownNode_initFromDsn]
  cases holds (joinedThrough r pq statusFirst oldDsn row) with
  | true =>
    cases ownNode nodeName row with
    | true => rfl
    | false => rfl
  | false =>
    cases ownNode nodeName row with
    | true => rfl
    | false => rfl

theorem ownNode_iff (hnode : node ∈ t.nodes.rows) (hready : node.status = .ready)
    (hrow : row ∈ t.nodes.rows) : ownNode node.name row = true ↔ row.name = node.name := by
  rw [ownNode, Bool.and_eq_true, decide_eq_true_eq, decide_eq_true_eq, and_iff_left_iff_imp]
  intro hname
  rw [List.inj_on_of_nodup_map t.nodes.nodeName hrow hnode hname, hready]

variable {conn : ConnectionRow (List Char)}

theorem ownConnection_iff (hconn : conn ∈ t.conns.rows) (hid : conn.id = node.id)
    (hdsn : node.dsn = some conn.dsn) {c : ConnectionRow (List Char)} (hc : c ∈ t.conns.rows) :
    ownConnection node c = true ↔ c.id = node.id := by
  rw [ownConnection, Bool.and_eq_true, decide_eq_true_eq, decide_eq_true_eq, and_iff_left_iff_imp]
  intro hcid
  rw [List.inj_on_of_nodup_map t.conns.pkey hc hconn (hcid.trans hid.symm), hdsn]

theorem find?_nodeName (hnode : node ∈ t.nodes.rows) :
    (t.nodes.rows.find? fun row => row.name = node.name) = some node := by
  cases hfind : t.nodes.rows.find? fun row => row.name = node.name with
  | none => exact absurd (List.find?_eq_none.mp hfind node hnode) (by simp)
  | some row =>
    have hname := List.find?_some hfind
    rw [decide_eq_true_eq] at hname
    rw [List.inj_on_of_nodup_map t.nodes.nodeName (List.mem_of_find?_eq_some hfind) hnode hname]

theorem updateNodeConninfo_eq_ok (hnode : node ∈ t.nodes.rows) (hready : node.status = .ready)
    (hconn : conn ∈ t.conns.rows) (hid : conn.id = node.id) (hdsn : node.dsn = some conn.dsn)
    {t' : Tables} :
    updateNodeConninfo r pq statusFirst node.name dsn t = .ok t' ↔
      (∀ row ∈ t.nodes.rows, ∃ selected,
        joinedThrough r pq statusFirst node.dsn row = .ok selected) ∧
      (∃ row ∈ t.nodes.rows, holds (joinedThrough r pq statusFirst node.dsn row) = true) ∧
      t' = ⟨updateNodeDsn (updateInitFromDsn r pq statusFirst t.nodes node.dsn dsn) node.name dsn,
        updateConnDsn t.conns node dsn⟩ := by
  have hown : (updateInitFromDsn r pq statusFirst t.nodes node.dsn dsn).rows.countP
      (ownNode node.name) ≠ 0 := by
    rw [Ne, List.countP_eq_zero]
    intro h
    refine h _ (List.mem_map_of_mem hnode) ?_
    rw [ownNode_initFromDsn]
    exact (ownNode_iff hnode hready hnode).mpr rfl
  have hownConn : t.conns.rows.countP (ownConnection node) ≠ 0 := by
    rw [Ne, List.countP_eq_zero]
    exact fun h => h conn hconn ((ownConnection_iff hconn hid hdsn hconn).mpr hid)
  rw [updateNodeConninfo, find?_nodeName hnode]
  dsimp only
  rw [if_neg hown, if_neg hownConn]
  constructor
  · intro h
    cases hcount : rowCount (joinedThrough r pq statusFirst node.dsn) t.nodes.rows with
    | error e =>
      rw [hcount] at h
      cases h
    | ok n =>
      rw [hcount] at h
      obtain ⟨hall, rfl⟩ := rowCount_eq_ok.mp hcount
      dsimp only at h
      split_ifs at h with hzero
      rw [List.countP_eq_zero] at hzero
      push Not at hzero
      cases h
      exact ⟨hall, hzero, rfl⟩
  · rintro ⟨hall, ⟨row, hrow, hholds⟩, rfl⟩
    rw [rowCount_eq_ok.mpr ⟨hall, rfl⟩]
    dsimp only
    rw [if_neg]
    rw [List.countP_eq_zero]
    exact fun h => h row hrow hholds

theorem initFromDsn_eq_wanted_iff :
    (if holds (joinedThrough r pq statusFirst (some nodeDsn) row) then some dsn
      else row.initFromDsn) = wantedInitFrom pq nodeDsn dsn row ↔
      (row.status = .ready → ∀ init, row.initFromDsn = some init →
        FoldedSame r pq init nodeDsn → sameOptions pq init nodeDsn = true ∨ init = dsn) := by
  unfold wantedInitFrom
  by_cases hstatus : row.status = .ready
  · cases hinit : row.initFromDsn with
    | none =>
      have hholds : ¬holds (joinedThrough r pq statusFirst (some nodeDsn) row) = true := by
        simp [holds_joinedThrough, hinit]
      simp [hholds]
    | some init =>
      by_cases hfolded : FoldedSame r pq init nodeDsn
      · have hholds : holds (joinedThrough r pq statusFirst (some nodeDsn) row) = true :=
          holds_joinedThrough.mpr ⟨hstatus, init, hinit, hfolded⟩
        by_cases hsame : sameOptions pq init nodeDsn = true
        · simp [hholds, hstatus, hsame]
        · have heq : some dsn = some init ↔ init = dsn := by rw [Option.some.injEq, eq_comm]
          simp [hholds, hstatus, hsame, hfolded, ← heq]
      · have hholds : ¬holds (joinedThrough r pq statusFirst (some nodeDsn) row) = true := by
          simp [holds_joinedThrough, hinit, hfolded]
        have hsame : ¬sameOptions pq init nodeDsn = true := fun h =>
          hfolded (.of_sameOptions h)
        simp [hholds, hsame, hfolded]
  · have hholds : ¬holds (joinedThrough r pq statusFirst (some nodeDsn) row) = true := by
      simp [holds_joinedThrough, hstatus]
    simp [hholds, hstatus]

/-- The tables after the updates are the wanted ones unless a row was taken for the same that is
not, and did not have the new string already. -/
theorem wanted_iff (hnode : node ∈ t.nodes.rows) (hready : node.status = .ready)
    (hconn : conn ∈ t.conns.rows) (hid : conn.id = node.id) (hdsn : node.dsn = some conn.dsn) :
    Wanted pq node conn.dsn dsn t
        ⟨updateNodeDsn (updateInitFromDsn r pq statusFirst t.nodes node.dsn dsn) node.name dsn,
          updateConnDsn t.conns node dsn⟩ ↔
      ∀ row ∈ t.nodes.rows, row.status = .ready → ∀ init, row.initFromDsn = some init →
        FoldedSame r pq init conn.dsn → sameOptions pq init conn.dsn = true ∨ init = dsn := by
  have hconns : (updateConnDsn t.conns node dsn).rows = t.conns.rows.map fun c =>
      if c.id = node.id then { c with dsn := dsn } else c := by
    refine List.map_congr_left fun c hc => ?_
    simp only [ownConnection_iff hconn hid hdsn hc]
  rw [Wanted, rows_updateNodeDsn, and_iff_left hconns, List.map_inj_left, hdsn]
  refine forall₂_congr fun row hrow => ?_
  have hcolumn : ∀ init : Option (List Char),
      (({ row with
          dsn := if ownNode node.name row then some dsn else row.dsn
          initFromDsn := init } : NodeEntry (List Char)) =
        { row with
          dsn := if row.name = node.name then some dsn else row.dsn
          initFromDsn := wantedInitFrom pq conn.dsn dsn row }) ↔
        init = wantedInitFrom pq conn.dsn dsn row := by
    intro init
    simp only [ownNode_iff hnode hready hrow, NodeEntry.mk.injEq, true_and, and_true]
  rw [hcolumn]
  exact initFromDsn_eq_wanted_iff

theorem callUpdateNodeConninfo_eq_ok {nodeName : List Char} {t' : Tables} :
    callUpdateNodeConninfo r pq statusFirst nodeName dsn t = (.ok (), t') ↔
      updateNodeConninfo r pq statusFirst nodeName dsn t = .ok t' := by
  unfold callUpdateNodeConninfo
  cases updateNodeConninfo r pq statusFirst nodeName dsn t with
  | ok t'' => simp
  | error e => simp

theorem callUpdateNodeConninfo_failed {nodeName : List Char} {e : UpdateError}
    (h : (callUpdateNodeConninfo r pq statusFirst nodeName dsn t).1 = .error e) :
    (callUpdateNodeConninfo r pq statusFirst nodeName dsn t).2 = t := by
  unfold callUpdateNodeConninfo at h ⊢
  cases hupdate : updateNodeConninfo r pq statusFirst nodeName dsn t with
  | ok t' =>
    rw [hupdate] at h
    cases h
  | error e' => rfl

end Update

/-- The call succeeds, stores the new string where it should and changes nothing else, exactly if
all strings that it looks at are valid, some ready node has joined through the node, and no ready
node has joined with a string that is different in nothing but the letter case of its values. -/
theorem callUpdateNodeConninfo_iff (r : Reading) (pq : Libpq) (statusFirst : Bool) (t : Tables)
    (node : NodeEntry (List Char)) (conn : ConnectionRow (List Char)) (dsn : List Char)
    (hnode : node ∈ t.nodes.rows) (hready : node.status = .ready) (hconn : conn ∈ t.conns.rows)
    (hid : conn.id = node.id) (hdsn : node.dsn = some conn.dsn) :
    ((∃ t', callUpdateNodeConninfo r pq statusFirst node.name dsn t = (.ok (), t') ∧
        Wanted pq node conn.dsn dsn t t') ∧
      ∀ nodeName' dsn' e, (callUpdateNodeConninfo r pq statusFirst nodeName' dsn' t).1 = .error e →
        (callUpdateNodeConninfo r pq statusFirst nodeName' dsn' t).2 = t) ↔
      (∀ row ∈ t.nodes.rows, ∀ init, row.initFromDsn = some init →
        (statusFirst = true → row.status = .ready) →
        (pq.conninfoParse init).isSome = true ∧ (pq.conninfoParse conn.dsn).isSome = true) ∧
      (∃ row ∈ t.nodes.rows, row.status = .ready ∧
        ∃ init, row.initFromDsn = some init ∧ FoldedSame r pq init conn.dsn) ∧
      ∀ row ∈ t.nodes.rows, row.status = .ready → ∀ init, row.initFromDsn = some init →
        FoldedSame r pq init conn.dsn → sameOptions pq init conn.dsn = true ∨ init = dsn := by
  rw [and_iff_left fun _ _ _ h => callUpdateNodeConninfo_failed h]
  simp only [callUpdateNodeConninfo_eq_ok, updateNodeConninfo_eq_ok hnode hready hconn hid hdsn]
  constructor
  · rintro ⟨t', ⟨hall, hjoined, rfl⟩, hwanted⟩
    rw [hdsn] at hall hjoined
    simp only [exists_joinedThrough_iff, holds_joinedThrough] at hall hjoined
    exact ⟨hall, hjoined, (wanted_iff hnode hready hconn hid hdsn).mp hwanted⟩
  · rintro ⟨hall, hjoined, hsame⟩
    refine ⟨_, ⟨?_, ?_, rfl⟩, (wanted_iff hnode hready hconn hid hdsn).mpr hsame⟩
    · rw [hdsn]
      exact fun row hrow => exists_joinedThrough_iff.mpr (hall row hrow)
    · rw [hdsn]
      simp only [holds_joinedThrough]
      exact hjoined

def joinedNode (name : Char) (dsn : List Char) (initFromDsn : Option (List Char)) :
    NodeEntry (List Char) :=
  ⟨[name], 1, 5, .ready, [name], some dsn, initFromDsn, some false, none⟩

def connectionTo (name : Char) (dsn : List Char) : ConnectionRow (List Char) :=
  ⟨[name], 1, 5, dsn, none, none⟩

def oldConninfo : List Char := passwordKey ++ ['=', 'a']

def newConninfo : List Char := passwordKey ++ ['=', 'c']

def twoNodes : Tables where
  nodes :=
    { rows := [joinedNode 'a' oldConninfo none, joinedNode 'b' [] (some oldConninfo)]
      pkey := by decide
      nodeName := by decide }
  conns :=
    { rows := [connectionTo 'a' oldConninfo, connectionTo 'b' []]
      pkey := by decide }

/-- Nobody has joined through the second node, and its connection string cannot be changed. -/
theorem callUpdateNodeConninfo_not_joined :
    joinedNode 'b' [] (some oldConninfo) ∈ twoNodes.nodes.rows ∧
      connectionTo 'b' [] ∈ twoNodes.conns.rows ∧
      (passwordLibpq.conninfoParse newConninfo).isSome = true ∧
      (callUpdateNodeConninfo Ddl.asciiReading passwordLibpq false ['b'] newConninfo
        twoNodes).1 = .error .noInitFromDsn :=
  ⟨List.mem_cons_of_mem _ List.mem_cons_self, List.mem_cons_of_mem _ List.mem_cons_self, rfl, rfl⟩

/-- The string of the first node can be changed. -/
theorem callUpdateNodeConninfo_iff_joined :
    joinedNode 'a' oldConninfo none ∈ twoNodes.nodes.rows ∧
      ∃ t', callUpdateNodeConninfo Ddl.asciiReading passwordLibpq false ['a'] newConninfo
          twoNodes = (.ok (), t') ∧
        Wanted passwordLibpq (joinedNode 'a' oldConninfo none) oldConninfo newConninfo
          twoNodes t' := by
  refine ⟨List.mem_cons_self, ?_⟩
  have hinit : ∀ row ∈ twoNodes.nodes.rows, ∀ init, row.initFromDsn = some init →
      init = oldConninfo := by
    intro row hrow init hinit
    rcases List.mem_cons.mp hrow with rfl | hrow
    · cases hinit
    · rw [List.mem_singleton.mp hrow] at hinit
      cases hinit
      rfl
  refine ((callUpdateNodeConninfo_iff Ddl.asciiReading passwordLibpq false twoNodes
    (joinedNode 'a' oldConninfo none) (connectionTo 'a' oldConninfo) newConninfo List.mem_cons_self
    rfl List.mem_cons_self rfl rfl).mpr ⟨?_, ?_, ?_⟩).1
  · intro row hrow init h _
    rw [hinit row hrow init h]
    exact ⟨rfl, rfl⟩
  · exact ⟨joinedNode 'b' [] (some oldConninfo), List.mem_cons_of_mem _ List.mem_cons_self, rfl,
      oldConninfo, rfl, passwordValues ['a'], passwordValues ['a'], rfl, rfl, .refl _⟩
  · intro row hrow _ init h _
    rw [hinit row hrow init h]
    exact .inl rfl

end Pgactive.Connections
