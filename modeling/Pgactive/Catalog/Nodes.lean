import Pgactive.Membership.Nodes

/-!
# The rows of `pgactive_nodes`

Before an insert the trigger `pgactive_handle_rejoin` takes away the row that a detached node has
left behind. It finds that row by name, timeline and database and deletes by the primary key, so
that a row that shares some of these with the new one can make the insert fail.
-/

namespace Pgactive.Catalog

open Pgactive.Membership (NodeStatus)

variable {τ : Type} [DecidableEq τ]

/-- A row of `pgactive_nodes`; texts are of the type `τ`. -/
structure NodeEntry (τ : Type) where
  /-- Column `node_sysid`. -/
  sysid : τ
  /-- Column `node_timeline`. -/
  timeline : ℕ
  /-- Column `node_dboid`. -/
  dboid : ℕ
  /-- Column `node_status`. -/
  status : NodeStatus
  /-- Column `node_name`. -/
  name : τ
  /-- Column `node_dsn`. -/
  dsn : Option τ
  /-- Column `node_init_from_dsn`. -/
  initFromDsn : Option τ
  /-- Column `node_read_only`. -/
  readOnly : Option Bool
  /-- Column `node_seq_id`. -/
  seqId : Option ℕ
  deriving DecidableEq

/-- The primary key of a row. -/
def NodeEntry.id (r : NodeEntry τ) : τ × ℕ × ℕ := (r.sysid, r.timeline, r.dboid)

/-- `pgactive_nodes`: no two rows have the same key or the same name. -/
structure NodesTable (τ : Type) where
  rows : List (NodeEntry τ)
  pkey : (rows.map NodeEntry.id).Nodup
  /-- Index `pgactive_nodes_node_name` is unique. -/
  nodeName : (rows.map NodeEntry.name).Nodup

/-- The constraint that a statement violates. -/
inductive NodesViolation
  | pkey
  | nodeName
  deriving DecidableEq

def NodesTable.ofRows (rows : List (NodeEntry τ)) : Except NodesViolation (NodesTable τ) :=
  if hid : (rows.map NodeEntry.id).Nodup then
    if hname : (rows.map NodeEntry.name).Nodup then .ok ⟨rows, hid, hname⟩
    else .error .nodeName
  else .error .pkey

variable (tbl : NodesTable τ)

def NodesTable.delete (p : NodeEntry τ → Bool) : NodesTable τ where
  rows := tbl.rows.filter fun r => !p r
  pkey := tbl.pkey.sublist (List.filter_sublist.map _)
  nodeName := tbl.nodeName.sublist (List.filter_sublist.map _)

def updateRows {ρ : Type} (p : ρ → Bool) (f : ρ → ρ) (rows : List ρ) : List ρ :=
  rows.map fun r => if p r then f r else r

def NodeEntry.leftBy (new r : NodeEntry τ) : Bool :=
  r.status = .killed && r.timeline = new.timeline && r.dboid = new.dboid && r.name = new.name

def NodeEntry.replacedBy (new r : NodeEntry τ) : Bool :=
  r.status = .killed && r.sysid = new.sysid && r.timeline = new.timeline && r.dboid = new.dboid

def rekeyRows (new : NodeEntry τ) (rows : List (NodeEntry τ)) : List (NodeEntry τ) :=
  updateRows new.leftBy (fun r => { r with sysid := new.sysid }) rows

/-- `pgactive_handle_rejoin`, before an insert: the table that it leaves, and the row to be
inserted, if any. -/
def handleRejoin (new : NodeEntry τ) :
    Except NodesViolation (NodesTable τ × Option (NodeEntry τ)) := do
  if new.status = .killed then return (tbl, none)
  else if new.status = .copyingInitialData then
    let tbl ← NodesTable.ofRows (rekeyRows new tbl.rows)
    return (tbl.delete new.replacedBy, some new)
  else return (tbl, some new)

/-- `INSERT INTO pgactive_nodes` of one row, also by `COPY`. An error undoes what the trigger
has done. -/
def insertNode (new : NodeEntry τ) : Except NodesViolation (NodesTable τ) := do
  let (tbl, row) ← handleRejoin tbl new
  match row with
  | none => return tbl
  | some row => NodesTable.ofRows (tbl.rows ++ [row])

def nodeNamePresent (name : τ) : ℕ :=
  tbl.rows.countP fun r => r.name = name && r.status ≠ .killed

/-- The insert succeeds; the new row is the only one with its name and the only one with its
key, and the rows with another name and another key are as before. -/
def Rejoins (new : NodeEntry τ) : Prop :=
  ∃ tbl', insertNode tbl new = .ok tbl' ∧
    tbl'.rows.filter (fun r => r.name = new.name) = [new] ∧
    tbl'.rows.filter (fun r => r.id = new.id) = [new] ∧
    tbl'.rows.filter (fun r => r.name ≠ new.name ∧ r.id ≠ new.id) =
      tbl.rows.filter fun r => r.name ≠ new.name ∧ r.id ≠ new.id

def Admitted (new : NodeEntry τ) : Prop :=
  nodeNamePresent tbl new.name = 0 ∧ ∀ r ∈ tbl.rows, r.id = new.id → r.status = .killed

section Update

variable {ρ : Type} {p q : ρ → Bool} {f : ρ → ρ} {rows : List ρ}

theorem mem_updateRows {r : ρ} :
    r ∈ updateRows p f rows ↔ (r ∈ rows ∧ p r = false) ∨ ∃ r' ∈ rows, p r' = true ∧ r = f r' := by
  simp only [updateRows, List.mem_map]
  constructor
  · rintro ⟨r', hr', rfl⟩
    cases hp : p r' with
    | true => exact Or.inr ⟨r', hr', hp, if_pos rfl⟩
    | false => exact Or.inl ⟨hr', hp⟩
  · rintro (⟨hr, hp⟩ | ⟨r', hr', hp, rfl⟩)
    · exact ⟨r, hr, by simp [hp]⟩
    · exact ⟨r', hr', if_pos hp⟩

variable {κ : Type} {key : ρ → κ}

theorem map_updateRows (h : ∀ r, key (f r) = key r) :
    (updateRows p f rows).map key = rows.map key := by
  rw [updateRows, List.map_map]
  apply List.map_congr_left
  intro r _
  simp only [Function.comp_apply]
  split_ifs
  · exact h r
  · rfl

theorem filter_updateRows (h : ∀ r, p r = true → q r = false ∧ q (f r) = false) :
    (updateRows p f rows).filter q = rows.filter q := by
  induction rows with
  | nil => rfl
  | cons r rows ih =>
    have htail : (updateRows p f (r :: rows)).filter q =
        ((if p r then f r else r) :: updateRows p f rows).filter q := rfl
    rw [htail, List.filter_cons, List.filter_cons, ih]
    cases hp : p r with
    | false => rfl
    | true =>
      obtain ⟨hr, hfr⟩ := h r hp
      simp [hr, hfr]

theorem nodup_map_concat {new : ρ} (h : (rows.map key).Nodup) (hnew : ∀ r ∈ rows, key r ≠ key new) :
    ((rows ++ [new]).map key).Nodup := by
  rw [List.map_append, List.map_singleton, ← List.concat_eq_append]
  refine h.concat ?_
  intro hmem
  obtain ⟨r, hr, hkey⟩ := List.mem_map.mp hmem
  exact hnew r hr hkey

theorem filter_key_eq_singleton [DecidableEq κ] (h : (rows.map key).Nodup) {r : ρ} (hr : r ∈ rows) :
    rows.filter (fun r' => key r' = key r) = [r] := by
  induction rows with
  | nil => cases hr
  | cons a rows ih =>
    rw [List.map_cons, List.nodup_cons] at h
    rcases List.mem_cons.mp hr with rfl | hr
    · have hnone : rows.filter (fun r' => key r' = key r) = [] := by
        rw [List.filter_eq_nil_iff]
        intro r' hr' hkey
        exact h.1 (List.mem_map.mpr ⟨r', hr', by simpa using hkey⟩)
      simp [hnone]
    · have hne : key a ≠ key r := fun hkey => h.1 (List.mem_map.mpr ⟨r, hr, hkey.symm⟩)
      simp [hne, ih h.2 hr]

end Update

section Rejoin

variable {tbl : NodesTable τ} {new : NodeEntry τ}

theorem NodesTable.ofRows_eq_ok {rows : List (NodeEntry τ)} {tbl : NodesTable τ} :
    ofRows rows = .ok tbl ↔ tbl.rows = rows := by
  constructor
  · intro h
    unfold ofRows at h
    split_ifs at h
    cases h
    rfl
  · rintro rfl
    simp [ofRows, tbl.pkey, tbl.nodeName]

theorem map_name_rekeyRows (new : NodeEntry τ) (rows : List (NodeEntry τ)) :
    (rekeyRows new rows).map NodeEntry.name = rows.map NodeEntry.name :=
  map_updateRows fun _ => rfl

theorem insertNode_eq_ok_iff (hstatus : new.status = .copyingInitialData) {tbl' : NodesTable τ} :
    insertNode tbl new = .ok tbl' ↔
      ((rekeyRows new tbl.rows).map NodeEntry.id).Nodup ∧
        tbl'.rows = (rekeyRows new tbl.rows).filter (fun r => !new.replacedBy r) ++ [new] := by
  have hnames : ((rekeyRows new tbl.rows).map NodeEntry.name).Nodup := by
    rw [map_name_rekeyRows]
    exact tbl.nodeName
  by_cases hkey : ((rekeyRows new tbl.rows).map NodeEntry.id).Nodup
  · have hrekey : NodesTable.ofRows (rekeyRows new tbl.rows) = .ok ⟨_, hkey, hnames⟩ :=
      NodesTable.ofRows_eq_ok.mpr rfl
    have hinsert : insertNode tbl new = NodesTable.ofRows
        ((rekeyRows new tbl.rows).filter (fun r => !new.replacedBy r) ++ [new]) := by
      simp [insertNode, handleRejoin, hstatus, hrekey, NodesTable.delete, bind, Except.bind, pure,
        Except.pure]
    rw [hinsert, NodesTable.ofRows_eq_ok, and_iff_right hkey]
  · have hrekey : NodesTable.ofRows (rekeyRows new tbl.rows) = .error .pkey := dif_neg hkey
    simp [insertNode, handleRejoin, hstatus, hrekey, hkey, bind, Except.bind]

variable {r : NodeEntry τ}

theorem NodeEntry.leftBy_iff :
    new.leftBy r = true ↔ r.status = .killed ∧ r.timeline = new.timeline ∧
      r.dboid = new.dboid ∧ r.name = new.name := by
  simp [leftBy, and_assoc]

theorem NodeEntry.replacedBy_iff :
    new.replacedBy r = true ↔ r.status = .killed ∧ r.id = new.id := by
  simp [replacedBy, id, and_assoc]

theorem Admitted.killed (h : Admitted tbl new) (hr : r ∈ tbl.rows)
    (hsame : r.name = new.name ∨ r.id = new.id) : r.status = .killed := by
  rcases hsame with hname | hid
  · have hcount := List.countP_eq_zero.mp h.1 r hr
    simpa [hname] using hcount
  · exact h.2 r hr hid

theorem Admitted.leftBy (h : Admitted tbl new) (hr : r ∈ tbl.rows) (hname : r.name = new.name)
    (htimeline : r.timeline = new.timeline) (hdboid : r.dboid = new.dboid) : new.leftBy r = true :=
  NodeEntry.leftBy_iff.mpr ⟨h.killed hr (.inl hname), htimeline, hdboid, hname⟩

theorem map_id_rekeyRows (new : NodeEntry τ) (rows : List (NodeEntry τ)) :
    (rekeyRows new rows).map NodeEntry.id =
      rows.map fun r => if new.leftBy r then new.id else r.id := by
  rw [rekeyRows, updateRows, List.map_map]
  apply List.map_congr_left
  intro r _
  simp only [Function.comp_apply]
  split_ifs with hleft
  · obtain ⟨-, htimeline, hdboid, -⟩ := NodeEntry.leftBy_iff.mp hleft
    simp [NodeEntry.id, htimeline, hdboid]
  · rfl

theorem rekeyRows_pkey_iff (tbl : NodesTable τ) (new : NodeEntry τ) :
    ((rekeyRows new tbl.rows).map NodeEntry.id).Nodup ↔
      ∀ r ∈ tbl.rows, new.leftBy r = true →
        r.sysid = new.sysid ∨ ∀ r' ∈ tbl.rows, r'.id ≠ new.id := by
  rw [map_id_rekeyRows]
  constructor
  · intro hnodup r hr hleft
    by_contra hcon
    obtain ⟨hsysid, hother⟩ := not_or.mp hcon
    simp only [not_forall, not_not] at hother
    obtain ⟨r', hr', hid⟩ := hother
    have hsame : r = r' := List.inj_on_of_nodup_map hnodup hr hr' (by simp [hleft, hid])
    subst hsame
    exact hsysid (congrArg Prod.fst hid)
  · intro hfree
    -- Of two different rows one at most is given the new key, and no other row has it then.
    have hclash : ∀ r ∈ tbl.rows, ∀ r' ∈ tbl.rows, new.leftBy r = true → r'.id = new.id →
        r = r' := by
      intro r hr r' hr' hleft hid
      obtain ⟨-, htimeline, hdboid, -⟩ := NodeEntry.leftBy_iff.mp hleft
      rcases hfree r hr hleft with hsysid | hnone
      · refine List.inj_on_of_nodup_map tbl.pkey hr hr' ?_
        rw [hid]
        simp [NodeEntry.id, hsysid, htimeline, hdboid]
      · exact absurd hid (hnone r' hr')
    refine List.Nodup.map_on ?_ (List.Nodup.of_map _ tbl.pkey)
    intro r hr r' hr' heq
    by_cases hleft : new.leftBy r = true
    · by_cases hleft' : new.leftBy r' = true
      · refine List.inj_on_of_nodup_map tbl.nodeName hr hr' ?_
        rw [(NodeEntry.leftBy_iff.mp hleft).2.2.2, (NodeEntry.leftBy_iff.mp hleft').2.2.2]
      · rw [if_pos hleft, if_neg hleft'] at heq
        exact hclash r hr r' hr' hleft heq.symm
    · by_cases hleft' : new.leftBy r' = true
      · rw [if_neg hleft, if_pos hleft'] at heq
        exact (hclash r' hr' r hr hleft' heq).symm
      · rw [if_neg hleft, if_neg hleft'] at heq
        exact List.inj_on_of_nodup_map tbl.pkey hr hr' heq

theorem mem_kept_iff (hadmitted : Admitted tbl new) :
    r ∈ (rekeyRows new tbl.rows).filter (fun r => !new.replacedBy r) ↔
      r ∈ tbl.rows ∧ new.leftBy r = false ∧ r.id ≠ new.id := by
  rw [List.mem_filter, rekeyRows, mem_updateRows]
  constructor
  · rintro ⟨⟨hr, hleft⟩ | ⟨r', hr', hleft, rfl⟩, hkeep⟩
    · refine ⟨hr, hleft, fun hid => ?_⟩
      have hgone := NodeEntry.replacedBy_iff.mpr ⟨hadmitted.killed hr (.inr hid), hid⟩
      simp [hgone] at hkeep
    · obtain ⟨hkilled, htimeline, hdboid, -⟩ := NodeEntry.leftBy_iff.mp hleft
      have hgone : new.replacedBy { r' with sysid := new.sysid } = true :=
        NodeEntry.replacedBy_iff.mpr ⟨hkilled, by simp [NodeEntry.id, htimeline, hdboid]⟩
      simp [hgone] at hkeep
  · rintro ⟨hr, hleft, hid⟩
    refine ⟨Or.inl ⟨hr, hleft⟩, ?_⟩
    have hstays : new.replacedBy r = false := by
      rw [Bool.eq_false_iff]
      intro hgone
      exact hid (NodeEntry.replacedBy_iff.mp hgone).2
    simp [hstays]

theorem filter_kept_others (new : NodeEntry τ) (rows : List (NodeEntry τ)) :
    ((rekeyRows new rows).filter (fun r => !new.replacedBy r)).filter
        (fun r => r.name ≠ new.name ∧ r.id ≠ new.id) =
      rows.filter fun r => r.name ≠ new.name ∧ r.id ≠ new.id := by
  have hother : ∀ r : NodeEntry τ,
      (decide (r.name ≠ new.name ∧ r.id ≠ new.id) && !new.replacedBy r) =
        decide (r.name ≠ new.name ∧ r.id ≠ new.id) := by
    intro r
    cases hgone : new.replacedBy r with
    | false => simp
    | true => simp [(NodeEntry.replacedBy_iff.mp hgone).2]
  rw [List.filter_filter]
  simp only [hother]
  apply filter_updateRows
  intro r hleft
  have hname := (NodeEntry.leftBy_iff.mp hleft).2.2.2
  simp [hname]

theorem Rejoins.leftBy (h : Rejoins tbl new) (hstatus : new.status = .copyingInitialData)
    (hadmitted : Admitted tbl new) (hr : r ∈ tbl.rows) (hname : r.name = new.name) :
    new.leftBy r = true := by
  obtain ⟨tbl', hinsert, hname', -, -⟩ := h
  obtain ⟨-, hrows⟩ := (insertNode_eq_ok_iff hstatus).mp hinsert
  by_contra hnot
  have hid : r.id ≠ new.id := by
    intro hid
    have htimeline : r.timeline = new.timeline := congrArg (fun x => x.2.1) hid
    have hdboid : r.dboid = new.dboid := congrArg (fun x => x.2.2) hid
    exact hnot (hadmitted.leftBy hr hname htimeline hdboid)
  have hkept := (mem_kept_iff hadmitted).mpr ⟨hr, by simpa using hnot, hid⟩
  have hmem : r ∈ tbl'.rows.filter fun r => r.name = new.name := by
    rw [List.mem_filter, hrows]
    exact ⟨List.mem_append_left _ hkept, by simp [hname]⟩
  rw [hname', List.mem_singleton] at hmem
  exact hid (congrArg NodeEntry.id hmem)

/-- **Reuse of a name after a detach.** The row of a joining node is inserted as it should be
if and only if the killed row with its name, should there be one, has its timeline and its
database oid, and has its system identifier too or leaves its key free for it. -/
theorem rejoins_iff (hstatus : new.status = .copyingInitialData) (hadmitted : Admitted tbl new) :
    Rejoins tbl new ↔ ∀ r ∈ tbl.rows, r.name = new.name →
      (r.timeline = new.timeline ∧ r.dboid = new.dboid) ∧
        (r.sysid = new.sysid ∨ ∀ r' ∈ tbl.rows, r'.id ≠ new.id) := by
  constructor
  · intro hrejoins r hr hname
    have hleft := hrejoins.leftBy hstatus hadmitted hr hname
    obtain ⟨tbl', hinsert, -⟩ := hrejoins
    obtain ⟨hkey, -⟩ := (insertNode_eq_ok_iff hstatus).mp hinsert
    obtain ⟨-, htimeline, hdboid, -⟩ := NodeEntry.leftBy_iff.mp hleft
    exact ⟨⟨htimeline, hdboid⟩, (rekeyRows_pkey_iff tbl new).mp hkey r hr hleft⟩
  · intro hcond
    have hkey : ((rekeyRows new tbl.rows).map NodeEntry.id).Nodup := by
      rw [rekeyRows_pkey_iff]
      intro r hr hleft
      exact (hcond r hr (NodeEntry.leftBy_iff.mp hleft).2.2.2).2
    set kept := (rekeyRows new tbl.rows).filter (fun r => !new.replacedBy r) with hkept
    have hnoId : ∀ r ∈ kept, r.id ≠ new.id := fun r hr =>
      ((mem_kept_iff hadmitted).mp hr).2.2
    have hnoName : ∀ r ∈ kept, r.name ≠ new.name := by
      intro r hr hname
      obtain ⟨hr, hleft, -⟩ := (mem_kept_iff hadmitted).mp hr
      obtain ⟨⟨htimeline, hdboid⟩, -⟩ := hcond r hr hname
      simp [hadmitted.leftBy hr hname htimeline hdboid] at hleft
    have hids : ((kept ++ [new]).map NodeEntry.id).Nodup :=
      nodup_map_concat (hkey.sublist (List.filter_sublist.map _)) hnoId
    have hnames : ((kept ++ [new]).map NodeEntry.name).Nodup := by
      refine nodup_map_concat ?_ hnoName
      have hall := tbl.nodeName
      rw [← map_name_rekeyRows new] at hall
      exact hall.sublist (List.filter_sublist.map _)
    refine ⟨⟨kept ++ [new], hids, hnames⟩, (insertNode_eq_ok_iff hstatus).mpr ⟨hkey, rfl⟩,
      ?_, ?_, ?_⟩
    · exact filter_key_eq_singleton hnames (by simp)
    · exact filter_key_eq_singleton hids (by simp)
    · rw [List.filter_append, hkept, filter_kept_others]
      simp

end Rejoin

def sampleNode (sysid timeline dboid : ℕ) (status : NodeStatus) (name : ℕ) : NodeEntry ℕ :=
  ⟨sysid, timeline, dboid, status, name, none, none, some false, none⟩

def sampleNodes : NodesTable ℕ where
  rows := [sampleNode 11 1 5 .ready 1, sampleNode 12 1 5 .ready 2, sampleNode 13 1 5 .killed 3]
  pkey := by decide
  nodeName := by decide

/-- The detached node comes back under its name with another system identifier. -/
theorem rejoins_iff_sampleNodes :
    Admitted sampleNodes (sampleNode 14 1 5 .copyingInitialData 3) ∧
      Rejoins sampleNodes (sampleNode 14 1 5 .copyingInitialData 3) := by
  have hadmitted : Admitted sampleNodes (sampleNode 14 1 5 .copyingInitialData 3) :=
    ⟨by decide, by decide⟩
  exact ⟨hadmitted, (rejoins_iff rfl hadmitted).mpr (by decide)⟩

/-- With another database oid the name cannot be used again. With the key of one detached node
and the name of another neither can. -/
theorem insertNode_sampleNodes_violations :
    (Admitted sampleNodes (sampleNode 14 1 6 .copyingInitialData 3) ∧
      insertNode sampleNodes (sampleNode 14 1 6 .copyingInitialData 3) = .error .nodeName) ∧
    ∃ tbl : NodesTable ℕ,
      tbl.rows = [sampleNode 13 1 5 .killed 3, sampleNode 14 1 5 .killed 4] ∧
      Admitted tbl (sampleNode 14 1 5 .copyingInitialData 3) ∧
      insertNode tbl (sampleNode 14 1 5 .copyingInitialData 3) = .error .pkey := by
  refine ⟨⟨⟨by decide, by decide⟩, rfl⟩, ⟨_, by decide, by decide⟩, rfl, ⟨by decide, by decide⟩, ?_⟩
  rfl

end Pgactive.Catalog
