import Pgactive.ReplicationSets.Settings

/-!
# Including and excluding tables

In a group of one node, tables are either included or excluded. A table is marked by its label, and
an inclusion also changes the sets of the connections. An exclusion is refused by these sets, an
inclusion by the labels. A call with `NULL` for the boolean marks a table as included and leaves the
connections as they are.
-/

namespace Pgactive.ReplicationSets

open CString Labels Pgactive.Stream Transition

def includeRs : List Char := ['i', 'n', 'c', 'l', 'u', 'd', 'e', '_', 'r', 's']

def excludeRs : List Char := ['e', 'x', 'c', 'l', 'u', 'd', 'e', '_', 'r', 's']

/-- What the functions look at and change: `τ` are the tables, `κ` the nodes. -/
structure OneNodeGroup (τ κ : Type) where
  /-- The rows of `pg_seclabel`: a table, and the names in its label. -/
  labels : List (τ × List (List Char))
  /-- The rows of `pgactive_connections` with their `conn_replication_sets`. -/
  connections : List (κ × Option (List (List Char)))

inductive CallError
  /-- "pgactive can't exclude table from replication" -/
  | excludeAfterInclude
  /-- "pgactive can't include table from replication" -/
  | includeAfterExclude
  /-- "pgactive can't set connection replication sets to non default value" -/
  | nonDefault
  /-- "No pgactive.pgactive_connections entry found for (%,%,%)" -/
  | noConnection
deriving DecidableEq

variable {τ κ : Type}

def OneNodeGroup.Including (g : OneNodeGroup τ κ) : Prop :=
  ∃ row ∈ g.connections, ∃ sets ∈ row.2, includeRs ∈ sets

instance (g : OneNodeGroup τ κ) : Decidable g.Including := inferInstanceAs (Decidable (∃ _ ∈ _, _))

def OneNodeGroup.Excluding (g : OneNodeGroup τ κ) : Prop :=
  ∃ row ∈ g.labels, ∃ name ∈ row.2, like ('%' :: (excludeRs ++ ['%'])) name = true

instance (g : OneNodeGroup τ κ) : Decidable g.Excluding := inferInstanceAs (Decidable (∃ _ ∈ _, _))

variable [DecidableEq τ] [DecidableEq κ]

/-- `SECURITY LABEL`, with other names in the place of the old ones. -/
def OneNodeGroup.relabel (g : OneNodeGroup τ κ) (pRelation : τ) (pSets : List (List Char)) :
    OneNodeGroup τ κ :=
  { g with labels := (pRelation, pSets) :: g.labels.filter (·.1 ≠ pRelation) }

/-- The end of an inclusion: only if the argument is false, and not if it is `NULL`, the sets of the
connections are changed. -/
def OneNodeGroup.updateConnections (g : OneNodeGroup τ κ) (excludeTable : Option Bool) :
    OneNodeGroup τ κ :=
  if excludeTable = some false then
    { g with connections := g.connections.map fun row => (row.1, some [includeRs]) }
  else g

def OneNodeGroup.setTableReplicationSets (g : OneNodeGroup τ κ) (pRelation : Option τ)
    (excludeTable : Option Bool) : Except CallError (OneNodeGroup τ κ) :=
  match pRelation with
  | none => .ok g
  | some pRelation =>
    if excludeTable = some true then
      if g.Including then .error .excludeAfterInclude else .ok (g.relabel pRelation [excludeRs])
    -- also for NULL
    else if g.Excluding then .error .includeAfterExclude
    else .ok ((g.relabel pRelation [includeRs]).updateConnections excludeTable)

def OneNodeGroup.setConnectionReplicationSets (g : OneNodeGroup τ κ)
    (newReplicationSets : Option (List (List Char))) (node : κ) :
    Except CallError (OneNodeGroup τ κ) :=
  if ∃ sets ∈ newReplicationSets, sets ≠ [defaultSet] then .error .nonDefault
  else if ∃ row ∈ g.connections, row.1 = node then
    .ok { g with connections := g.connections.map fun row =>
      if row.1 = node then (node, newReplicationSets) else row }
  else .error .noConnection

/-- A call of one of the functions. -/
inductive Call (τ κ : Type)
  | setTable (pRelation : Option τ) (excludeTable : Option Bool)
  | setConnection (newReplicationSets : Option (List (List Char))) (node : κ)

def Call.excludeTableReplicationSet (pRelation : Option τ) : Call τ κ :=
  .setTable pRelation (some true)

def Call.includeTableReplicationSet (pRelation : Option τ) : Call τ κ :=
  .setTable pRelation (some false)

def OneNodeGroup.call (g : OneNodeGroup τ κ) : Call τ κ → Except CallError (OneNodeGroup τ κ)
  | .setTable pRelation excludeTable => g.setTableReplicationSets pRelation excludeTable
  | .setConnection newReplicationSets node => g.setConnectionReplicationSets newReplicationSets node

def OneNodeGroup.step (g : OneNodeGroup τ κ) (c : Call τ κ) : Option (OneNodeGroup τ κ) :=
  match g.call c with
  | .ok g' => some g'
  | .error _ => some g

def OneNodeGroup.Fresh (g : OneNodeGroup τ κ) : Prop :=
  g.labels = [] ∧ g.connections ≠ [] ∧ ∀ row ∈ g.connections, row.2 = some [defaultSet]

/-! ### Labels of both kinds -/

section Labels

omit [DecidableEq κ]

variable {g g' : OneNodeGroup τ κ} {c : Call τ κ} {t t' : τ} {sets : List (List Char)}

def OneNodeGroup.Labelled (g : OneNodeGroup τ κ) (t : τ) (name : List Char) : Prop :=
  ∃ sets, (t, sets) ∈ g.labels ∧ name ∈ sets

def OneNodeGroup.Mixed (g : OneNodeGroup τ κ) : Prop :=
  (∃ t, g.Labelled t includeRs) ∧ ∃ t, g.Labelled t excludeRs

omit [DecidableEq τ] in
theorem labels_updateConnections (g : OneNodeGroup τ κ) (excludeTable : Option Bool) :
    (g.updateConnections excludeTable).labels = g.labels := by
  unfold OneNodeGroup.updateConnections
  split_ifs <;> rfl

theorem mem_relabel {pSets : List (List Char)} :
    (t, sets) ∈ (g.relabel t' pSets).labels ↔
      t = t' ∧ sets = pSets ∨ t ≠ t' ∧ (t, sets) ∈ g.labels := by
  simp [OneNodeGroup.relabel, List.mem_filter, and_comm]

theorem labelled_relabel {name name' : List Char} :
    (g.relabel t' [name']).Labelled t name ↔
      t = t' ∧ name = name' ∨ t ≠ t' ∧ g.Labelled t name := by
  unfold OneNodeGroup.Labelled
  simp only [mem_relabel]
  constructor
  · rintro ⟨sets, ⟨rfl, rfl⟩ | ⟨hne, hmem⟩, hname⟩
    · exact .inl ⟨rfl, List.mem_singleton.mp hname⟩
    · exact .inr ⟨hne, sets, hmem, hname⟩
  · rintro (⟨rfl, rfl⟩ | ⟨hne, sets, hmem, hname⟩)
    · exact ⟨[name], .inl ⟨rfl, rfl⟩, List.mem_singleton_self _⟩
    · exact ⟨sets, .inr ⟨hne, hmem⟩, hname⟩

theorem includeRs_ne_excludeRs : includeRs ≠ excludeRs := by decide

theorem mixed_relabel_exclude :
    (g.relabel t [excludeRs]).Mixed ↔ ∃ t', t' ≠ t ∧ g.Labelled t' includeRs := by
  unfold OneNodeGroup.Mixed
  simp only [labelled_relabel, includeRs_ne_excludeRs, and_false, false_or, and_true]
  exact and_iff_left ⟨t, .inl rfl⟩

omit [DecidableEq τ] in
theorem excluding_of_labelled (h : g.Labelled t excludeRs) : g.Excluding := by
  obtain ⟨sets, hmem, hname⟩ := h
  exact ⟨(t, sets), hmem, excludeRs, hname, by decide⟩

theorem not_mixed_relabel_include (h : ¬g.Excluding) : ¬(g.relabel t [includeRs]).Mixed := by
  rintro ⟨-, t', hlabelled⟩
  rcases labelled_relabel.mp hlabelled with ⟨-, heq⟩ | ⟨-, hold⟩
  · exact includeRs_ne_excludeRs heq.symm
  · exact h (excluding_of_labelled hold)

omit [DecidableEq τ] in
theorem mixed_congr (h : g'.labels = g.labels) : g'.Mixed ↔ g.Mixed := by
  unfold OneNodeGroup.Mixed OneNodeGroup.Labelled
  rw [h]

end Labels

variable {g g' : OneNodeGroup τ κ} {c : Call τ κ} {t : τ}

def ExcludesOnly (x : OneNodeGroup τ κ × Call τ κ × OneNodeGroup τ κ) : Prop :=
  ∀ t, x.2.1 = .setTable (some t) (some true) →
    x.1.Including ∨ ∀ t', t' ≠ t → ¬x.1.Labelled t' includeRs

theorem not_mixed_exclude {t : τ} (h : ¬g.Mixed) (hstep : g.step (.setTable (some t) (some true)) =
    some g') : ¬g'.Mixed ↔ g.Including ∨ ∀ t', t' ≠ t → ¬g.Labelled t' includeRs := by
  simp only [OneNodeGroup.step, OneNodeGroup.call, OneNodeGroup.setTableReplicationSets,
    if_true] at hstep
  by_cases hincluding : g.Including
  · rw [if_pos hincluding] at hstep
    cases hstep
    exact iff_of_true h (.inl hincluding)
  · rw [if_neg hincluding] at hstep
    cases hstep
    rw [mixed_relabel_exclude, or_iff_right hincluding]
    constructor
    · intro hnone t' hne hlabelled
      exact hnone ⟨t', hne, hlabelled⟩
    · rintro honly ⟨t', hne, hlabelled⟩
      exact honly t' hne hlabelled

theorem not_mixed_include {t : τ} {excludeTable : Option Bool} (h : ¬g.Mixed)
    (hexclude : excludeTable ≠ some true)
    (hstep : g.step (.setTable (some t) excludeTable) = some g') : ¬g'.Mixed := by
  simp only [OneNodeGroup.step, OneNodeGroup.call, OneNodeGroup.setTableReplicationSets,
    if_neg hexclude] at hstep
  by_cases hexcluding : g.Excluding
  · rw [if_pos hexcluding] at hstep
    cases hstep
    exact h
  · rw [if_neg hexcluding] at hstep
    cases hstep
    rw [mixed_congr (labels_updateConnections _ _)]
    exact not_mixed_relabel_include hexcluding

theorem not_mixed_iff (h : ¬g.Mixed) (hstep : g.step c = some g') :
    ¬g'.Mixed ↔ ExcludesOnly (g, c, g') := by
  unfold ExcludesOnly
  match c with
  | .setTable none excludeTable =>
    cases hstep
    exact iff_of_true h (fun t heq => by cases heq)
  | .setTable (some t) excludeTable =>
    by_cases hexclude : excludeTable = some true
    · subst hexclude
      rw [not_mixed_exclude h hstep]
      constructor
      · rintro honly t' ⟨⟩
        exact honly
      · intro honly
        exact honly t rfl
    · refine iff_of_true (not_mixed_include h hexclude hstep) fun t' heq => ?_
      cases heq
      exact absurd rfl hexclude
  | .setConnection newReplicationSets node =>
    have hlabels : g'.labels = g.labels := by
      simp only [OneNodeGroup.step, OneNodeGroup.call,
        OneNodeGroup.setConnectionReplicationSets] at hstep
      split_ifs at hstep <;> cases hstep <;> rfl
    rw [mixed_congr hlabels]
    exact iff_of_true h (fun t heq => by cases heq)

/-! ### Tables that are replicated -/

/-- The tables for which a call has succeeded, by its second argument. -/
structure History (τ : Type) where
  /-- False. -/
  included : List τ
  /-- `NULL`. -/
  nulled : List τ
  /-- True. -/
  excluded : List τ

def History.record (h : History τ) : Call τ κ → History τ
  | .setTable (some t) (some false) => { h with included := t :: h.included }
  | .setTable (some t) none => { h with nulled := t :: h.nulled }
  | .setTable (some t) (some true) => { h with excluded := t :: h.excluded }
  | _ => h

def OneNodeGroup.recorded (s : OneNodeGroup τ κ × History τ) (c : Call τ κ) :
    OneNodeGroup τ κ × History τ :=
  match s.1.call c with
  | .ok g => (g, s.2.record c)
  | .error _ => s

def OneNodeGroup.after (g : OneNodeGroup τ κ) (calls : List (Call τ κ)) :
    OneNodeGroup τ κ × History τ :=
  calls.foldl recorded (g, ⟨[], [], []⟩)

def OneNodeGroup.label (g : OneNodeGroup τ κ) (t : τ) : Option (List (List Char)) :=
  (g.labels.find? (·.1 = t)).map Prod.snd

def replicates (config : Config) (label sets : Option (List (List Char))) (action : ChangeKind) :
    Bool :=
  match sets with
  | none => (heapComputeReplicationSettings config (.ofSets label) none).flag action
  | some names =>
    match startupSets names with
    | .ok conf => (heapComputeReplicationSettings config (.ofSets label) (some conf)).flag action
    | .error _ => false

/-- If a table has been included, the included ones are to be replicated, and otherwise all but the
excluded ones. -/
def History.Wanted (h : History τ) (t : τ) : Prop :=
  if h.included ≠ [] then t ∈ h.included else t ∉ h.excluded

/-- Exactly these tables are replicated on each connection, with each action that is enabled for
the sets. -/
def ReplicatesWanted (g : OneNodeGroup τ κ) (h : History τ) : Prop :=
  ∀ t, ∀ row ∈ g.connections, ∀ config action, Enabled config defaultSet action →
    Enabled config includeRs action →
      (replicates config (g.label t) row.2 action = true ↔ h.Wanted t)

theorem contains_ofSets {label : Option (List (List Char))} {name : List Char} :
    Contains (.ofSets label) name ↔ name = allSet ∨ name = defaultSet ∧ label = none ∨
      ∃ names, label = some names ∧ name ∈ names := by
  unfold Contains Relation.ofSets
  cases label with
  | none => simp
  | some names => simp [mem_qsort]

theorem replicates_single (config : Config) (label : Option (List (List Char))) (name : SetName)
    (action : ChangeKind) (hstartup : startupSets [name.chars] = .ok [name])
    (henabled : Enabled config name.chars action) :
    replicates config label (some [name.chars]) action = true ↔
      Contains (.ofSets label) name.chars := by
  dsimp only [replicates]
  rw [hstartup]
  dsimp only
  rw [flag_heapComputeReplicationSettings]
  simp [SomeSet, henabled]

/-- The labels and the sets of the connections are what the calls have made of them. -/
structure Tracks (g : OneNodeGroup τ κ) (h : History τ) : Prop where
  labels : ∀ t sets, (t, sets) ∈ g.labels ↔ t ∈ h.excluded ∧ sets = [excludeRs] ∨
    t ∉ h.excluded ∧ (t ∈ h.included ∨ t ∈ h.nulled) ∧ sets = [includeRs]
  connections : ∀ row ∈ g.connections,
    row.2 = some [if h.included = [] then defaultSet else includeRs]
  nonempty : g.connections ≠ []
  one : h.included = [] ∨ h.excluded = []

namespace Tracks

variable {h : History τ} (hg : Tracks g h)

include hg

omit [DecidableEq κ]

omit [DecidableEq τ] in
theorem including_iff : g.Including ↔ h.included ≠ [] := by
  unfold OneNodeGroup.Including
  constructor
  · rintro ⟨row, hrow, sets, hsets, hmem⟩ hnone
    rw [hg.connections row hrow, hnone, if_pos rfl] at hsets
    cases hsets
    exact absurd hmem (by decide)
  · intro hsome
    obtain ⟨row, hrow⟩ := List.exists_mem_of_ne_nil _ hg.nonempty
    refine ⟨row, hrow, [includeRs], ?_, List.mem_singleton_self _⟩
    rw [hg.connections row hrow, if_neg hsome]
    rfl

omit [DecidableEq τ] in
theorem excluding_iff : g.Excluding ↔ h.excluded ≠ [] := by
  constructor
  · rintro ⟨⟨t, sets⟩, hrow, name, hname, hlike⟩ hnone
    rcases (hg.labels t sets).mp hrow with ⟨hmem, -⟩ | ⟨-, -, rfl⟩
    · rw [hnone] at hmem
      cases hmem
    · rw [List.mem_singleton.mp hname] at hlike
      exact absurd hlike (by decide)
  · intro hsome
    obtain ⟨t, ht⟩ := List.exists_mem_of_ne_nil _ hsome
    exact ⟨(t, [excludeRs]), (hg.labels t _).mpr (.inl ⟨ht, rfl⟩), excludeRs,
      List.mem_singleton_self _, by decide⟩

theorem label_eq_some_iff {t : τ} {sets : List (List Char)} :
    g.label t = some sets ↔ (t, sets) ∈ g.labels := by
  have hunique : ∀ sets', (t, sets) ∈ g.labels → (t, sets') ∈ g.labels → sets' = sets := by
    intro sets' hmem hmem'
    rcases (hg.labels t sets).mp hmem with ⟨hin, rfl⟩ | ⟨hout, -, rfl⟩ <;>
      rcases (hg.labels t sets').mp hmem' with ⟨hin', rfl⟩ | ⟨hout', -, rfl⟩
    · rfl
    · exact absurd hin hout'
    · exact absurd hin' hout
    · rfl
  unfold OneNodeGroup.label
  rw [Option.map_eq_some_iff]
  constructor
  · rintro ⟨⟨t', sets'⟩, hfind, rfl⟩
    have hkey : t' = t := by simpa using List.find?_some hfind
    rw [← hkey]
    exact List.mem_of_find?_eq_some hfind
  · intro hmem
    have hsome : (g.labels.find? (·.1 = t)).isSome = true := by
      rw [List.find?_isSome]
      exact ⟨(t, sets), hmem, by simp⟩
    obtain ⟨⟨t', sets'⟩, hfind⟩ := Option.isSome_iff_exists.mp hsome
    have hkey : t' = t := by simpa using List.find?_some hfind
    subst hkey
    exact ⟨_, hfind, hunique sets' hmem (List.mem_of_find?_eq_some hfind)⟩

theorem contains_default_iff {t : τ} :
    Contains (.ofSets (g.label t)) defaultSet ↔
      t ∉ h.excluded ∧ t ∉ h.included ∧ t ∉ h.nulled := by
  rw [contains_ofSets]
  constructor
  · rintro (hall | ⟨-, hnone⟩ | ⟨names, hlabel, hmem⟩)
    · exact absurd hall (by decide)
    · have hout : ∀ sets, (t, sets) ∉ g.labels := by
        intro sets hmem
        rw [hg.label_eq_some_iff.mpr hmem] at hnone
        cases hnone
      have hexcluded : t ∉ h.excluded := fun hin =>
        hout _ ((hg.labels t _).mpr (.inl ⟨hin, rfl⟩))
      refine ⟨hexcluded, fun hin => ?_, fun hin => ?_⟩
      · exact hout _ ((hg.labels t _).mpr (.inr ⟨hexcluded, .inl hin, rfl⟩))
      · exact hout _ ((hg.labels t _).mpr (.inr ⟨hexcluded, .inr hin, rfl⟩))
    · rcases (hg.labels t names).mp (hg.label_eq_some_iff.mp hlabel) with ⟨-, rfl⟩ | ⟨-, -, rfl⟩ <;>
        exact absurd hmem (by decide)
  · rintro ⟨hexcluded, hincluded, hnulled⟩
    refine .inr (.inl ⟨rfl, ?_⟩)
    cases hlabel : g.label t with
    | none => rfl
    | some sets =>
      rcases (hg.labels t sets).mp (hg.label_eq_some_iff.mp hlabel) with ⟨hin, -⟩ | ⟨-, hin, -⟩
      · exact absurd hin hexcluded
      · exact absurd hin (not_or.mpr ⟨hincluded, hnulled⟩)

theorem contains_include_iff {t : τ} :
    Contains (.ofSets (g.label t)) includeRs ↔
      t ∉ h.excluded ∧ (t ∈ h.included ∨ t ∈ h.nulled) := by
  rw [contains_ofSets]
  constructor
  · rintro (hall | ⟨hdefault, -⟩ | ⟨names, hlabel, hmem⟩)
    · exact absurd hall (by decide)
    · exact absurd hdefault (by decide)
    · rcases (hg.labels t names).mp (hg.label_eq_some_iff.mp hlabel) with ⟨-, rfl⟩ | ⟨hout, hin, -⟩
      · exact absurd hmem (by decide)
      · exact ⟨hout, hin⟩
  · rintro ⟨hout, hin⟩
    exact .inr (.inr ⟨[includeRs], hg.label_eq_some_iff.mpr
      ((hg.labels t _).mpr (.inr ⟨hout, hin, rfl⟩)), List.mem_singleton_self _⟩)

theorem replicates_iff {t : τ} {row : κ × Option (List (List Char))} {config : Config}
    {action : ChangeKind} (hrow : row ∈ g.connections) (hdefault : Enabled config defaultSet action)
    (hinclude : Enabled config includeRs action) :
    replicates config (g.label t) row.2 action = true ↔
      if h.included = [] then t ∉ h.excluded ∧ t ∉ h.nulled
      else t ∈ h.included ∨ t ∈ h.nulled := by
  rw [hg.connections row hrow]
  by_cases hnone : h.included = []
  · rw [if_pos hnone, if_pos hnone]
    have hsingle := replicates_single config (g.label t) ⟨defaultSet, rfl⟩ action rfl hdefault
    rw [hsingle, hg.contains_default_iff, hnone]
    simp
  · rw [if_neg hnone, if_neg hnone]
    have hsingle := replicates_single config (g.label t) ⟨includeRs, rfl⟩ action rfl hinclude
    rw [hsingle, hg.contains_include_iff, hg.one.resolve_left hnone]
    simp

theorem replicatesWanted_iff :
    ReplicatesWanted g h ↔ ∀ t ∈ h.nulled, t ∈ h.included ∨ t ∈ h.excluded := by
  unfold ReplicatesWanted History.Wanted
  obtain ⟨row, hrow⟩ := List.exists_mem_of_ne_nil _ hg.nonempty
  have henabled : ∀ name, Enabled ⟨[], List.nodup_nil⟩ name .insert :=
    fun name => .inl fun row hrow => by cases hrow
  by_cases hnone : h.included = []
  · constructor
    · intro hwanted t hnulled
      have hiff := (hg.replicates_iff hrow (henabled _) (henabled _)).symm.trans
        (hwanted t row hrow _ .insert (henabled _) (henabled _))
      rw [if_pos hnone, if_neg (not_not.mpr hnone)] at hiff
      by_contra hout
      exact (hiff.mpr (not_or.mp hout).2).2 hnulled
    · intro hnulled t row hrow config action hdefault hinclude
      rw [hg.replicates_iff hrow hdefault hinclude, if_pos hnone, if_neg (not_not.mpr hnone)]
      refine and_iff_left_of_imp fun hout hin => ?_
      rcases hnulled t hin with hincluded | hexcluded
      · rw [hnone] at hincluded
        cases hincluded
      · exact hout hexcluded
  · have hexcluded := hg.one.resolve_left hnone
    constructor
    · intro hwanted t hnulled
      have hiff := (hg.replicates_iff hrow (henabled _) (henabled _)).symm.trans
        (hwanted t row hrow _ .insert (henabled _) (henabled _))
      rw [if_neg hnone, if_pos hnone] at hiff
      exact .inl (hiff.mp (.inr hnulled))
    · intro hnulled t row hrow config action hdefault hinclude
      rw [hg.replicates_iff hrow hdefault hinclude, if_neg hnone, if_pos hnone]
      refine or_iff_left_of_imp fun hin => ?_
      rcases hnulled t hin with hincluded | hin
      · exact hincluded
      · rw [hexcluded] at hin
        cases hin

theorem exclude (t : τ) (hnone : h.included = []) :
    Tracks (g.relabel t [excludeRs]) { h with excluded := t :: h.excluded } where
  labels := by
    intro t' sets
    rw [mem_relabel, hg.labels]
    by_cases ht : t' = t <;> simp [ht]
  connections := hg.connections
  nonempty := hg.nonempty
  one := .inl hnone

theorem includeTable (t : τ) (hnone : h.excluded = []) :
    Tracks ((g.relabel t [includeRs]).updateConnections (some false))
      { h with included := t :: h.included } where
  labels := by
    intro t' sets
    rw [labels_updateConnections, mem_relabel, hg.labels, hnone]
    by_cases ht : t' = t <;> simp [ht]
  connections := by
    intro row hrow
    obtain ⟨row', -, rfl⟩ := List.mem_map.mp hrow
    rfl
  nonempty := fun hnil => hg.nonempty (List.map_eq_nil_iff.mp hnil)
  one := .inr hnone

theorem null (t : τ) (hnone : h.excluded = []) :
    Tracks ((g.relabel t [includeRs]).updateConnections none)
      { h with nulled := t :: h.nulled } where
  labels := by
    intro t' sets
    rw [labels_updateConnections, mem_relabel, hg.labels, hnone]
    by_cases ht : t' = t <;> simp [ht]
  connections := hg.connections
  nonempty := hg.nonempty
  one := .inr hnone

end Tracks

theorem Tracks.recorded {h : History τ} (hg : Tracks g h) (pRelation : Option τ)
    (excludeTable : Option Bool) :
    Tracks (OneNodeGroup.recorded (g, h) (.setTable pRelation excludeTable)).1
      (OneNodeGroup.recorded (g, h) (.setTable pRelation excludeTable)).2 := by
  cases pRelation with
  | none => exact hg
  | some t =>
    unfold OneNodeGroup.recorded
    simp only [OneNodeGroup.call, OneNodeGroup.setTableReplicationSets, hg.including_iff,
      hg.excluding_iff]
    match excludeTable with
    | some true =>
      rw [if_pos rfl]
      by_cases hnone : h.included = []
      · rw [if_neg (not_not.mpr hnone)]
        exact hg.exclude t hnone
      · rw [if_pos hnone]
        exact hg
    | some false =>
      rw [if_neg (by decide)]
      by_cases hnone : h.excluded = []
      · rw [if_neg (not_not.mpr hnone)]
        exact hg.includeTable t hnone
      · rw [if_pos hnone]
        exact hg
    | none =>
      rw [if_neg (by decide)]
      by_cases hnone : h.excluded = []
      · rw [if_neg (not_not.mpr hnone)]
        exact hg.null t hnone
      · rw [if_pos hnone]
        exact hg

theorem Tracks.foldl {h : History τ} (hg : Tracks g h) (calls : List (Call τ κ))
    (hcalls : ∀ sets node, .setConnection sets node ∉ calls) :
    Tracks (calls.foldl OneNodeGroup.recorded (g, h)).1
      (calls.foldl OneNodeGroup.recorded (g, h)).2 := by
  induction calls generalizing g h with
  | nil => exact hg
  | cons c calls ih =>
    have hrest : ∀ sets node, .setConnection sets node ∉ calls :=
      fun sets node hmem => hcalls sets node (List.mem_cons_of_mem _ hmem)
    cases c with
    | setTable pRelation excludeTable => exact ih (hg.recorded pRelation excludeTable) hrest
    | setConnection sets node => exact absurd List.mem_cons_self (hcalls sets node)

omit [DecidableEq τ] [DecidableEq κ] in
theorem OneNodeGroup.Fresh.tracks (h : g.Fresh) : Tracks g ⟨[], [], []⟩ := by
  obtain ⟨hlabels, hnonempty, hconnections⟩ := h
  refine ⟨fun t sets => ?_, fun row hrow => ?_, hnonempty, .inl rfl⟩
  · simp [hlabels]
  · rw [hconnections row hrow, if_pos rfl]

omit [DecidableEq τ] [DecidableEq κ] in
theorem OneNodeGroup.Fresh.not_mixed (h : g.Fresh) : ¬g.Mixed := by
  rintro ⟨⟨t, sets, hmem, -⟩, -⟩
  rw [h.1] at hmem
  cases hmem

/-- For every sequence of calls in a new group: included and excluded tables are never mixed exactly
if no call excludes a table while another one is included and the connections do not refuse it. If
the sets of the connections are not set back, the right tables are replicated exactly if each table
that a call with `NULL` has marked has been included or excluded. -/
theorem includeExclude_right (g : OneNodeGroup τ κ) (calls : List (Call τ κ)) (hfresh : g.Fresh) :
    ((∀ x ∈ trace OneNodeGroup.step g calls, ¬x.2.2.Mixed) ↔
      ∀ x ∈ trace OneNodeGroup.step g calls, ExcludesOnly x) ∧
    ((∀ sets node, .setConnection sets node ∉ calls) →
      (ReplicatesWanted (g.after calls).1 (g.after calls).2 ↔
        ∀ t ∈ (g.after calls).2.nulled,
          t ∈ (g.after calls).2.included ∨ t ∈ (g.after calls).2.excluded)) := by
  constructor
  · exact forall_trace_iff (I := fun g : OneNodeGroup τ κ => ¬g.Mixed)
      (P := fun x : OneNodeGroup τ κ × Call τ κ × OneNodeGroup τ κ => ¬x.2.2.Mixed)
      (fun _ _ _ h hstep => not_mixed_iff h hstep) (fun _ _ _ _ _ h => h) hfresh.not_mixed calls
  · intro hcalls
    exact (hfresh.tracks.foldl calls hcalls).replicatesWanted_iff

def newGroup : OneNodeGroup Bool Unit := ⟨[], [((), some [defaultSet])]⟩

theorem newGroup_fresh : newGroup.Fresh := ⟨rfl, by decide, by decide⟩

/-- A table is included, and then the other one. -/
theorem includeExclude_right_both :
    newGroup.Fresh ∧ ReplicatesWanted
      (newGroup.after [.includeTableReplicationSet (some true),
        .includeTableReplicationSet (some false)]).1
      (newGroup.after [.includeTableReplicationSet (some true),
        .includeTableReplicationSet (some false)]).2 := by
  refine ⟨newGroup_fresh, ((includeExclude_right newGroup _ newGroup_fresh).2 ?_).mpr ?_⟩
  · intro sets node hmem
    simp [Call.includeTableReplicationSet] at hmem
  · decide

/-- A call with `NULL` and an exclusion make a mixture; so do an inclusion and an exclusion with the
sets of the connection set back in between. After a call with `NULL` alone, the table is not
replicated although it has not been excluded. -/
theorem includeExclude_mixed :
    newGroup.Fresh ∧
    (newGroup.after [.setTable (some true) none,
      .excludeTableReplicationSet (some false)]).1.labels =
        [(false, [excludeRs]), (true, [includeRs])] ∧
    (newGroup.after [.includeTableReplicationSet (some true),
      .setConnection (some [defaultSet]) (), .excludeTableReplicationSet (some false)]).1.labels =
        [(false, [excludeRs]), (true, [includeRs])] ∧
    (newGroup.after [.setTable (some true) none]).2.excluded = [] ∧
    replicates ⟨[], List.nodup_nil⟩ ((newGroup.after [.setTable (some true) none]).1.label true)
      (some [defaultSet]) .insert = false :=
  ⟨newGroup_fresh, by decide, by decide, by decide, by decide⟩

end Pgactive.ReplicationSets
