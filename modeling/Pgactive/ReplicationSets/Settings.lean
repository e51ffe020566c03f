import Pgactive.Labels.Relation
import Pgactive.Stream.Output

/-!
# Replication settings of a relation

For each relation the output plugin computes which actions it sends, from the sets of the relation
and their configuration. The loop over the sets of the receiver stops as soon as all actions are
sent; what it computes is the union over all of them.
-/

namespace Pgactive.ReplicationSets

open CString Labels Names Pgactive.Stream

/-- A name that `pgactive_validate_replication_set_name` lets pass, `default` and `all` included. -/
structure SetName where
  chars : List Char
  valid : validateReplicationSetName chars true = .ok ()
deriving DecidableEq

def startupSets (names : List (List Char)) : Except SetNameError (List SetName) :=
  (qsort fun a b => strcmp a.chars b.chars) <$> names.mapM fun name =>
    match h : validateReplicationSetName name true with
    | .ok () => .ok ⟨name, h⟩
    | .error e => .error e

/-- The replication sets of a relation in the cache: `-1` if it has no list, and otherwise a sorted
list. -/
structure Relation where
  replicationSets : Option (List (List Char))
  sorted : ∀ names ∈ replicationSets, Sorted strcmp names

def Relation.num (r : Relation) : ℤ :=
  match r.replicationSets with
  | none => -1
  | some names => names.length

def Relation.ofSets (sets : Option (List (List Char))) : Relation where
  replicationSets := sets.map (qsort strcmp)
  sorted := by
    intro names hnames
    obtain ⟨names, -, rfl⟩ := Option.map_eq_some_iff.mp hnames
    exact sorted_qsort names

/-- A row of `pgactive_replication_set_config`. -/
structure ConfigRow where
  setName : NameData
  replicateInserts : Bool
  replicateUpdates : Bool
  replicateDeletes : Bool
deriving DecidableEq

/-- `pgactive_replication_set_config`. -/
structure Config where
  rows : List ConfigRow
  key : (rows.map ConfigRow.setName).Nodup

def relationInReplicationSet (r : Relation) (setname : List Char) : Bool :=
  if setname = allSet then true
  else if setname = defaultSet ∧ r.num = -1 then true
  else if r.num ≤ 0 then false
  else bsearch strcmp setname (r.replicationSets.getD [])

def replsetLookup (config : Config) (cname : List Char) : Option ConfigRow :=
  config.rows.find? fun row => row.setName.chars = cname.take (nameDataLen - 1)

/-- The `computed_repl` flags of a relation. -/
structure ComputedRepl where
  insert : Bool
  update : Bool
  delete : Bool
deriving DecidableEq

def ComputedRepl.none : ComputedRepl := ⟨false, false, false⟩

def ComputedRepl.all : ComputedRepl := ⟨true, true, true⟩

def ComputedRepl.flag (flags : ComputedRepl) : ChangeKind → Bool
  | .insert => flags.insert
  | .update => flags.update
  | .delete => flags.delete

def addSet (config : Config) (setname : List Char) (flags : ComputedRepl) : ComputedRepl :=
  match replsetLookup config setname with
  | some row =>
    ⟨if row.replicateInserts then true else flags.insert,
      if row.replicateUpdates then true else flags.update,
      if row.replicateDeletes then true else flags.delete⟩
  | none => .all

def settingsLoop (config : Config) (r : Relation) : ComputedRepl → List SetName → ComputedRepl
  | flags, [] => flags
  | flags, setname :: confReplicationSets =>
    if relationInReplicationSet r setname.chars then
      let flags := addSet config setname.chars flags
      if flags.insert && flags.update && flags.delete then flags
      else settingsLoop config r flags confReplicationSets
    else settingsLoop config r flags confReplicationSets

/-- `pgactive_heap_compute_replication_settings`, for a relation that has just been opened. -/
def heapComputeReplicationSettings (config : Config) (r : Relation)
    (confReplicationSets : Option (List SetName)) : ComputedRepl :=
  match confReplicationSets with
  | none => .all
  | some confReplicationSets => settingsLoop config r .none confReplicationSets

/-! ### Relations in a set -/

def Contains (r : Relation) (setname : List Char) : Prop :=
  setname = allSet ∨ setname = defaultSet ∧ r.replicationSets = none ∨
    ∃ names, r.replicationSets = some names ∧ setname ∈ names

theorem relationInReplicationSet_iff {r : Relation} {setname : List Char} :
    relationInReplicationSet r setname = true ↔ Contains r setname := by
  unfold relationInReplicationSet Contains Relation.num
  by_cases hall : setname = allSet
  · simp [hall]
  · rw [if_neg hall]
    cases hsets : r.replicationSets with
    | none => simp [hall]
    | some names =>
      have hsorted := r.sorted names hsets
      have hne : (names.length : ℤ) ≠ -1 := by omega
      rw [if_neg (fun h => hne h.2), Option.getD_some]
      by_cases hempty : names = []
      · simp [hall, hempty]
      · have hpos : ¬(names.length : ℤ) ≤ 0 := by
          have := List.length_pos_iff.mpr hempty
          omega
        rw [if_neg hpos, bsearch_iff hsorted]
        simp [hall]

/-! ### Configured actions -/

def ConfigRow.enables (row : ConfigRow) : ChangeKind → Bool
  | .insert => row.replicateInserts
  | .update => row.replicateUpdates
  | .delete => row.replicateDeletes

def Enabled (config : Config) (setname : List Char) (action : ChangeKind) : Prop :=
  (∀ row ∈ config.rows, row.setName.chars ≠ setname) ∨
    ∃ row ∈ config.rows, row.setName.chars = setname ∧ row.enables action = true

theorem SetName.length_lt (setname : SetName) : setname.chars.length < nameDataLen := by
  have hvalid := setname.valid
  unfold validateReplicationSetName at hvalid
  split_ifs at hvalid
  omega

theorem Config.row_unique (config : Config) {row row' : ConfigRow} (h : row ∈ config.rows)
    (h' : row' ∈ config.rows) (heq : row.setName.chars = row'.setName.chars) : row = row' := by
  have hname : row.setName = row'.setName := by
    cases hrow : row.setName
    cases hrow' : row'.setName
    rw [hrow, hrow'] at heq
    cases heq
    rfl
  exact List.inj_on_of_nodup_map config.key h h' hname

variable {flags : ComputedRepl}

theorem flag_addSet {config : Config} {setname : SetName} {action : ChangeKind} :
    (addSet config setname.chars flags).flag action = true ↔
      flags.flag action = true ∨ Enabled config setname.chars action := by
  have hcut : setname.chars.take (nameDataLen - 1) = setname.chars :=
    List.take_of_length_le (Nat.le_sub_one_of_lt setname.length_lt)
  unfold addSet replsetLookup Enabled
  rw [hcut]
  cases hfind : config.rows.find? fun row => row.setName.chars = setname.chars with
  | none =>
    have hnone : ∀ row ∈ config.rows, row.setName.chars ≠ setname.chars := by
      simpa using hfind
    refine iff_of_true ?_ (.inr (.inl hnone))
    cases action <;> rfl
  | some row =>
    have hmem := List.mem_of_find?_eq_some hfind
    have hname : row.setName.chars = setname.chars := by simpa using List.find?_some hfind
    have hrow : (∃ row' ∈ config.rows, row'.setName.chars = setname.chars ∧
        row'.enables action = true) ↔ row.enables action = true := by
      constructor
      · rintro ⟨row', hmem', hname', henables⟩
        rwa [config.row_unique hmem hmem' (hname.trans hname'.symm)]
      · intro henables
        exact ⟨row, hmem, hname, henables⟩
    have hsome : ¬∀ row ∈ config.rows, row.setName.chars ≠ setname.chars :=
      fun h => h row hmem hname
    rw [hrow, or_iff_right hsome]
    cases action <;> simp [ComputedRepl.flag, ConfigRow.enables, or_comm]

/-! ### The union over the configured sets -/

variable {config : Config} {r : Relation} {action : ChangeKind}

theorem ComputedRepl.flag_of_all (h : (flags.insert && flags.update && flags.delete) = true)
    (action : ChangeKind) : flags.flag action = true := by
  simp only [Bool.and_eq_true] at h
  cases action with
  | insert => exact h.1.1
  | update => exact h.1.2
  | delete => exact h.2

theorem ComputedRepl.eq_of_flag {flags' : ComputedRepl}
    (h : ∀ action, flags.flag action = true ↔ flags'.flag action = true) : flags = flags' := by
  have hflag : ∀ action, flags.flag action = flags'.flag action :=
    fun action => Bool.eq_iff_iff.mpr (h action)
  have hinsert := hflag .insert
  have hupdate := hflag .update
  have hdelete := hflag .delete
  cases flags
  cases flags'
  cases hinsert
  cases hupdate
  cases hdelete
  rfl

def SomeSet (config : Config) (r : Relation) (action : ChangeKind) (names : List SetName) : Prop :=
  ∃ setname ∈ names, Contains r setname.chars ∧ Enabled config setname.chars action

theorem flag_settingsLoop (names : List SetName) (flags : ComputedRepl) :
    (settingsLoop config r flags names).flag action = true ↔
      flags.flag action = true ∨ SomeSet config r action names := by
  unfold SomeSet
  induction names generalizing flags with
  | nil => simp [settingsLoop]
  | cons setname names ih =>
    rw [settingsLoop]
    simp only [List.exists_mem_cons_iff]
    split_ifs with hin hall
    · -- the loop ends early, with all flags set
      have hset := ComputedRepl.flag_of_all hall action
      refine iff_of_true hset ?_
      rcases flag_addSet.mp hset with hflags | henabled
      · exact .inl hflags
      · exact .inr (.inl ⟨relationInReplicationSet_iff.mp hin, henabled⟩)
    · rw [ih, flag_addSet, or_assoc, and_iff_right (relationInReplicationSet_iff.mp hin)]
    · rw [ih]
      have hout : ¬Contains r setname.chars := fun h => hin (relationInReplicationSet_iff.mpr h)
      simp [hout]

theorem flag_heapComputeReplicationSettings (conf : Option (List SetName)) :
    (heapComputeReplicationSettings config r conf).flag action = true ↔
      conf = none ∨ ∃ names, conf = some names ∧ SomeSet config r action names := by
  unfold heapComputeReplicationSettings
  cases conf with
  | none =>
    refine iff_of_true ?_ (.inl rfl)
    cases action <;> rfl
  | some names =>
    have hnone : ComputedRepl.none.flag action = false := by cases action <;> rfl
    simp [flag_settingsLoop, hnone]

/-- The relation is neither one of the tables that are never replicated nor in the schema that
always is. -/
def Ordinary (data : PluginData) (rel : LocalRelation) : Prop :=
  rel.relid ≠ data.conflictHandlersReloid ∧ rel.relid ≠ data.locksReloid ∧
    rel.relid ≠ data.conflictHistoryReloid ∧ rel.relnamespace ≠ data.schemaOid

theorem shouldForwardChange_of_ordinary {data : PluginData} {rel : LocalRelation}
    (h : Ordinary data rel) (action : ChangeKind) :
    shouldForwardChange data rel action = data.computedRepl rel.relid action := by
  obtain ⟨hhandlers, hlocks, hhistory, hschema⟩ := h
  unfold shouldForwardChange
  rw [if_neg (by simp [hhandlers, hlocks, hhistory]), if_neg hschema]

/-- For all relations, lists of sets and configurations: an action is replicated exactly if no list
is configured, or some set in it contains the relation and has no row or one that enables the
action. The output plugin goes by this for ordinary relations. Neither order nor duplicates matter.
-/
theorem heapComputeReplicationSettings_right (config : Config) (r : Relation)
    (conf : Option (List SetName)) :
    (∀ action, (heapComputeReplicationSettings config r conf).flag action = true ↔
      conf = none ∨ ∃ names, conf = some names ∧ ∃ setname ∈ names,
        Contains r setname.chars ∧ Enabled config setname.chars action) ∧
    (∀ data rel action, Ordinary data rel →
      data.computedRepl rel.relid = (heapComputeReplicationSettings config r conf).flag →
      shouldForwardChange data rel action =
        (heapComputeReplicationSettings config r conf).flag action) ∧
    ∀ names names', conf = some names → (∀ setname, setname ∈ names' ↔ setname ∈ names) →
      heapComputeReplicationSettings config r (some names') =
        heapComputeReplicationSettings config r conf := by
  refine ⟨fun action => flag_heapComputeReplicationSettings conf, ?_, ?_⟩
  · intro data rel action hordinary hcomputed
    rw [shouldForwardChange_of_ordinary hordinary, hcomputed]
  · rintro names names' rfl hmem
    refine ComputedRepl.eq_of_flag fun action => ?_
    simp [flag_heapComputeReplicationSettings, SomeSet, hmem]

end Pgactive.ReplicationSets
