import Pgactive.CString
import Pgactive.Identifiers
import Pgactive.Names

/-!
# The dump of the peer that a node joins

`pgactive_init_exec_dump_restore` collects the arguments of `pgactive_dump` in an array, the tables
of a replication set among them, and has it write to a temporary directory. The array is one entry
too small for a dump without the schema, long table names are cut, and `destroy_temp_dump_dirs`
looks for names that no entry of a directory has.
-/

namespace Pgactive.Replica

open Scanf Identifiers CString Pgactive.Names

/-! ### The arguments -/

/-- A table that the security label of the extension puts into a replication set. -/
structure LabeledTable where
  nspname : NameData
  relname : NameData
  /-- `pg_table_is_visible`, in the search path of the session on the peer. -/
  visible : Bool

def LabeledTable.qualifiedName (q : Quoting) (t : LabeledTable) : List Char :=
  q.quoteIdentifier t.nspname.chars ++ '.' :: q.quoteIdentifier t.relname.chars

/-- The `objname` of `pg_seclabels`. -/
def LabeledTable.objname (q : Quoting) (t : LabeledTable) : List Char :=
  if t.visible then q.quoteIdentifier t.relname.chars else t.qualifiedName q

/-- `is_include_set` and `is_exclude_set`; there are tables only with one of them. -/
inductive DumpTables
  | includeSet (tables : List LabeledTable)
  | excludeSet (tables : List LabeledTable)
  | noSet

def DumpTables.tables : DumpTables → List LabeledTable
  | .includeSet tables => tables
  | .excludeSet tables => tables
  | .noSet => []

def DumpTables.option : DumpTables → String
  | .includeSet _ => "--table="
  | .excludeSet _ => "--exclude-table="
  | .noSet => ""

def tableArg (option : String) (table : List Char) : List Char :=
  snprintf (2 * nameDataLen) (text option ++ [.str]) [.str table]

def DumpTables.args (q : Quoting) (d : DumpTables) : List (List Char) :=
  d.tables.map fun t => tableArg d.option (t.objname q)

def maxPgPath : ℕ := 1024

/-- What the arguments are made from, the tables apart. -/
structure DumpCall where
  dumpPath : List Char
  restorePath : List Char
  snapshot : List Char
  tmpdir : List Char
  originDsn : List Char
  localDsn : List Char
  /-- `pgactive_init_node_parallel_jobs`. -/
  jobs : ℕ
  /-- `pgactive_get_data_only_node_init`. -/
  dataOnly : Bool

def DumpCall.argJobs (c : DumpCall) : List Char :=
  snprintf 12 (text "--jobs=" ++ [.unsigned 32]) [.num c.jobs]

/-- The entries of `cmdargv` that are written for `pgactive_dump`. -/
def DumpCall.dumpArgv (c : DumpCall) (tableArgs : List (List Char)) : List (Option (List Char)) :=
  ([c.dumpPath, "--exclude-table=pgactive.pgactive_nodes".toList,
      "--exclude-table=pgactive.pgactive_connections".toList, "--pgactive-init-node".toList,
      c.argJobs, snprintf maxPgPath (text "--snapshot=" ++ [.str]) [.str c.snapshot],
      "--format=directory".toList,
      snprintf maxPgPath (text "--file=" ++ [.str]) [.str c.tmpdir], c.originDsn] ++
    (if c.dataOnly then ["--data-only".toList] else []) ++ tableArgs).map some ++ [none]

/-- The entries of `cmdargv` that are written for `pg_restore`. -/
def DumpCall.restoreArgv (c : DumpCall) : List (Option (List Char)) :=
  [c.restorePath, "--exit-on-error".toList, c.argJobs, "--format=directory".toList,
    snprintf maxPgPath (text "--dbname=" ++ [.str]) [.str c.localDsn], c.tmpdir].map some ++ [none]

def maxNoOfNonTableOpts : ℕ := 10

def DumpTables.cmdargvLength (d : DumpTables) : ℕ := maxNoOfNonTableOpts + d.tables.length

theorem DumpCall.length_dumpArgv (c : DumpCall) (tableArgs : List (List Char)) :
    (c.dumpArgv tableArgs).length = 10 + (if c.dataOnly then 1 else 0) + tableArgs.length := by
  cases h : c.dataOnly <;> simp [DumpCall.dumpArgv, h] <;> omega

theorem DumpTables.length_args (q : Quoting) (d : DumpTables) :
    (d.args q).length = d.tables.length :=
  List.length_map _

/-- The arguments of the dump fit into the array exactly without `--data-only`. -/
theorem dumpArgv_fits_iff (q : Quoting) (c : DumpCall) (d : DumpTables) :
    (c.dumpArgv (d.args q)).length ≤ d.cmdargvLength ↔ c.dataOnly = false := by
  rw [c.length_dumpArgv, d.length_args, DumpTables.cmdargvLength, maxNoOfNonTableOpts]
  cases c.dataOnly with
  | false => simp
  | true =>
    simp only [if_true, Bool.true_eq_false, iff_false]
    omega

def dataOnlyCall : DumpCall := ⟨[], [], [], [], [], [], 1, true⟩

theorem dumpArgv_dataOnlyCall :
    (dataOnlyCall.dumpArgv (DumpTables.noSet.args ⟨false, fun _ => false⟩)).length = 11 ∧
      DumpTables.noSet.cmdargvLength = 10 := by
  decide

theorem tableArg_eq (option : String) (table : List Char) :
    tableArg option table = (option.toList ++ table).take 127 := by
  rw [tableArg, snprintf, printf_text]
  show (option.toList ++ (table ++ [])).take 127 = _
  rw [List.append_nil]

theorem LabeledTable.length_objname_lt (q : Quoting) {t : LabeledTable} (h : t.visible = true) :
    (t.objname q).length < (t.qualifiedName q).length := by
  rw [LabeledTable.objname, if_pos h, LabeledTable.qualifiedName, List.length_append,
    List.length_cons]
  omega

theorem tableArg_eq_append_iff {option : String} {table name : List Char}
    (h : table.length ≤ name.length) (heq : table.length = name.length → table = name) :
    tableArg option table = option.toList ++ name ↔
      table = name ∧ (option.toList ++ table).length ≤ 127 := by
  rw [tableArg_eq]
  constructor
  · intro harg
    have hlength := congrArg List.length harg
    simp only [List.length_take, List.length_append] at hlength ⊢
    exact ⟨heq (by omega), by omega⟩
  · rintro ⟨rfl, hfits⟩
    exact List.take_of_length_le hfits

/-- The arguments name the tables as the peer writes them exactly if all fit into the buffer, and
by their qualified names exactly if besides no table is visible without its schema. -/
theorem dumpTables_args_iff (q : Quoting) (d : DumpTables) :
    (d.args q = d.tables.map (fun t => d.option.toList ++ t.objname q) ↔
      ∀ t ∈ d.tables, (d.option.toList ++ t.objname q).length ≤ 127) ∧
    (d.args q = d.tables.map (fun t => d.option.toList ++ t.qualifiedName q) ↔
      ∀ t ∈ d.tables, t.visible = false ∧
        (d.option.toList ++ t.qualifiedName q).length ≤ 127) := by
  simp only [DumpTables.args, List.map_inj_left]
  constructor
  · refine forall₂_congr fun t _ => ?_
    rw [tableArg_eq_append_iff (Nat.le_refl _) fun _ => rfl]
    simp
  · refine forall₂_congr fun t _ => ?_
    cases hvisible : t.visible with
    | true =>
      have hlt := t.length_objname_lt q hvisible
      rw [tableArg_eq_append_iff (by omega) (by omega)]
      constructor
      · rintro ⟨heq, -⟩
        rw [heq] at hlt
        omega
      · simp
    | false =>
      have hname : t.objname q = t.qualifiedName q := by simp [LabeledTable.objname, hvisible]
      rw [hname, tableArg_eq_append_iff (Nat.le_refl _) fun _ => rfl]
      simp

/-- A table with the longest names, outside of the search path. -/
def longTable : LabeledTable :=
  ⟨⟨List.replicate 63 's', by decide⟩, ⟨List.replicate 63 't', by decide⟩, false⟩

theorem args_longTable :
    DumpTables.args ⟨false, fun _ => false⟩ (.includeSet [longTable]) =
      ["--table=".toList ++ List.replicate 63 's' ++ '.' :: List.replicate 55 't'] := by
  decide

/-! ### The temporary directories -/

def tempDumpDirPrefix : List Char := "pgactive-dump".toList

/-- The directory that `pgactive_init_exec_dump_restore` creates. -/
def tmpdir (dir : List Char) (sysid : UInt64) (snapshot : List Char) (pid : ℕ) : List Char :=
  snprintf maxPgPath
    (.str :: text "/" ++ .str :: text "-" ++ .unsigned 64 :: text "-" ++ .str :: text "." ++
      [.unsigned 32])
    [.str dir, .str tempDumpDirPrefix, .num sysid.toNat, .str snapshot, .num pid]

/-- An entry of a directory. -/
structure DirEntry where
  name : List Char
  noSlash : '/' ∉ name
  /-- `NAME_MAX`. -/
  short : name.length ≤ 255

/-- `prefix` in `destroy_temp_dump_dirs`, with the directory in front. -/
def cleanupPrefix (dir : List Char) (sysid : UInt64) : List Char :=
  snprintf maxPgPath (.str :: text "/" ++ .str :: text "-" ++ .unsigned 64 :: text "-")
    [.str dir, .str tempDumpDirPrefix, .num sysid.toNat]

/-- `path` in `destroy_temp_dump_dirs`. -/
def entryPath (dir name : List Char) : List Char :=
  snprintf maxPgPath (.str :: text "/" ++ [.str]) [.str dir, .str name]

def destroyTempDumpDirs (isDirectory : List Char → Bool) (dir : List Char) (sysid : UInt64) :
    List DirEntry → List (List Char)
  | [] => []
  | de :: rest =>
    let removed := destroyTempDumpDirs isDirectory dir sysid rest
    if de.name = ['.'] ∨ de.name = ['.', '.'] then removed
    else if isDirectory (entryPath dir de.name) &&
        strncmpEq (cleanupPrefix dir sysid).length (cleanupPrefix dir sysid) de.name then
      entryPath dir de.name :: removed
    else removed

/-- The name is one that `tmpdir` gives to a directory of this server. -/
def IsDumpName (sysid : UInt64) (name : List Char) : Prop :=
  tempDumpDirPrefix ++ '-' :: (Nat.toDigits 10 sysid.toNat ++ ['-']) <+: name

instance (sysid : UInt64) (name : List Char) : Decidable (IsDumpName sysid name) :=
  inferInstanceAs (Decidable (_ <+: _))

def DirEntry.IsDump (isDirectory : List Char → Bool) (dir : List Char) (sysid : UInt64)
    (de : DirEntry) : Prop :=
  isDirectory (dir ++ '/' :: de.name) = true ∧ IsDumpName sysid de.name

instance (isDirectory : List Char → Bool) (dir : List Char) (sysid : UInt64) :
    DecidablePred (DirEntry.IsDump isDirectory dir sysid) :=
  fun _ => inferInstanceAs (Decidable (_ ∧ _))

theorem take_of_length_lt {l : List Char} {n : ℕ} (h : (l.take n).length < n) : l.take n = l := by
  rw [List.length_take] at h
  exact List.take_of_length_le (by omega)

theorem tmpdir_isDumpName (dir : List Char) (sysid : UInt64) (snapshot : List Char) (pid : ℕ)
    (h : (tmpdir dir sysid snapshot pid).length < 1023) :
    ∃ name, tmpdir dir sysid snapshot pid = dir ++ '/' :: name ∧ IsDumpName sysid name := by
  refine ⟨tempDumpDirPrefix ++ '-' :: (Nat.toDigits 10 sysid.toNat ++ '-' :: (snapshot ++ '.' ::
    Nat.toDigits 10 pid)), ?_, snapshot ++ '.' :: Nat.toDigits 10 pid, by simp⟩
  have hwhole := take_of_length_lt h
  simpa [tmpdir, snprintf, printf, text] using hwhole

theorem not_cleanupPrefix_prefix (dir : List Char) (sysid : UInt64) (de : DirEntry) :
    ¬cleanupPrefix dir sysid <+: de.name := by
  intro hstart
  have hlength := hstart.length_le
  have hshort := de.short
  have hwhole := take_of_length_lt (show (cleanupPrefix dir sysid).length < 1023 by omega)
  rw [cleanupPrefix, snprintf, hwhole] at hstart
  exact de.noSlash (hstart.subset (by simp [printf, text]))

theorem destroyTempDumpDirs_eq_nil (isDirectory : List Char → Bool) (dir : List Char)
    (sysid : UInt64) (entries : List DirEntry) :
    destroyTempDumpDirs isDirectory dir sysid entries = [] := by
  induction entries with
  | nil => rfl
  | cons de rest ih =>
    have hne : strncmpEq (cleanupPrefix dir sysid).length (cleanupPrefix dir sysid) de.name =
        false :=
      Bool.eq_false_iff.mpr fun h =>
        not_cleanupPrefix_prefix dir sysid de (strncmpEq_length_iff.mp h)
    simp [destroyTempDumpDirs, ih, hne]

/-- Exactly the directories that dumps of this server have left are removed exactly if there are
none: none is ever removed. -/
theorem destroyTempDumpDirs_exact_iff (isDirectory : List Char → Bool) (dir : List Char)
    (sysid : UInt64) (entries : List DirEntry) :
    destroyTempDumpDirs isDirectory dir sysid entries =
        (entries.filter (·.IsDump isDirectory dir sysid)).map (fun de => dir ++ '/' :: de.name) ↔
      ∀ de ∈ entries, ¬de.IsDump isDirectory dir sysid := by
  rw [destroyTempDumpDirs_eq_nil, eq_comm, List.map_eq_nil_iff, List.filter_eq_nil_iff]
  simp

def leftEntry : DirEntry := ⟨"pgactive-dump-7-00000003-1.42".toList, by decide, by decide⟩

theorem destroyTempDumpDirs_leftEntry :
    tmpdir "/tmp".toList 7 "00000003-1".toList 42 = "/tmp".toList ++ '/' :: leftEntry.name ∧
      leftEntry.IsDump (fun _ => true) "/tmp".toList 7 ∧
      destroyTempDumpDirs (fun _ => true) "/tmp".toList 7 [leftEntry] = [] := by
  decide

end Pgactive.Replica
