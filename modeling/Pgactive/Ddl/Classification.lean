import Pgactive.Ddl.QueuedOnce

/-!
# What the command filter decides about a statement

The type of the lock for an `ALTER TABLE` is overwritten by each subcommand, so that one for which
the weaker type is enough decides for all. Whether a `DROP` touches only temporary and unlogged
relations is looked up for each name; for `CREATE INDEX` it is read from the parse tree, which does
not say what the table is.
-/

namespace Pgactive.Ddl

open FallibleState
open Pgactive.Locks (LockType)

/-! ### The lock of `ALTER TABLE` -/

/-- The subcommand sets `*lock_type` to `pgactive_LOCK_DDL`. -/
def AlterTableCmd.setsDdl : AlterTableCmd → Bool
  | .addColumn _ _ _ | .addIndex _ => true
  | .addConstraint _ => false
  | .plain subtype =>
    match subtype with
    | .dropColumn | .dropNotNull | .setNotNull | .columnDefault | .clusterOn | .dropCluster
    | .changeOwner | .setStorage | .validateConstraint | .enableTrig | .disableTrig
    | .enableTrigUser | .disableTrigUser => true
    | _ => false

def AlterTableCmd.isInvalid : AlterTableCmd → Bool
  | .plain .other => true
  | _ => false

/-- What an iteration of the loop leaves behind if its checks pass. -/
def AlterTableCmd.next (cmd : AlterTableCmd) (before : LockType × Bool) : LockType × Bool :=
  (if cmd.setsDdl then .ddl else before.1, cmd.isInvalid || before.2)

theorem AlterTableCmd.filter_eq (persistent : String → Except FilterError Unit)
    (cmd : AlterTableCmd) :
    ∃ check : Except FilterError Unit,
      ∀ before, cmd.filter persistent before = (do check; pure (cmd.next before)) := by
  cases cmd with
  | addColumn hasDefault constraints excludeWord =>
    by_cases hdefault : (hasDefault || constraints.contains .default) = true
    · cases excludeWord with
      | false => exact ⟨persistent _, fun _ => if_pos hdefault⟩
      | true =>
        exact ⟨persistent _ >>= fun _ => persistent _, fun _ =>
          (if_pos hdefault).trans (bind_assoc _ _ _).symm⟩
    · cases excludeWord with
      | false => exact ⟨pure (), fun _ => if_neg hdefault⟩
      | true => exact ⟨persistent _, fun _ => if_neg hdefault⟩
  | addIndex excludeOpNames =>
    cases excludeOpNames with
    | false => exact ⟨pure (), fun _ => rfl⟩
    | true => exact ⟨persistent _, fun _ => rfl⟩
  | addConstraint contype =>
    by_cases hexclusion : contype = some .exclusion
    · exact ⟨persistent _, fun _ => if_pos hexclusion⟩
    · exact ⟨pure (), fun _ => if_neg hexclusion⟩
  | plain subtype =>
    cases subtype <;> first | exact ⟨pure (), fun _ => rfl⟩ | exact ⟨persistent _, fun _ => rfl⟩

def AlterTableCmd.Passes (persistent : String → Except FilterError Unit) (cmd : AlterTableCmd) :
    Prop :=
  ∃ after, cmd.filter persistent (.write, false) = .ok after

variable {persistent : String → Except FilterError Unit}

theorem AlterTableCmd.filter_eq_ok_iff {cmd : AlterTableCmd} {before after : LockType × Bool} :
    cmd.filter persistent before = .ok after ↔
      cmd.Passes persistent ∧ after = cmd.next before := by
  obtain ⟨check, hfilter⟩ := cmd.filter_eq persistent
  unfold Passes
  rw [hfilter, hfilter]
  cases check with
  | error e => simp [bind, Except.bind]
  | ok u => simp [bind, Except.bind, pure, Except.pure, eq_comm]

def leftBehind (cmds : List AlterTableCmd) (before : LockType × Bool) : LockType × Bool :=
  (if cmds.any AlterTableCmd.setsDdl then .ddl else before.1,
    cmds.any AlterTableCmd.isInvalid || before.2)

theorem leftBehind_cons (cmd : AlterTableCmd) (cmds : List AlterTableCmd)
    (before : LockType × Bool) :
    leftBehind (cmd :: cmds) before = leftBehind cmds (cmd.next before) := by
  unfold leftBehind AlterTableCmd.next
  rw [List.any_cons, List.any_cons]
  refine Prod.ext ?_ ?_
  · cases cmd.setsDdl <;> simp
  · cases cmd.isInvalid <;> simp

theorem foldlM_filter_eq_ok_iff {cmds : List AlterTableCmd} {before after : LockType × Bool} :
    cmds.foldlM (AlterTableCmd.filter persistent) before = .ok after ↔
      (∀ cmd ∈ cmds, cmd.Passes persistent) ∧ after = leftBehind cmds before := by
  induction cmds generalizing before with
  | nil => simp [leftBehind, pure, Except.pure, eq_comm]
  | cons cmd cmds ih =>
    rw [List.foldlM_cons, except_bind_eq_ok, leftBehind_cons, List.forall_mem_cons]
    constructor
    · rintro ⟨middle, hcmd, hcmds⟩
      obtain ⟨hpasses, rfl⟩ := AlterTableCmd.filter_eq_ok_iff.mp hcmd
      obtain ⟨hall, rfl⟩ := ih.mp hcmds
      exact ⟨⟨hpasses, hall⟩, rfl⟩
    · rintro ⟨⟨hpasses, hall⟩, rfl⟩
      exact ⟨_, AlterTableCmd.filter_eq_ok_iff.mpr ⟨hpasses, rfl⟩, ih.mpr ⟨hall, rfl⟩⟩

variable {env : Env}

theorem filterAlterTableStmt_eq_ok_iff {stmt : AlterTableStmt} {lockType chosen : LockType}
    (hskip : env.skipDdlReplication = false) :
    filterAlterTableStmt env stmt lockType = .ok chosen ↔
      (∃ relid, env.lookup stmt.relation stmt.missingOk = .ok relid) ∧
      (∀ cmd ∈ stmt.cmds, cmd.Passes fun cmdtag =>
        errorOnPersistentRv env stmt.relation cmdtag stmt.missingOk) ∧
      (stmt.cmds.any AlterTableCmd.isInvalid = true →
        errorOnPersistentRv env stmt.relation "This variant of ALTER TABLE" stmt.missingOk =
          .ok ()) ∧
      chosen = if stmt.cmds.any AlterTableCmd.setsDdl then .ddl else lockType := by
  unfold filterAlterTableStmt
  rw [hskip, if_neg Bool.false_ne_true]
  constructor
  · intro h
    obtain ⟨relid, hrelid, h⟩ := except_bind_eq_ok.mp h
    obtain ⟨⟨left, hasInvalid⟩, hloop, h⟩ := except_bind_eq_ok.mp h
    obtain ⟨hall, hleft⟩ := foldlM_filter_eq_ok_iff.mp hloop
    obtain ⟨rfl, rfl⟩ := Prod.mk.inj hleft
    refine ⟨⟨relid, hrelid⟩, hall, ?_⟩
    cases hinvalid : stmt.cmds.any AlterTableCmd.isInvalid with
    | false =>
      rw [hinvalid] at h
      exact ⟨fun h => absurd h Bool.false_ne_true, (Except.ok.inj h).symm⟩
    | true =>
      rw [hinvalid] at h
      obtain ⟨⟨⟩, hvariant, h⟩ := except_bind_eq_ok.mp h
      exact ⟨fun _ => hvariant, (Except.ok.inj h).symm⟩
  · rintro ⟨⟨relid, hrelid⟩, hall, hvariant, rfl⟩
    refine except_bind_eq_ok.mpr ⟨relid, hrelid, except_bind_eq_ok.mpr
      ⟨_, foldlM_filter_eq_ok_iff.mpr ⟨hall, rfl⟩, ?_⟩⟩
    simp only [leftBehind, Bool.or_false]
    split_ifs with hinvalid hset hset
    · exact except_bind_eq_ok.mpr ⟨(), hvariant hinvalid, rfl⟩
    · exact except_bind_eq_ok.mpr ⟨(), hvariant hinvalid, rfl⟩
    · rfl
    · rfl

/-- Parse analysis of `ALTER TABLE`, `transformAlterTableStmt`. It handles the subcommands as they
are in the statement one by one, so that what it makes of one of them is in the result whatever
else the statement has; the order can be another one. It may end with an error. -/
structure Analysis (σ : Type) where
  transform : List σ → Option (List AlterTableCmd)
  parts : σ → List AlterTableCmd
  mem_transform : ∀ {subcommands cmds}, transform subcommands = some cmds →
    ∀ cmd, cmd ∈ cmds ↔ ∃ subcommand ∈ subcommands, cmd ∈ parts subcommand

section LockStrength

variable {σ : Type} (analysis : Analysis σ) (relation : RangeVar) (missingOk : Bool)

/-- The type of the lock that the filter chooses for an `ALTER TABLE` with these subcommands. -/
def Analysis.lockType (env : Env) (subcommands : List σ) : Except FilterError LockType :=
  if env.skipDdlReplication then filterAlterTableStmt env ⟨relation, missingOk, []⟩ .write
  else
    match analysis.transform subcommands with
    | none => .error (.server "error in parse analysis")
    | some cmds => filterAlterTableStmt env ⟨relation, missingOk, cmds⟩ .write

def Analysis.setsDdl (subcommand : σ) : Bool :=
  (analysis.parts subcommand).any AlterTableCmd.setsDdl

variable {analysis relation missingOk} {subcommands : List σ}

variable {chosen : LockType}

theorem Analysis.lockType_eq_ok_iff (hskip : env.skipDdlReplication = false) :
    analysis.lockType relation missingOk env subcommands = .ok chosen ↔
      ∃ cmds, analysis.transform subcommands = some cmds ∧
        filterAlterTableStmt env ⟨relation, missingOk, cmds⟩ .write = .ok chosen := by
  unfold lockType
  rw [hskip, if_neg Bool.false_ne_true]
  split
  · next hnone => simp [hnone]
  · next cmds hcmds => simp [hcmds]

theorem Analysis.any_transform {cmds : List AlterTableCmd}
    (h : analysis.transform subcommands = some cmds) (p : AlterTableCmd → Bool) :
    cmds.any p = true ↔ ∃ subcommand ∈ subcommands, (analysis.parts subcommand).any p = true := by
  simp only [List.any_eq_true, analysis.mem_transform h]
  constructor
  · rintro ⟨cmd, ⟨subcommand, hmem, hcmd⟩, hp⟩
    exact ⟨subcommand, hmem, cmd, hcmd, hp⟩
  · rintro ⟨subcommand, hmem, cmd, hcmd, hp⟩
    exact ⟨cmd, ⟨subcommand, hmem, hcmd⟩, hp⟩

theorem Analysis.lockType_alone {subcommand : σ} {cmds : List AlterTableCmd}
    (hskip : env.skipDdlReplication = false)
    (h : analysis.lockType relation missingOk env subcommands = .ok chosen)
    (hmem : subcommand ∈ subcommands) (halone : analysis.transform [subcommand] = some cmds) :
    analysis.lockType relation missingOk env [subcommand] =
      .ok (if analysis.setsDdl subcommand then .ddl else .write) := by
  obtain ⟨whole, hwhole, hfilter⟩ := (lockType_eq_ok_iff hskip).mp h
  obtain ⟨hrelid, hpasses, hvariant, -⟩ := (filterAlterTableStmt_eq_ok_iff hskip).mp hfilter
  have hsub : ∀ cmd ∈ cmds, cmd ∈ whole := by
    intro cmd hcmd
    obtain ⟨other, hother, hpart⟩ := (analysis.mem_transform halone cmd).mp hcmd
    rw [List.mem_singleton] at hother
    subst hother
    exact (analysis.mem_transform hwhole cmd).mpr ⟨other, hmem, hpart⟩
  have hset : cmds.any AlterTableCmd.setsDdl = analysis.setsDdl subcommand := by
    rw [Bool.eq_iff_iff, any_transform halone]
    simp [setsDdl]
  refine (lockType_eq_ok_iff hskip).mpr
    ⟨cmds, halone, (filterAlterTableStmt_eq_ok_iff hskip).mpr
      ⟨hrelid, fun cmd hcmd => hpasses cmd (hsub cmd hcmd), fun hinvalid => hvariant ?_, ?_⟩⟩
  · obtain ⟨cmd, hcmd, hinvalid⟩ := List.any_eq_true.mp hinvalid
    exact List.any_eq_true.mpr ⟨cmd, hsub cmd hcmd, hinvalid⟩
  · rw [hset]

theorem Analysis.chosen_eq (hskip : env.skipDdlReplication = false)
    (h : analysis.lockType relation missingOk env subcommands = .ok chosen) :
    chosen = if subcommands.any analysis.setsDdl then .ddl else .write := by
  obtain ⟨whole, hwhole, hfilter⟩ := (lockType_eq_ok_iff hskip).mp h
  obtain ⟨-, -, -, hchosen⟩ := (filterAlterTableStmt_eq_ok_iff hskip).mp hfilter
  have hany : whole.any AlterTableCmd.setsDdl = subcommands.any analysis.setsDdl := by
    rw [Bool.eq_iff_iff, any_transform hwhole, List.any_eq_true]
    rfl
  rwa [hany] at hchosen

theorem level_le_write (lockType : LockType) : lockType.level ≤ LockType.write.level := by
  cases lockType <;> decide

theorem Analysis.alone_le_ddl_iff (hskip : env.skipDdlReplication = false)
    (h : analysis.lockType relation missingOk env subcommands = .ok .ddl) :
    (∀ subcommand ∈ subcommands, ∀ alone,
      analysis.lockType relation missingOk env [subcommand] = .ok alone →
        alone.level ≤ LockType.ddl.level) ↔
    ∀ subcommand ∈ subcommands, (analysis.transform [subcommand]).isSome = true →
      analysis.setsDdl subcommand = true := by
  refine forall₂_congr fun subcommand hmem => ⟨fun hstrong hsome => ?_, fun hall alone halone => ?_⟩
  · obtain ⟨cmds, hcmds⟩ := Option.isSome_iff_exists.mp hsome
    have hle := hstrong _ (lockType_alone hskip h hmem hcmds)
    by_contra hnot
    rw [if_neg hnot] at hle
    exact absurd hle (by decide)
  · obtain ⟨cmds, hcmds, -⟩ := (lockType_eq_ok_iff hskip).mp halone
    have hown := lockType_alone hskip h hmem hcmds
    rw [hall (by rw [hcmds]; rfl), if_pos rfl, halone] at hown
    cases hown
    decide

/-- For every `ALTER TABLE` that the filter accepts: the lock for the statement is at least as
strong as the lock for each of its subcommands alone exactly if DDL replication is disabled, or no
subcommand sets the weaker type, or all that are statements of their own do. -/
theorem alterTable_lockType_strength {σ : Type} (analysis : Analysis σ) (env : Env)
    (relation : RangeVar) (missingOk : Bool) (subcommands : List σ) (chosen : LockType)
    (h : analysis.lockType relation missingOk env subcommands = .ok chosen) :
    (∀ subcommand ∈ subcommands, ∀ alone,
      analysis.lockType relation missingOk env [subcommand] = .ok alone →
        alone.level ≤ chosen.level) ↔
    env.skipDdlReplication = true ∨
      (∀ subcommand ∈ subcommands, analysis.setsDdl subcommand = false) ∨
      (∀ subcommand ∈ subcommands, (analysis.transform [subcommand]).isSome = true →
        analysis.setsDdl subcommand = true) := by
  cases hskip : env.skipDdlReplication with
  | true =>
    have hwrite : chosen = .write := by
      simpa [Analysis.lockType, filterAlterTableStmt, hskip, eq_comm] using h
    subst hwrite
    exact iff_of_true (fun _ _ alone _ => level_le_write alone) (.inl rfl)
  | false =>
    have hchosen := Analysis.chosen_eq hskip h
    cases hany : subcommands.any analysis.setsDdl with
    | false =>
      rw [hany] at hchosen
      subst hchosen
      have hnone : ∀ subcommand ∈ subcommands, analysis.setsDdl subcommand = false := by
        simpa using hany
      exact iff_of_true (fun _ _ alone _ => level_le_write alone) (.inr (.inl hnone))
    | true =>
      rw [hany] at hchosen
      subst hchosen
      obtain ⟨setting, hsetting, hset⟩ := List.any_eq_true.mp hany
      have hsome : ¬∀ subcommand ∈ subcommands, analysis.setsDdl subcommand = false := by
        intro hnone
        exact Bool.false_ne_true ((hnone setting hsetting).symm.trans hset)
      rw [or_iff_right Bool.false_ne_true, or_iff_right hsome]
      exact Analysis.alone_le_ddl_iff hskip h

end LockStrength

def plainAnalysis : Analysis AlterTableCmd where
  transform := some
  parts cmd := [cmd]
  mem_transform := by
    rintro subcommands cmds ⟨⟩ cmd
    simp

def settingsTable : RangeVar := ⟨none, "settings", .permanent⟩

def tableEnv : Env := { activeEnv with relid := fun _ => some 16400 }

theorem alterTable_lockType_strength_of_drop :
    plainAnalysis.lockType settingsTable false tableEnv
      [.plain .dropColumn, .plain .dropNotNull] = .ok .ddl ∧
    ∀ subcommand ∈ [AlterTableCmd.plain .dropColumn, .plain .dropNotNull], ∀ alone,
      plainAnalysis.lockType settingsTable false tableEnv [subcommand] = .ok alone →
        alone.level ≤ LockType.ddl.level :=
  ⟨rfl, (alterTable_lockType_strength plainAnalysis tableEnv settingsTable false
    [.plain .dropColumn, .plain .dropNotNull] .ddl rfl).mpr (.inr (.inr (by decide)))⟩

/-- `ALTER TABLE settings DROP CONSTRAINT c, DROP COLUMN a` takes a weaker lock than
`ALTER TABLE settings DROP CONSTRAINT c`. -/
theorem alterTable_lockType_weaker :
    plainAnalysis.lockType settingsTable false tableEnv
      [.plain .dropConstraint, .plain .dropColumn] = .ok .ddl ∧
    plainAnalysis.lockType settingsTable false tableEnv [.plain .dropConstraint] = .ok .write ∧
    LockType.ddl.level < LockType.write.level :=
  ⟨rfl, rfl, by decide⟩

/-! ### Statements that touch no permanent relation -/

def Stmt.named : Stmt → Option (List RangeVar)
  | .drop stmt =>
    if stmt.concurrent then none
    else
      match stmt.removeType with
      | .index | .table | .sequence | .view | .matview | .foreignTable => some stmt.objects
      | _ => none
  | .index stmt => some [stmt.relation]
  | _ => none

/-- The name is that of a temporary relation of the session. A name without a schema finds it
through a search path that begins with the temporary schema. -/
def Env.SessionTemp (env : Env) (rv : RangeVar) : Prop :=
  ∃ relid, env.relid rv = some relid ∧ env.persistence relid = .temp ∧
    (rv.schemaname = none → ∃ temp, env.tempNamespace = some temp ∧
      env.searchPath.head? = some temp ∧ env.relnameRelid rv.relname temp = some relid)

/-- The test is true only if no existing relation is permanent, and it is true for the temporary
relations of the session. -/
def NonpermanentTest (env : Env) (stmt : Stmt) (named : List RangeVar) : Prop :=
  (statementAffectsOnlyNonpermanent env stmt = .ok true →
    ∀ rv ∈ named, ∀ relid, env.relid rv = some relid → env.persistence relid ≠ .permanent) ∧
  ((∀ rv ∈ named, env.SessionTemp rv) → statementAffectsOnlyNonpermanent env stmt = .ok true)

theorem Env.foundTempRel_eq_true_iff {rv : RangeVar} {relid : Oid} :
    env.foundTempRel rv relid = true ↔
      ∃ temp, env.tempNamespace = some temp ∧ env.searchPath.head? = some temp ∧
        env.relnameRelid rv.relname temp = some relid := by
  unfold foundTempRel
  cases htemp : env.tempNamespace with
  | none => simp
  | some temp =>
    cases hpath : env.searchPath with
    | nil => simp
    | cons first rest => simp

variable {stmt : DropStmt} {rv : RangeVar} {names : List RangeVar} {relid : Oid}

theorem dropsOnlyNonpermanent_cons_iff (h : env.relid rv = some relid) :
    dropsOnlyNonpermanent env stmt (rv :: names) = .ok true ↔
      (rv.schemaname = none → env.foundTempRel rv relid = true) ∧
      (stmt.removeType = .index → env.isIndex relid = true) ∧
      env.persistence relid ≠ .permanent ∧ dropsOnlyNonpermanent env stmt names = .ok true := by
  have hbody : dropsOnlyNonpermanent env stmt (rv :: names) =
      if rv.schemaname.isNone && !env.foundTempRel rv relid then .ok false
      else if stmt.removeType = .index && !env.isIndex relid
      then .error (.server ("\"" ++ rv.relname ++ "\" is not an index"))
      else if ispermanent (env.persistence relid) then .ok false
      else dropsOnlyNonpermanent env stmt names := by
    rw [dropsOnlyNonpermanent, Env.lookup, h]
    rfl
  rw [hbody]
  split_ifs with htemp hindex hpermanent
  · simp only [Bool.and_eq_true, Option.isNone_iff_eq_none, Bool.not_eq_true'] at htemp
    simp [htemp]
  · simp only [Bool.and_eq_true, decide_eq_true_eq, Bool.not_eq_true'] at hindex
    simp [hindex]
  · simp only [ispermanent, decide_eq_true_eq] at hpermanent
    simp [hpermanent]
  · simp only [Bool.and_eq_true, Option.isNone_iff_eq_none, Bool.not_eq_true', not_and,
      Bool.not_eq_false, decide_eq_true_eq, ispermanent] at htemp hindex hpermanent
    exact ⟨fun hrest => ⟨htemp, hindex, hpermanent, hrest⟩, fun hall => hall.2.2.2⟩

theorem dropsOnlyNonpermanent_of_missing (h : env.relid rv = none)
    (hok : dropsOnlyNonpermanent env stmt (rv :: names) = .ok true) :
    dropsOnlyNonpermanent env stmt names = .ok true := by
  rw [dropsOnlyNonpermanent, Env.lookup, h] at hok
  cases hmissing : stmt.missingOk with
  | false =>
    rw [hmissing] at hok
    cases hok
  | true =>
    rw [hmissing] at hok
    exact hok

theorem dropsOnlyNonpermanent_sound (h : dropsOnlyNonpermanent env stmt names = .ok true) :
    ∀ rv ∈ names, ∀ relid, env.relid rv = some relid → env.persistence relid ≠ .permanent := by
  induction names with
  | nil => simp
  | cons rv names ih =>
    rw [List.forall_mem_cons]
    cases hrelid : env.relid rv with
    | none => exact ⟨by simp, ih (dropsOnlyNonpermanent_of_missing hrelid h)⟩
    | some relid =>
      obtain ⟨-, -, hpermanent, hnames⟩ := (dropsOnlyNonpermanent_cons_iff hrelid).mp h
      refine ⟨?_, ih hnames⟩
      rintro _ ⟨⟩
      exact hpermanent

theorem dropsOnlyNonpermanent_complete (h : ∀ rv ∈ names, env.SessionTemp rv) :
    dropsOnlyNonpermanent env stmt names = .ok true ↔
      (stmt.removeType = .index →
        ∀ rv ∈ names, ∀ relid, env.relid rv = some relid → env.isIndex relid = true) := by
  induction names with
  | nil => simp [dropsOnlyNonpermanent]
  | cons rv names ih =>
    obtain ⟨⟨relid, hrelid, htemp, hfound⟩, hnames⟩ := List.forall_mem_cons.mp h
    rw [dropsOnlyNonpermanent_cons_iff hrelid, ih hnames, Env.foundTempRel_eq_true_iff]
    constructor
    · rintro ⟨-, hindex, -, hrest⟩ hremove
      refine List.forall_mem_cons.mpr ⟨?_, hrest hremove⟩
      rintro relid' hrelid'
      cases hrelid.symm.trans hrelid'
      exact hindex hremove
    · intro hindex
      refine ⟨hfound, fun hremove => ?_, by rw [htemp]; decide, fun hremove => ?_⟩
      · exact (List.forall_mem_cons.mp (hindex hremove)).1 relid hrelid
      · exact (List.forall_mem_cons.mp (hindex hremove)).2

/-- What the test needs to be right. A `DROP INDEX` of temporary relations names indexes; the
persistence in a `CREATE INDEX` is what it is in the catalog. -/
def Env.TestIsRight (env : Env) : Stmt → Prop
  | .drop stmt =>
    stmt.removeType = .index → (∀ rv ∈ stmt.objects, env.SessionTemp rv) →
      ∀ rv ∈ stmt.objects, ∀ relid, env.relid rv = some relid → env.isIndex relid = true
  | .index stmt =>
    if stmt.relation.relpersistence = .permanent then ¬env.SessionTemp stmt.relation
    else ∀ relid, env.relid stmt.relation = some relid → env.persistence relid ≠ .permanent
  | _ => True

theorem Stmt.named_drop (h : (drop stmt).named = some names) :
    names = stmt.objects ∧
      statementAffectsOnlyNonpermanent env (.drop stmt) =
        dropsOnlyNonpermanent env stmt stmt.objects := by
  simp only [named] at h
  simp only [statementAffectsOnlyNonpermanent]
  cases hconcurrent : stmt.concurrent with
  | true => simp [hconcurrent] at h
  | false =>
    rw [hconcurrent, if_neg Bool.false_ne_true] at h
    cases hremove : stmt.removeType <;> rw [hremove] at h <;> cases h
    all_goals exact ⟨rfl, rfl⟩

theorem nonpermanentTest_index {stmt : IndexStmt} :
    NonpermanentTest env (.index stmt) [stmt.relation] ↔ env.TestIsRight (.index stmt) := by
  simp only [NonpermanentTest, statementAffectsOnlyNonpermanent, Env.TestIsRight, ispermanent,
    List.forall_mem_singleton]
  split_ifs with hpermanent
  · simp [hpermanent]
  · simp [hpermanent]

/-- For every `DROP` of relations that is not concurrent and every `CREATE INDEX`: the test is true
only if no named relation is permanent, and true if all are temporary relations of the session,
exactly if a `DROP INDEX` of such relations names only indexes and the parse tree of a `CREATE
INDEX` has the persistence of the table. -/
theorem statementAffectsOnlyNonpermanent_iff (env : Env) (stmt : Stmt) (named : List RangeVar)
    (hnamed : stmt.named = some named) :
    NonpermanentTest env stmt named ↔ env.TestIsRight stmt := by
  cases stmt with
  | drop stmt =>
    obtain ⟨rfl, hloop⟩ := Stmt.named_drop hnamed
    unfold NonpermanentTest
    rw [hloop]
    constructor
    · rintro ⟨-, hcomplete⟩ hremove htemp
      exact (dropsOnlyNonpermanent_complete htemp).mp (hcomplete htemp) hremove
    · intro hright
      refine ⟨dropsOnlyNonpermanent_sound, fun htemp => ?_⟩
      exact (dropsOnlyNonpermanent_complete htemp).mpr fun hremove => hright hremove htemp
  | index stmt =>
    cases hnamed
    exact nonpermanentTest_index
  | _ => cases hnamed

/-- A session with the temporary table `scratch` and its index `scratch_idx`. -/
def temporaryEnv : Env :=
  { activeEnv with
    relid := fun rv => if rv.relname = "scratch" then some 16500 else some 16501
    persistence := fun _ => .temp
    isIndex := fun relid => relid = 16501
    tempNamespace := some 16499
    searchPath := [16499, 11, 2200]
    relnameRelid := fun relname _ => if relname = "scratch" then some 16500 else some 16501 }

def dropScratchIndex : Stmt :=
  .drop
    { removeType := .index
      concurrent := false
      missingOk := false
      objects := [⟨none, "scratch_idx", .permanent⟩]
      nidGetter := false }

theorem nonpermanentTest_dropScratchIndex :
    NonpermanentTest temporaryEnv dropScratchIndex [⟨none, "scratch_idx", .permanent⟩] :=
  (statementAffectsOnlyNonpermanent_iff temporaryEnv dropScratchIndex _ rfl).mpr (by
    rintro - - rv hrv relid hrelid
    rw [List.mem_singleton] at hrv
    subst hrv
    cases hrelid
    rfl)

/-- `CREATE INDEX ON scratch`. The parser makes every table name one of a permanent table. -/
def indexScratch : Stmt := .index ⟨⟨none, "scratch", .permanent⟩, false, false, false⟩

/-- The table is temporary, and the test says that a permanent one is affected. -/
theorem nonpermanentTest_indexScratch :
    temporaryEnv.SessionTemp ⟨none, "scratch", .permanent⟩ ∧
    statementAffectsOnlyNonpermanent temporaryEnv indexScratch = .ok false ∧
    ¬NonpermanentTest temporaryEnv indexScratch [⟨none, "scratch", .permanent⟩] := by
  have htemp : temporaryEnv.SessionTemp ⟨none, "scratch", .permanent⟩ :=
    ⟨16500, rfl, rfl, fun _ => ⟨16499, rfl, rfl, rfl⟩⟩
  refine ⟨htemp, rfl, fun htest => ?_⟩
  have htrue := htest.2 (List.forall_mem_singleton.mpr htemp)
  cases htrue

end Pgactive.Ddl
