import Pgactive.ApplyFrame.Handlers

/-!
# The frame around queued commands

Each step of a handler as a function of the process: what is pushed is popped again, in the
order in which this is written down. Then the commands that an insert into a DDL queue executes:
they are the only part of an insert that may end in another frame.
-/

namespace Pgactive.ApplyFrame

open FallibleState

variable {υ κ ν D : Type}

/-! ### The steps of a handler -/

def Backend.withContext (s : Backend υ) (cb : Callback) : Backend υ :=
  { s with errorContext := cb :: s.errorContext }

def Backend.withSnapshot (s : Backend υ) (snapshot : Snapshot) : Backend υ :=
  { s with snapshots := snapshot :: s.snapshots }

def Backend.working (s : Backend υ) : Backend υ := { s with startedTransaction := true }

def Backend.switched (s : Backend υ) (cfg : Settings) (owner : υ) : Backend υ :=
  if cfg.applyAsTableOwner then
    { s with user := ⟨owner, s.user.secContext ||| securityRestrictedOperation⟩ }
  else s

section Parts

variable {s s' : Backend υ} {cb : Callback} {snapshot : Snapshot} {cfg : Settings} {owner : υ}

theorem pushErrorContext_run :
    pushErrorContext cb s = (.ok s.errorContext, s.withContext cb) := rfl

theorem popErrorContext_run :
    popErrorContext cb s.errorContext (s.withContext cb) = (.ok (), s) := by
  simp [popErrorContext, Backend.withContext]

theorem pushActiveSnapshot_run :
    pushActiveSnapshot snapshot s = (.ok (), s.withSnapshot snapshot) := rfl

theorem popActiveSnapshot_run :
    popActiveSnapshot (s.withSnapshot snapshot) = (.ok (), s) := rfl

theorem performingWork_run :
    performingWork (s.withContext cb) = (.ok !s.startedTransaction, s.working.withContext cb) :=
  rfl

theorem switchToOwner_run :
    switchToOwner cfg owner s = (.ok s.user, s.switched cfg owner) := by
  unfold switchToOwner Backend.switched
  split_ifs <;> rfl

theorem switchBack_run :
    switchBack cfg s.user (s.switched cfg owner) = (.ok (), s) := by
  unfold switchBack Backend.switched
  split_ifs <;> rfl

theorem lockFound_run (retries : ℕ) : lockFound retries s = (.ok (), s) := by
  induction retries with
  | zero => rfl
  | succ retries ih =>
    exact ih

theorem getConflictHandlers_run (table : OpenTable υ D) :
    getConflictHandlers table s = (.ok (), s) := by
  unfold getConflictHandlers
  split_ifs <;> rfl

theorem applied_eq_ok_iff {α : Type} {x : Except ApplyError α} {a : α} :
    (applied x : Handler υ α) s = (.ok a, s') ↔ x = .ok a ∧ s' = s := by
  rw [applied, stateless_eq_ok_iff, except_mapError_eq_ok]

theorem readRel_eq_ok {table : Option (OpenTable υ D)} {t : OpenTable υ D}
    (h : readRel table s = (.ok t, s')) : table = some t ∧ s' = s := by
  cases table with
  | none => cases h
  | some table =>
    cases h
    exact ⟨rfl, rfl⟩

theorem checkRelkind_eq_ok {table : OpenTable υ D} (h : checkRelkind table s = (.ok (), s')) :
    s' = s := by
  unfold checkRelkind at h
  split_ifs at h <;> cases h
  rfl

theorem identityIndex_eq_ok {table : OpenTable υ D} {ix : Index D}
    (h : identityIndex table s = (.ok ix, s')) : table.rel.identityIndex = some ix ∧ s' = s := by
  unfold identityIndex at h
  cases hix : table.rel.identityIndex with
  | none =>
    rw [hix] at h
    cases h
  | some ix' =>
    rw [hix] at h
    cases h
    exact ⟨rfl, rfl⟩

end Parts

/-! ### Queued commands -/

def Server.ends (server : Server υ κ D) (isTopLevel : Bool) (command : κ) : Bool :=
  match server.portalRun command isTopLevel with
  | .ok ended => ended
  | .error _ => false

def Server.endCount (server : Server υ κ D) (txJustStarted : Bool) (commands : List κ) : ℕ :=
  commands.countP (server.ends (commands.length = 1 && txJustStarted))

/-- The queued DDL commands leave the frame as it is: none of them ends the transaction while a
snapshot is active, and they are run as the current user, unless PostgreSQL goes back to this
one. -/
def QueuedDdlKeeps (server : Server υ κ D) (row : Row D) (txJustStarted : Bool) (f : Frame υ) :
    Prop :=
  ∀ perpetrator cmdstr commands, row[2]?.join = some perpetrator → row[4]?.join = some cmdstr →
    server.parseQuery cmdstr = .ok commands →
      (server.endCount txJustStarted commands ≠ 0 → f.snapshots = []) ∧
      (commands ≠ [] → ¬(server.undoesOverride = true ∧
        server.endCount txJustStarted commands = 0) →
          server.role perpetrator = some f.user.userid)

section Queues

variable {s s' : Backend υ} {server : Server υ κ D} {cb : Callback}

theorem popErrorContext_of_top {previous : List Callback} (h : s.errorContext = cb :: previous) :
    popErrorContext cb previous s = (.ok (), { s with errorContext := previous }) := by
  rw [popErrorContext, if_pos h]

variable {row : Row D}

theorem queueColumn_eq_ok {attnum : ℕ} {d : D} (h : queueColumn row attnum s = (.ok d, s')) :
    row[attnum - 1]?.join = some d ∧ s' = s := by
  unfold queueColumn at h
  cases hcol : row[attnum - 1]?.join with
  | none =>
    rw [hcol] at h
    cases h
  | some d' =>
    rw [hcol] at h
    cases h
    exact ⟨rfl, rfl⟩

variable {perpetrator : D}

theorem setRole_eq_ok (h : setRole server perpetrator s = (.ok (), s')) :
    ∃ role, server.role perpetrator = some role ∧
      s' = { s with user := { s.user with userid := role } } := by
  unfold setRole at h
  cases hrole : server.role perpetrator with
  | none =>
    rw [hrole] at h
    cases h
  | some role =>
    rw [hrole] at h
    cases h
    exact ⟨role, rfl, rfl⟩

variable {isTopLevel : Bool} {command : κ}

theorem portalRun_eq_ok (h : portalRun server isTopLevel command s = (.ok (), s')) :
    s' = if server.ends isTopLevel command then
      { s with snapshots := [], topXid := s.topXid + 1 } else s := by
  obtain ⟨ended, s₁, hrun, hrest⟩ := bind_eq_ok_iff.mp h
  obtain ⟨hended, rfl⟩ := stateless_eq_ok_iff.mp hrun
  have hends : server.ends isTopLevel command = ended := by
    simp [Server.ends, hended]
  rw [hends]
  cases ended <;> cases hrest <;> rfl

theorem runCommand_eq_ok (h : runCommand server perpetrator isTopLevel command s = (.ok (), s')) :
    ∃ role, server.role perpetrator = some role ∧
      s' = if server.ends isTopLevel command then
        { s with user := { s.user with userid := role }, snapshots := [], topXid := s.topXid + 1 }
      else { s with user := { s.user with userid := role } } := by
  rw [runCommand, bind_of_ok pushActiveSnapshot_run] at h
  obtain ⟨_, s₁, hset, hrest⟩ := bind_eq_ok_iff.mp h
  obtain ⟨role, hrole, rfl⟩ := setRole_eq_ok hset
  obtain ⟨_, s₂, hpop, hportal⟩ := bind_eq_ok_iff.mp hrest
  cases hpop
  exact ⟨role, hrole, portalRun_eq_ok hportal⟩

/-- What a list of commands does. -/
structure CommandsRan (server : Server υ κ D) (perpetrator : D) (isTopLevel : Bool)
    (commands : List κ) (s s' : Backend υ) : Prop where
  errorContext : s'.errorContext = s.errorContext
  snapshots : s'.snapshots =
    if commands.countP (server.ends isTopLevel) = 0 then s.snapshots else []
  topXid : s'.topXid = s.topXid + commands.countP (server.ends isTopLevel)
  secContext : s'.user.secContext = s.user.secContext
  same : commands = [] → s'.user = s.user
  role : commands ≠ [] → server.role perpetrator = some s'.user.userid

variable {commands : List κ} {s₁ : Backend υ}

theorem CommandsRan.cons
    (hfirst : runCommand server perpetrator isTopLevel command s = (.ok (), s₁))
    (hrest : CommandsRan server perpetrator isTopLevel commands s₁ s') :
    CommandsRan server perpetrator isTopLevel (command :: commands) s s' := by
  obtain ⟨role, hrole, rfl⟩ := runCommand_eq_ok hfirst
  have hlast : server.role perpetrator = some s'.user.userid := by
    by_cases hnil : commands = []
    · rw [hrest.same hnil, hrole]
      split_ifs <;> rfl
    · exact hrest.role hnil
  refine ⟨?_, ?_, ?_, ?_, fun h => absurd h (List.cons_ne_nil _ _), fun _ => hlast⟩
  · rw [hrest.errorContext]
    split_ifs <;> rfl
  · rw [hrest.snapshots, List.countP_cons]
    by_cases hends : server.ends isTopLevel command = true <;> simp [hends]
  · rw [hrest.topXid, List.countP_cons]
    by_cases hends : server.ends isTopLevel command = true
    · simp only [hends, if_true]
      omega
    · simp [hends]
  · rw [hrest.secContext]
    split_ifs <;> rfl

theorem runCommands_ran (h : runCommands server perpetrator isTopLevel commands s = (.ok (), s')) :
    CommandsRan server perpetrator isTopLevel commands s s' := by
  induction commands generalizing s with
  | nil =>
    cases h
    exact ⟨rfl, rfl, rfl, rfl, fun _ => rfl, fun hne => absurd rfl hne⟩
  | cons command commands ih =>
    obtain ⟨_, s₁, hfirst, hrest⟩ := bind_eq_ok_iff.mp h
    exact (ih hrest).cons hfirst

/-- After the queued commands the process has its error context and, unless one of them has
ended the transaction, its snapshots. -/
structure DdlExecuted (server : Server υ κ D) (perpetrator : D) (commands : List κ)
    (txJustStarted : Bool) (s s' : Backend υ) : Prop where
  errorContext : s'.errorContext = s.errorContext
  snapshots : s'.snapshots =
    if server.endCount txJustStarted commands = 0 then s.snapshots else []
  topXid : s'.topXid = s.topXid + server.endCount txJustStarted commands
  user : s'.user = s.user ↔ (commands ≠ [] → ¬(server.undoesOverride = true ∧
    server.endCount txJustStarted commands = 0) →
      server.role perpetrator = some s.user.userid)

variable {txJustStarted : Bool}

theorem CommandsRan.executed
    (hran : CommandsRan server perpetrator (commands.length = 1 && txJustStarted) commands
      (s.withContext cb) s₁)
    (h : atEOXactGuc server (s.withContext cb) { s₁ with errorContext := s.errorContext } =
      (.ok (), s')) : DdlExecuted server perpetrator commands txJustStarted s s' := by
  have hcount : s₁.topXid = s.topXid + server.endCount txJustStarted commands := hran.topXid
  have hsec : s₁.user.secContext = s.user.secContext := hran.secContext
  by_cases hundo : server.undoesOverride = true ∧ s₁.topXid = s.topXid
  · have hs' : s' = { s₁ with
        errorContext := s.errorContext
        user := { s₁.user with userid := s.user.userid } } := by
      rw [← (Prod.mk.inj h).2]
      exact if_pos hundo
    subst hs'
    refine ⟨rfl, hran.snapshots, hcount, ?_⟩
    have huser : ({ s₁.user with userid := s.user.userid } : UserContext υ) = s.user :=
      UserContext.ext rfl hsec
    constructor
    · intro _ _ hnot
      exact absurd ⟨hundo.1, by omega⟩ hnot
    · intro _
      exact huser
  · have hs' : s' = { s₁ with errorContext := s.errorContext } := by
      rw [← (Prod.mk.inj h).2]
      exact if_neg hundo
    subst hs'
    refine ⟨rfl, hran.snapshots, hcount, ?_⟩
    constructor
    · intro huser hne _
      rw [hran.role hne, huser]
    · intro hrole
      by_cases hnil : commands = []
      · exact hran.same hnil
      · have hlast := hrole hnil (fun hand => hundo ⟨hand.1, by omega⟩)
        rw [hran.role hnil, Option.some.injEq] at hlast
        exact UserContext.ext hlast hsec

theorem executeDdlCommand_executed {cmdstr : D}
    (h : executeDdlCommand server cmdstr perpetrator txJustStarted s = (.ok (), s')) :
    ∃ commands, server.parseQuery cmdstr = .ok commands ∧
      DdlExecuted server perpetrator commands txJustStarted s s' := by
  rw [executeDdlCommand, bind_of_ok pushErrorContext_run] at h
  obtain ⟨level, s₁, hget, h₁⟩ := bind_eq_ok_iff.mp h
  cases hget
  obtain ⟨commands, s₂, hrun, h₂⟩ := bind_eq_ok_iff.mp h₁
  obtain ⟨hparse, rfl⟩ := stateless_eq_ok_iff.mp hrun
  obtain ⟨_, s₃, hloop, h₃⟩ := bind_eq_ok_iff.mp h₂
  have hran := runCommands_ran hloop
  rw [bind_of_ok (popErrorContext_of_top hran.errorContext)] at h₃
  exact ⟨commands, hparse, hran.executed h₃⟩

theorem processQueuedDdlCommand_executed
    (h : processQueuedDdlCommand server row txJustStarted s = (.ok (), s')) :
    ∃ perpetrator cmdstr commands, row[2]?.join = some perpetrator ∧
      row[4]?.join = some cmdstr ∧ server.parseQuery cmdstr = .ok commands ∧
      DdlExecuted server perpetrator commands txJustStarted s s' := by
  obtain ⟨perpetrator, s₁, hrun, h₁⟩ := bind_eq_ok_iff.mp h
  obtain ⟨hperpetrator, rfl⟩ := queueColumn_eq_ok hrun
  obtain ⟨_, s₂, hrun, h₂⟩ := bind_eq_ok_iff.mp h₁
  obtain ⟨-, rfl⟩ := queueColumn_eq_ok hrun
  obtain ⟨cmdstr, s₃, hrun, h₃⟩ := bind_eq_ok_iff.mp h₂
  obtain ⟨hcmdstr, rfl⟩ := queueColumn_eq_ok hrun
  obtain ⟨commands, hparse, hexecuted⟩ := executeDdlCommand_executed h₃
  exact ⟨perpetrator, cmdstr, commands, hperpetrator, hcmdstr, hparse, hexecuted⟩

theorem processQueuedDrop_eq_ok (h : processQueuedDrop server row s = (.ok (), s')) : s' = s := by
  unfold processQueuedDrop at h
  cases hcol : row[2]?.join with
  | none =>
    rw [hcol] at h
    cases h
    rfl
  | some objects =>
    rw [hcol] at h
    obtain ⟨_, s₁, hrun, h₁⟩ := bind_eq_ok_iff.mp h
    obtain ⟨-, rfl⟩ := stateless_eq_ok_iff.mp hrun
    rw [bind_of_ok pushErrorContext_run] at h₁
    obtain ⟨_, s₂, hrun, h₂⟩ := bind_eq_ok_iff.mp h₁
    obtain ⟨-, rfl⟩ := stateless_eq_ok_iff.mp hrun
    rw [popErrorContext_run] at h₂
    exact (Prod.mk.inj h₂).2.symm

theorem toFrame_eq_iff : s'.toFrame = s.toFrame ↔
    s'.errorContext = s.errorContext ∧ s'.user = s.user ∧ s'.snapshots = s.snapshots :=
  Frame.ext_iff

theorem DdlExecuted.frame_eq_iff
    (hexecuted : DdlExecuted server perpetrator commands txJustStarted s s') :
    s'.toFrame = s.toFrame ↔
      (server.endCount txJustStarted commands ≠ 0 → s.snapshots = []) ∧
      (commands ≠ [] → ¬(server.undoesOverride = true ∧
        server.endCount txJustStarted commands = 0) →
          server.role perpetrator = some s.user.userid) := by
  rw [toFrame_eq_iff, hexecuted.user, hexecuted.snapshots]
  constructor
  · rintro ⟨-, huser, hsnapshots⟩
    refine ⟨fun hends => ?_, huser⟩
    rw [if_neg hends] at hsnapshots
    exact hsnapshots.symm
  · rintro ⟨hsnapshots, huser⟩
    refine ⟨hexecuted.errorContext, huser, ?_⟩
    split_ifs with hends
    · rfl
    · exact (hsnapshots hends).symm

theorem DdlExecuted.commit (hexecuted : DdlExecuted server perpetrator commands txJustStarted s s₁)
    (h : commitNewTransaction s.topXid s₁ = (.ok (), s')) : s'.toFrame = s₁.toFrame := by
  rw [← (Prod.mk.inj h).2]
  split_ifs with hnew
  · have hends : server.endCount txJustStarted commands ≠ 0 := by
      have hcount := hexecuted.topXid
      omega
    have hnone : s₁.snapshots = [] := by rw [hexecuted.snapshots, if_neg hends]
    exact toFrame_eq_iff.mpr ⟨rfl, rfl, hnone.symm⟩
  · rfl

theorem queuedDdlKeeps_iff {b : Bool} {f : Frame υ} {cmdstr : D}
    (hperpetrator : row[2]?.join = some perpetrator) (hcmdstr : row[4]?.join = some cmdstr)
    (hparse : server.parseQuery cmdstr = .ok commands) :
    QueuedDdlKeeps server row b f ↔ (server.endCount b commands ≠ 0 → f.snapshots = []) ∧
      (commands ≠ [] → ¬(server.undoesOverride = true ∧ server.endCount b commands = 0) →
        server.role perpetrator = some f.user.userid) := by
  constructor
  · intro hkeeps
    exact hkeeps perpetrator cmdstr commands hperpetrator hcmdstr hparse
  · intro hkeeps perpetrator' cmdstr' commands' hperpetrator' hcmdstr' hparse'
    obtain rfl : perpetrator = perpetrator' := by
      rwa [hperpetrator, Option.some.injEq] at hperpetrator'
    obtain rfl : cmdstr = cmdstr' := by
      rwa [hcmdstr, Option.some.injEq] at hcmdstr'
    obtain rfl : commands = commands' := by
      rwa [hparse, Except.ok.injEq] at hparse'
    exact hkeeps

theorem processQueue_spec {cfg : Settings} {table : OpenTable υ D} {startedTx : Bool}
    (h : processQueue cfg server table startedTx row s = (.ok (), s')) :
    s'.errorContext = s.errorContext ∧ (s'.toFrame = s.toFrame ↔
      (cfg.skipDdlReplication = false → table.queue = some .ddlCommands →
        QueuedDdlKeeps server row startedTx s.toFrame)) := by
  unfold processQueue at h
  split_ifs at h with hskip
  · cases h
    exact ⟨rfl, fun _ hfalse => absurd hskip (by simp [hfalse]), fun _ => rfl⟩
  · cases hqueue : table.queue with
    | none =>
      rw [hqueue] at h
      cases h
      exact ⟨rfl, by simp⟩
    | some queue =>
      rw [hqueue] at h
      obtain ⟨before, s₁, hget, h₁⟩ := bind_eq_ok_iff.mp h
      cases hget
      obtain ⟨_, s₂, hrun, hcommit⟩ := bind_eq_ok_iff.mp h₁
      cases queue with
      | ddlCommands =>
        obtain ⟨perpetrator, cmdstr, commands, hperpetrator, hcmdstr, hparse, hexecuted⟩ :=
          processQueuedDdlCommand_executed hrun
        have hframe := hexecuted.commit hcommit
        refine ⟨(toFrame_eq_iff.mp hframe).1.trans hexecuted.errorContext, ?_⟩
        rw [hframe, hexecuted.frame_eq_iff]
        have hkeeps := queuedDdlKeeps_iff hperpetrator hcmdstr hparse
          (f := s.toFrame) (b := startedTx)
        simp only [hkeeps, forall_const, Bool.eq_false_of_not_eq_true hskip]
      | drops =>
        obtain rfl := processQueuedDrop_eq_ok hrun
        have hsame : s' = s₂ := by
          rw [← (Prod.mk.inj hcommit).2]
          exact if_neg (fun hne => hne rfl)
        subst hsame
        exact ⟨rfl, by simp⟩

end Queues

end Pgactive.ApplyFrame
