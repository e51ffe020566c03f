import Pgactive.ApplyFrame.Queues

/-!
# What the handlers restore

A handler that returns has done to the table what `Pgactive.Apply` says, and has taken back what
it has pushed, with two exceptions: a delete without a key returns early and leaves its callback
on the error context stack, and queued DDL commands may leave another user behind.
-/

namespace Pgactive.ApplyFrame

open FallibleState

variable {υ κ ν D : Type}

def decidedRow (decision : Decision D) (remoteTuple : Row D) : Row D :=
  if decision.performUpdate then decision.newTuple.getD remoteTuple else remoteTuple

section Conditions

variable [DecidableEq D] [DecidableEq ν]

def queuedRow (ss : ApplySession ν) (handlers : Handlers D) (rel : Relation D)
    (new : List (ColumnData D)) (rows : List (StoredTuple ν D)) : Except ApplyError (Row D) := do
  let newTuple ← readTuple ss rel new
  match ← Pgactive.findConflict (heapFormTuple newTuple) rows none rel.indexes with
  | some (_, localTuple) =>
    let decision ← Pgactive.checkApplyUpdate ss handlers .insertInsert localTuple
      (heapFormTuple newTuple)
    return decidedRow decision (heapFormTuple newTuple)
  | none => return heapFormTuple newTuple

/-- The condition under which a handler that returns has kept the frame: the message is not a
delete without a key, and if it queues DDL commands, these keep it. -/
def KeepsFrame (cfg : Settings) (server : Server υ κ D) (ss : ApplySession ν)
    (handlers : Handlers D) (table : Option (OpenTable υ D)) (msg : ChangeMessage D)
    (rows : List (StoredTuple ν D)) (s : Backend υ) : Prop :=
  match msg with
  | .insert new => cfg.skipDdlReplication = false → ∀ t, table = some t →
      t.queue = some .ddlCommands → ∀ row, queuedRow ss handlers t.rel new rows = .ok row →
        QueuedDdlKeeps server row (!s.startedTransaction) s.toFrame
  | .update _ _ => True
  | .delete oldKey => oldKey ≠ none

end Conditions

section Handlers

variable [DecidableEq D] {s s' : Backend υ} {cfg : Settings} {server : Server υ κ D}
variable {ss : ApplySession ν} {handlers : Handlers D} {table : OpenTable υ D}
variable {rows : List (StoredTuple ν D)}

variable {found : Option (ℕ × StoredTuple ν D)}

theorem findPkeyTuple_eq_ok {ix : Index D} {key : List (Option D)}
    (h : findPkeyTuple server ix key rows s = (.ok found, s')) :
    found = ix.findPkeyTuple key rows ∧ s' = s := by
  unfold findPkeyTuple at h
  cases hfound : ix.findPkeyTuple key rows with
  | none =>
    rw [hfound] at h
    cases h
    exact ⟨rfl, rfl⟩
  | some tuple =>
    rw [hfound] at h
    obtain ⟨retries, s₁, hlock, hrest⟩ := bind_eq_ok_iff.mp h
    obtain ⟨-, rfl⟩ := stateless_eq_ok_iff.mp hlock
    rw [bind_of_ok (lockFound_run retries)] at hrest
    cases hrest
    exact ⟨rfl, rfl⟩

theorem findConflict_eq_ok {row : Row D} {conflictingTid : Option ℕ} {ixs : List (Index D)}
    (h : findConflict server row rows conflictingTid ixs s = (.ok found, s')) :
    Pgactive.findConflict row rows conflictingTid ixs = .ok found ∧ s' = s := by
  induction ixs generalizing s with
  | nil =>
    cases h
    exact ⟨rfl, rfl⟩
  | cons ix rest ih =>
    rw [findConflict] at h
    rw [Pgactive.findConflict]
    split_ifs at h ⊢ with hskip
    · exact ih h
    · obtain ⟨tuple, s₁, hfind, hrest⟩ := bind_eq_ok_iff.mp h
      obtain ⟨rfl, rfl⟩ := findPkeyTuple_eq_ok hfind
      cases hfound : ix.findPkeyTuple (ix.key row) rows with
      | none =>
        rw [hfound] at hrest
        exact ih hrest
      | some tuple =>
        rw [hfound] at hrest
        simp only at hrest ⊢
        split_ifs at hrest ⊢ with hmultiple
        · cases hrest
        · cases hrest
          exact ⟨rfl, rfl⟩

variable [DecidableEq ν]

variable {type : ConflictType} {localTuple : StoredTuple ν D} {remoteTuple : Row D}

omit [DecidableEq D] in
theorem checkApplyUpdate_eq_ok {decision : Decision D}
    (h : checkApplyUpdate ss handlers table type localTuple remoteTuple s = (.ok decision, s')) :
    Pgactive.checkApplyUpdate ss handlers type localTuple remoteTuple = .ok decision ∧ s' = s := by
  unfold checkApplyUpdate at h
  split_ifs at h
  · exact applied_eq_ok_iff.mp h
  · rw [bind_of_ok (getConflictHandlers_run table)] at h
    exact applied_eq_ok_iff.mp h

theorem resolveFound_eq_ok {tid : ℕ} {done : Done ν D}
    (h : resolveFound ss handlers table type tid localTuple remoteTuple rows s = (.ok done, s')) :
    Pgactive.resolveFound ss handlers table.rel type tid localTuple remoteTuple rows =
        .ok done.out ∧
      (∃ decision, Pgactive.checkApplyUpdate ss handlers type localTuple remoteTuple =
        .ok decision ∧ done.newslot = decidedRow decision remoteTuple) ∧ s' = s := by
  obtain ⟨decision, s₁, hrun, hrest⟩ := bind_eq_ok_iff.mp h
  obtain ⟨hcheck, rfl⟩ := checkApplyUpdate_eq_ok hrun
  have hout : ∀ out, (Pgactive.resolveFound ss handlers table.rel type tid localTuple remoteTuple
      rows = .ok out ↔ _) := fun out => by rw [Pgactive.resolveFound, except_bind_eq_ok]
  by_cases hperform : decision.performUpdate = true
  · simp only [if_pos hperform] at hrest
    obtain ⟨rows', s₂, hrun, hdone⟩ := bind_eq_ok_iff.mp hrest
    obtain ⟨hupdate, rfl⟩ := applied_eq_ok_iff.mp hrun
    cases hdone
    refine ⟨(hout _).mpr ⟨decision, hcheck, ?_⟩, ⟨decision, hcheck, ?_⟩, rfl⟩
    · simp only [if_pos hperform, except_bind_eq_ok]
      exact ⟨rows', hupdate, rfl⟩
    · simp [decidedRow, hperform]
  · simp only [if_neg hperform] at hrest
    cases hrest
    refine ⟨(hout _).mpr ⟨decision, hcheck, ?_⟩, ⟨decision, hcheck, ?_⟩, rfl⟩
    · simp only [if_neg hperform]
      rfl
    · simp [decidedRow, hperform]

end Handlers

section Main

variable [DecidableEq D] [DecidableEq ν] {s s' : Backend υ} {cfg : Settings}
variable {server : Server υ κ D} {ss : ApplySession ν} {handlers : Handlers D}
variable {table : Option (OpenTable υ D)} {rows : List (StoredTuple ν D)} {out : Applied ν D}

variable {t : OpenTable υ D} {oldKey : Option (List (ColumnData D))} {new : List (ColumnData D)}

variable {ix : Index D} {newTuple : List (TuplePart D)}

theorem updateOrResolve_eq_ok {oldTuple : Option (List (TuplePart D))}
    (hold : readOldTuple ss t.rel oldKey = .ok oldTuple)
    (hnew : readTuple ss t.rel new = .ok newTuple) (hix : t.rel.identityIndex = some ix)
    (h : updateOrResolve ss handlers t newTuple rows
      (ix.findPkeyTuple (ix.key (heapFormTuple (oldTuple.getD newTuple))) rows) s =
        (.ok out, s')) :
    Pgactive.processRemoteUpdate ss handlers t.rel oldKey new rows = .ok out ∧ s' = s := by
  simp only [Pgactive.processRemoteUpdate, hold, hnew, hix, bind, Except.bind]
  cases hfound : ix.findPkeyTuple (ix.key (heapFormTuple (oldTuple.getD newTuple))) rows with
  | some found =>
    rw [hfound] at h
    obtain ⟨done, s₁, hrun, hdone⟩ := bind_eq_ok_iff.mp h
    obtain ⟨hresolved, -, rfl⟩ := resolveFound_eq_ok hrun
    cases hdone
    exact ⟨hresolved, rfl⟩
  | none =>
    rw [hfound, updateOrResolve, bind_of_ok (getConflictHandlers_run t)] at h
    exact applied_eq_ok_iff.mp h

omit [DecidableEq ν] in
theorem deleteOrReport_eq_ok {cols : List (ColumnData D)} {oldTuple : List (TuplePart D)}
    (hold : readTuple ss t.rel cols = .ok oldTuple) (hix : t.rel.identityIndex = some ix)
    (h : deleteOrReport handlers t (heapFormTuple oldTuple) rows
      (ix.findPkeyTuple (ix.key (heapFormTuple oldTuple)) rows) s = (.ok out, s')) :
    Pgactive.processRemoteDelete ss handlers t.rel (some cols) rows = .ok out ∧ s' = s := by
  simp only [Pgactive.processRemoteDelete, hold, hix, bind, Except.bind]
  cases hfound : ix.findPkeyTuple (ix.key (heapFormTuple oldTuple)) rows with
  | some found =>
    rw [hfound] at h
    cases h
    exact ⟨rfl, rfl⟩
  | none =>
    rw [hfound, deleteOrReport, bind_of_ok (getConflictHandlers_run t)] at h
    exact applied_eq_ok_iff.mp h

theorem insertOrResolve_eq_ok {found : Option (ℕ × StoredTuple ν D)} {done : Done ν D}
    (hnew : readTuple ss t.rel new = .ok newTuple)
    (hfound : Pgactive.findConflict (heapFormTuple newTuple) rows none t.rel.indexes = .ok found)
    (h : insertOrResolve ss handlers t (heapFormTuple newTuple) rows found s = (.ok done, s')) :
    Pgactive.processRemoteInsert ss handlers t.rel new rows = .ok done.out ∧
      queuedRow ss handlers t.rel new rows = .ok done.newslot ∧ s' = s := by
  simp only [Pgactive.processRemoteInsert, queuedRow, hnew, hfound, bind, Except.bind]
  cases found with
  | some found =>
    obtain ⟨hresolved, ⟨decision, hcheck, hslot⟩, rfl⟩ := resolveFound_eq_ok h
    refine ⟨hresolved, ?_, rfl⟩
    simp only [hcheck, hslot]
    rfl
  | none =>
    obtain ⟨rows', s₁, hrun, hdone⟩ := bind_eq_ok_iff.mp h
    obtain ⟨hinsert, rfl⟩ := applied_eq_ok_iff.mp hrun
    cases hdone
    refine ⟨?_, rfl, rfl⟩
    simp only [hinsert]
    rfl

/-- The process while a handler changes a table. -/
abbrev Backend.inside (s : Backend υ) (cfg : Settings) (owner : υ) : Backend υ :=
  (s.working.withContext .actionError).switched cfg owner

omit [DecidableEq D] in
theorem prologue_eq_ok {α : Type}
    {body : List Callback → Bool → OpenTable υ D → UserContext υ → Handler υ α} {a : α}
    (h : (do
      let previous ← pushErrorContext .actionError
      let startedTx ← performingWork
      let t ← readRel table
      let ucxt ← switchToOwner cfg t.owner
      body previous startedTx t ucxt : Handler υ α) s = (.ok a, s')) :
    ∃ t, table = some t ∧ body s.working.errorContext (!s.startedTransaction) t
      (s.working.withContext .actionError).user (s.inside cfg t.owner) = (.ok a, s') := by
  rw [bind_of_ok pushErrorContext_run, bind_of_ok performingWork_run] at h
  obtain ⟨t, s₁, hrun, hrest⟩ := bind_eq_ok_iff.mp h
  obtain ⟨htable, rfl⟩ := readRel_eq_ok hrun
  rw [bind_of_ok switchToOwner_run] at hrest
  exact ⟨t, htable, hrest⟩

theorem processRemoteUpdate_eq_ok
    (h : processRemoteUpdate cfg server ss handlers table oldKey new rows s = (.ok out, s')) :
    s' = s.working ∧ ∃ t, table = some t ∧
      Pgactive.processRemoteUpdate ss handlers t.rel oldKey new rows = .ok out := by
  obtain ⟨t, htable, h₁⟩ := prologue_eq_ok h
  obtain ⟨oldTuple, s₂, hrun, h₂⟩ := bind_eq_ok_iff.mp h₁
  obtain ⟨hold, rfl⟩ := applied_eq_ok_iff.mp hrun
  obtain ⟨_, s₃, hrun, h₃⟩ := bind_eq_ok_iff.mp h₂
  obtain rfl := checkRelkind_eq_ok hrun
  obtain ⟨newTuple, s₄, hrun, h₄⟩ := bind_eq_ok_iff.mp h₃
  obtain ⟨hnew, rfl⟩ := applied_eq_ok_iff.mp hrun
  obtain ⟨ix, s₅, hrun, h₅⟩ := bind_eq_ok_iff.mp h₄
  obtain ⟨hix, rfl⟩ := identityIndex_eq_ok hrun
  rw [bind_of_ok pushActiveSnapshot_run] at h₅
  obtain ⟨found, s₆, hrun, h₆⟩ := bind_eq_ok_iff.mp h₅
  obtain ⟨rfl, rfl⟩ := findPkeyTuple_eq_ok hrun
  obtain ⟨out', s₇, hrun, h₇⟩ := bind_eq_ok_iff.mp h₆
  obtain ⟨hupdated, rfl⟩ := updateOrResolve_eq_ok hold hnew hix hrun
  rw [bind_of_ok popActiveSnapshot_run, bind_of_ok switchBack_run,
    bind_of_ok popErrorContext_run] at h₇
  cases h₇
  exact ⟨rfl, t, htable, hupdated⟩

omit [DecidableEq ν] in
theorem processRemoteDelete_eq_ok
    (h : processRemoteDelete cfg server ss handlers table oldKey rows s = (.ok out, s')) :
    s' = (if oldKey = none then s.working.withContext .actionError else s.working) ∧
      ∃ t, table = some t ∧
        Pgactive.processRemoteDelete ss handlers t.rel oldKey rows = .ok out := by
  obtain ⟨t, htable, h₁⟩ := prologue_eq_ok h
  cases oldKey with
  | none =>
    simp only at h₁
    rw [bind_of_ok switchBack_run] at h₁
    cases h₁
    exact ⟨rfl, t, htable, rfl⟩
  | some cols =>
    obtain ⟨oldTuple, s₂, hrun, h₂⟩ := bind_eq_ok_iff.mp h₁
    obtain ⟨hold, rfl⟩ := applied_eq_ok_iff.mp hrun
    obtain ⟨ix, s₃, hrun, h₃⟩ := bind_eq_ok_iff.mp h₂
    obtain ⟨hix, rfl⟩ := identityIndex_eq_ok hrun
    obtain ⟨_, s₄, hrun, h₄⟩ := bind_eq_ok_iff.mp h₃
    obtain rfl := checkRelkind_eq_ok hrun
    rw [bind_of_ok pushActiveSnapshot_run] at h₄
    obtain ⟨found, s₅, hrun, h₅⟩ := bind_eq_ok_iff.mp h₄
    obtain ⟨rfl, rfl⟩ := findPkeyTuple_eq_ok hrun
    obtain ⟨out', s₆, hrun, h₆⟩ := bind_eq_ok_iff.mp h₅
    obtain ⟨hdeleted, rfl⟩ := deleteOrReport_eq_ok hold hix hrun
    rw [bind_of_ok popActiveSnapshot_run, bind_of_ok switchBack_run,
      bind_of_ok popErrorContext_run] at h₆
    cases h₆
    exact ⟨rfl, t, htable, hdeleted⟩

theorem processRemoteInsert_eq_ok
    (h : processRemoteInsert cfg server ss handlers table new rows s = (.ok out, s')) :
    ∃ t row s₁, table = some t ∧
      Pgactive.processRemoteInsert ss handlers t.rel new rows = .ok out ∧
      queuedRow ss handlers t.rel new rows = .ok row ∧
      processQueue cfg server t (!s.startedTransaction) row
        (s.working.withContext .actionError) = (.ok (), s₁) ∧
      popErrorContext .actionError s.errorContext s₁ = (.ok (), s') := by
  obtain ⟨t, htable, h₁⟩ := prologue_eq_ok h
  obtain ⟨newTuple, s₂, hrun, h₂⟩ := bind_eq_ok_iff.mp h₁
  obtain ⟨hnew, rfl⟩ := applied_eq_ok_iff.mp hrun
  obtain ⟨_, s₃, hrun, h₃⟩ := bind_eq_ok_iff.mp h₂
  obtain rfl := checkRelkind_eq_ok hrun
  obtain ⟨found, s₄, hrun, h₄⟩ := bind_eq_ok_iff.mp h₃
  obtain ⟨hfound, rfl⟩ := findConflict_eq_ok hrun
  rw [bind_of_ok pushActiveSnapshot_run] at h₄
  obtain ⟨done, s₅, hrun, h₅⟩ := bind_eq_ok_iff.mp h₄
  obtain ⟨hinserted, hrow, rfl⟩ := insertOrResolve_eq_ok hnew hfound hrun
  rw [bind_of_ok popActiveSnapshot_run, bind_of_ok switchBack_run] at h₅
  obtain ⟨_, s₆, hqueue, h₆⟩ := bind_eq_ok_iff.mp h₅
  obtain ⟨_, s₇, hpop, h₇⟩ := bind_eq_ok_iff.mp h₆
  cases h₇
  exact ⟨t, done.newslot, s₆, htable, hinserted, hrow, hqueue, hpop⟩

theorem insert_frame_iff {s₁ : Backend υ} (hcontext : s₁.errorContext =
      (s.working.withContext .actionError).errorContext)
    (hpop : popErrorContext .actionError s.errorContext s₁ = (.ok (), s')) :
    s'.toFrame = s.toFrame ↔ s₁.toFrame = (s.working.withContext .actionError).toFrame := by
  have htop : s₁.errorContext = .actionError :: s.errorContext := hcontext
  rw [popErrorContext_of_top htop] at hpop
  obtain rfl := (Prod.mk.inj hpop).2
  rw [toFrame_eq_iff, toFrame_eq_iff]
  constructor
  · rintro ⟨-, huser, hsnapshots⟩
    exact ⟨hcontext, huser, hsnapshots⟩
  · rintro ⟨-, huser, hsnapshots⟩
    exact ⟨rfl, huser, hsnapshots⟩

/-- **The frame of the apply handlers.** A handler that returns leaves the error context stack,
the current user and the active snapshots as it found them, if and only if its message is not a
delete without a key, and queued DDL commands, if it executes any, leave them as they are. -/
theorem processRemoteChange_frame_iff {msg : ChangeMessage D}
    (h : processRemoteChange cfg server ss handlers table msg rows s = (.ok out, s')) :
    s'.toFrame = s.toFrame ↔ KeepsFrame cfg server ss handlers table msg rows s := by
  cases msg with
  | insert new =>
    obtain ⟨t, row, s₁, rfl, -, hrow, hqueue, hpop⟩ := processRemoteInsert_eq_ok h
    obtain ⟨hcontext, hframe⟩ := processQueue_spec hqueue
    rw [insert_frame_iff hcontext hpop, hframe]
    constructor
    · intro hkeeps hskip t' ht hddl row' hrow'
      obtain rfl := Option.some.inj ht
      obtain rfl := Except.ok.inj (hrow.symm.trans hrow')
      exact hkeeps hskip hddl
    · intro hkeeps hskip hddl
      exact hkeeps hskip t rfl hddl row hrow
  | update old new =>
    obtain ⟨rfl, -⟩ := processRemoteUpdate_eq_ok h
    exact ⟨fun _ => trivial, fun _ => rfl⟩
  | delete old =>
    obtain ⟨rfl, -⟩ := processRemoteDelete_eq_ok h
    cases old with
    | some cols => exact ⟨fun _ => Option.some_ne_none cols, fun _ => rfl⟩
    | none =>
      constructor
      · intro hsame
        have hcontext := (toFrame_eq_iff.mp hsame).1
        exact absurd hcontext (List.cons_ne_self _ _)
      · intro hkey
        exact absurd rfl hkey

end Main

def sampleServer : Server ℕ Unit ℕ where
  lockTuple := fun _ => .ok 1
  role := some
  parseQuery := fun _ => .ok [()]
  portalRun := fun _ isTopLevel => .ok isTopLevel
  undoesOverride := false
  objectAddresses := fun _ => .ok ()
  performMultipleDeletions := fun _ => .ok ()

def sampleTable : OpenTable ℕ ℕ where
  rel :=
    { desc := [⟨false, true, true, 4, 23, ⟨'b', 0, 2406⟩⟩]
      indexes := [⟨true, [0], []⟩]
      identity := some 0
      identity_plain := by simp }
  owner := 3
  ordinary := true
  handlersCached := false
  queue := none

/-- The apply worker of user 10, between two transactions. -/
def sampleBackend : Backend ℕ := ⟨⟨[], ⟨10, 0⟩, []⟩, false, 5⟩

/-- An insert that meets an older row of another node, with the owner of the table as user. -/
theorem processRemoteChange_frame_iff_conflict :
    processRemoteChange ⟨true, false⟩ sampleServer (⟨7, 9, 1, 2, false⟩ : ApplySession ℕ)
        noHandlers (some sampleTable) (.insert [.data .text 1]) [⟨[some 1], 5, some 8⟩]
        sampleBackend =
      (.ok ⟨[⟨[some 1], 9, some 7⟩], none⟩, sampleBackend.working) ∧
    sampleBackend.working.toFrame = sampleBackend.toFrame := by
  have hrun : processRemoteChange ⟨true, false⟩ sampleServer
      (⟨7, 9, 1, 2, false⟩ : ApplySession ℕ) noHandlers (some sampleTable)
      (.insert [.data .text 1]) [⟨[some 1], 5, some 8⟩] sampleBackend =
        (.ok ⟨[⟨[some 1], 9, some 7⟩], none⟩, sampleBackend.working) := by rfl
  refine ⟨hrun, (processRemoteChange_frame_iff hrun).mpr ?_⟩
  intro _ t ht hddl
  obtain rfl := Option.some.inj ht
  cases hddl

/-- A delete without a key returns with its callback on the stack. -/
theorem processRemoteChange_frame_emptyKey :
    processRemoteChange ⟨true, false⟩ sampleServer (⟨7, 9, 1, 2, false⟩ : ApplySession ℕ)
        noHandlers (some sampleTable) (.delete none) [] sampleBackend =
      (.ok ⟨[], none⟩, sampleBackend.working.withContext .actionError) ∧
    (sampleBackend.working.withContext .actionError).toFrame ≠ sampleBackend.toFrame :=
  ⟨rfl, by decide⟩

end Pgactive.ApplyFrame
