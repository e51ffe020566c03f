import Pgactive.Ddl.CommandFilter

/-!
# Nesting of commands

What the filter has done when it hands a command on, and what it takes back afterwards: it leaves
`pgactive_ddl_nestlevel` and `pgactive_in_extension` as it found them, whatever the command does
and however it ends. So a command sees the level of the commands around it.
-/

namespace Pgactive.Ddl

open FallibleState
open Pgactive.Locks (LockType)

variable {c : Call} {s s' entered : Session} {frame : Frame}

/-- The command is DDL that the filter replicates: it passes the checks, affects a permanent object
and is not executed by `pgactive_replicate_ddl_command`, which has queued its query. -/
def Call.Replicable (c : Call) (s : Session) : Prop :=
  (∃ lockType, c.route s = .ok (.filtered lockType)) ∧
    statementAffectsOnlyNonpermanent c.env c.stmt = .ok false ∧ s.inReplicateDdlCommand = false

theorem Call.filter_truncate (htruncate : c.stmt.isTruncate = true) (inReplicate : Bool)
    (lockType : LockType) : c.filter inReplicate ≠ .ok (.filtered lockType) := by
  have hstmt : c.stmt = .plain .truncate := by
    unfold Stmt.isTruncate at htruncate
    split at htruncate
    · assumption
    · cases htruncate
  intro h
  simp only [Call.filter, Call.lockType, hstmt, NodeTag.lockType, bind, Except.bind, pure,
    Except.pure] at h
  split_ifs at h
  · cases h
  · cases hread : c.checkReadOnly with
    | error e =>
      rw [hread] at h
      cases h
    | ok _ =>
      rw [hread] at h
      cases h

theorem Call.of_route_filtered {lockType : LockType} (h : c.route s = .ok (.filtered lockType)) :
    c.env.skipDdlReplication = false ∧ s.inExtension = false ∧ c.env.replaying = false ∧
      c.stmt.isTruncate = false := by
  unfold route at h
  cases hnid : checkNidGetter c.env c.stmt with
  | error e =>
    rw [hnid] at h
    cases h
  | ok isDone =>
    rw [hnid] at h
    simp only [bind, Except.bind, pure, Except.pure] at h
    split_ifs at h with hdone hskip hpm hsup hext hreplay
    -- the other branches end with another route
    all_goals try cases h
    rw [Bool.or_eq_true, not_or] at hext
    refine ⟨Bool.eq_false_iff.mpr hskip, Bool.eq_false_iff.mpr hext.2,
      Bool.eq_false_iff.mpr hreplay, ?_⟩
    exact Bool.eq_false_iff.mpr fun htruncate => filter_truncate htruncate _ _ h

/-- What the filter has done when it enters `PG_TRY`. -/
structure Entered (c : Call) (s : Session) (frame : Frame) (entered : Session) : Prop where
  /-- The level counts the captured commands. -/
  nestlevel :
    entered.ddlNestlevel = s.ddlNestlevel + if frame.incrementedNestlevel then 1 else 0
  /-- The frame knows who has set the flag. -/
  extension : entered.inExtension = (s.inExtension || frame.enteredExtension)
  unmarked : frame.enteredExtension = true → s.inExtension = false
  queued : entered.queuedCommands =
    s.queuedCommands ++ if frame.incrementedNestlevel then [c.row] else []
  captured : frame.incrementedNestlevel = true ↔ c.Replicable s ∧ s.ddlNestlevel = 0
  /-- A `TRUNCATE` starts a list of its own. -/
  tables : entered.truncatedTables = if c.stmt.isTruncate then [] else s.truncatedTables
  truncate : c.stmt.isTruncate = true → frame = ⟨false, false⟩

variable {env : Env}

theorem Env.queueDdlCommand_eq_ok {row : Row} (h : env.queueDdlCommand row s = .ok s') :
    s' = { s with queuedCommands := s.queuedCommands ++ [row] } := by
  unfold queueDdlCommand at h
  split at h
  · cases h
  · cases h
    rfl

theorem Env.finishTruncate_cases (h : env.finishTruncate s = .ok s') :
    (s.truncatedTables = [] ∧ s' = s) ∨
    (s.truncatedTables ≠ [] ∧ s' = { s with
      truncatedTables := []
      queuedCommands := s.queuedCommands ++ [env.truncateRow s.truncatedTables] }) := by
  unfold finishTruncate at h
  split_ifs at h with hempty
  · cases h
    exact .inl ⟨hempty, rfl⟩
  · obtain ⟨queued, hqueued, h⟩ := except_bind_eq_ok.mp h
    cases queueDdlCommand_eq_ok hqueued
    cases h
    exact .inr ⟨hempty, rfl⟩

theorem Call.capture_cases {lockType : LockType} {incremented : Bool}
    (hroute : c.route s = .ok (.filtered lockType))
    (h : c.capture lockType s = .ok (incremented, s')) :
    (incremented = true ∧ (c.Replicable s ∧ s.ddlNestlevel = 0) ∧
      s' = { s with
        ddlNestlevel := s.ddlNestlevel + 1, queuedCommands := s.queuedCommands ++ [c.row] }) ∨
    (incremented = false ∧ ¬(c.Replicable s ∧ s.ddlNestlevel = 0) ∧ s' = s) := by
  obtain ⟨hskip, hextension, hreplaying, -⟩ := of_route_filtered hroute
  obtain ⟨nonpermanent, hnon, h⟩ := except_bind_eq_ok.mp h
  obtain ⟨-, -, h⟩ := except_bind_eq_ok.mp h
  unfold captureOutermost at h
  simp only [hskip, hextension, Bool.not_false, Bool.and_true] at h
  split_ifs at h with houter
  · obtain ⟨captured, hcapture, h⟩ := except_bind_eq_ok.mp h
    simp only [Bool.and_eq_true, Bool.not_eq_true', decide_eq_true_eq] at houter
    obtain ⟨⟨rfl, hreplicate⟩, hlevel⟩ := houter
    have hqueue : c.captureDdl s = c.env.queueDdlCommand c.row s := by
      simp [captureDdl, hreplicate, hreplaying, hskip]
    cases Env.queueDdlCommand_eq_ok (hqueue.symm.trans hcapture)
    cases h
    exact .inl ⟨rfl, ⟨⟨⟨lockType, hroute⟩, hnon, hreplicate⟩, hlevel⟩, rfl⟩
  · cases h
    refine .inr ⟨rfl, ?_, rfl⟩
    rintro ⟨⟨-, hperm, hreplicate⟩, hlevel⟩
    cases hnon.symm.trans hperm
    simp only [hreplicate, hlevel, Bool.not_false, decide_true, Bool.and_self, not_true] at houter

theorem Call.mark_entered {incremented : Bool} {captured : Session}
    (hlevel : captured.ddlNestlevel = s.ddlNestlevel + if incremented then 1 else 0)
    (hextension : captured.inExtension = s.inExtension)
    (hqueued : captured.queuedCommands = s.queuedCommands ++ if incremented then [c.row] else [])
    (htables : captured.truncatedTables = s.truncatedTables)
    (houter : incremented = true ↔ c.Replicable s ∧ s.ddlNestlevel = 0) :
    Entered c s (c.mark incremented captured).1 (c.mark incremented captured).2 := by
  unfold mark
  split_ifs with htruncate hmark
  · have hnot : incremented = false := by
      rw [Bool.eq_false_iff]
      intro hincremented
      obtain ⟨⟨⟨lockType, hroute⟩, -⟩, -⟩ := houter.mp hincremented
      exact absurd htruncate (Bool.eq_false_iff.mp (of_route_filtered hroute).2.2.2)
    subst hnot
    exact ⟨hlevel, by simp [hextension], nofun, hqueued, houter, (if_pos htruncate).symm,
      fun _ => rfl⟩
  · rw [Bool.and_eq_true, Bool.not_eq_true', hextension] at hmark
    exact ⟨hlevel, by simp, fun _ => hmark.2, hqueued, houter,
      htables.trans (if_neg htruncate).symm, fun h => absurd h htruncate⟩
  · exact ⟨hlevel, by simp [hextension], nofun, hqueued, houter,
      htables.trans (if_neg htruncate).symm, fun h => absurd h htruncate⟩

theorem Call.entered_of_enter (h : c.enter s = .ok (some (frame, entered))) :
    Entered c s frame entered := by
  obtain ⟨route, hroute, h⟩ := except_bind_eq_ok.mp h
  cases route with
  | passOn => cases h
  | done =>
    have hnot : ¬(c.Replicable s ∧ s.ddlNestlevel = 0) := by
      rintro ⟨⟨⟨lockType, hfiltered⟩, -⟩, -⟩
      cases hroute.symm.trans hfiltered
    have hmark : Entered c s (c.mark false s).1 (c.mark false s).2 :=
      mark_entered (by simp) rfl (by simp) rfl (iff_of_false nofun hnot)
    simp only [pure, Except.pure, Except.ok.injEq, Option.some.injEq] at h
    rw [h] at hmark
    exact hmark
  | filtered lockType =>
    obtain ⟨⟨incremented, captured⟩, hcapture, h⟩ := except_bind_eq_ok.mp h
    have hmark : Entered c s (c.mark incremented captured).1 (c.mark incremented captured).2 := by
      obtain ⟨rfl, houter, rfl⟩ | ⟨rfl, houter, rfl⟩ := capture_cases hroute hcapture
      · exact mark_entered (by simp) rfl (by simp) rfl (iff_of_true rfl houter)
      · exact mark_entered (by simp) rfl (by simp) rfl (iff_of_false nofun houter)
    simp only [pure, Except.pure, Except.ok.injEq, Option.some.injEq] at h
    rw [h] at hmark
    exact hmark

def Guarded (level : ℤ) (extension : Bool) (s : Session) : Prop :=
  s.ddlNestlevel = level ∧ s.inExtension = extension

theorem Entered.leave (h : Entered c s frame entered) {after : Session}
    (hafter : Guarded entered.ddlNestlevel entered.inExtension after) :
    Guarded s.ddlNestlevel s.inExtension (frame.leave after) := by
  obtain ⟨hlevel, hextension⟩ := hafter
  constructor
  · simp only [Frame.leave]
    rw [hlevel, h.nestlevel]
    split <;> omega
  · simp only [Frame.leave]
    split_ifs with hentered
    · exact (h.unmarked hentered).symm
    · rw [hextension, h.extension, Bool.eq_false_iff.mpr hentered, Bool.or_false]

variable {level : ℤ} {extension : Bool}

theorem Call.keeps_finish (c : Call) : Keeps (Guarded level extension) c.finish := by
  refine Keeps.ite (Keeps.attempt fun s s' hs h => ?_) (Keeps.pure ())
  obtain ⟨-, rfl⟩ | ⟨-, rfl⟩ := Env.finishTruncate_cases h
  · exact hs
  · exact hs

theorem keeps_commandfilter {processUtility : Fallible FilterError Session Unit}
    (hprocess : ∀ level extension, Keeps (Guarded level extension) processUtility) :
    Keeps (Guarded level extension) (commandfilter c processUtility) := by
  rintro s ⟨rfl, rfl⟩
  unfold commandfilter
  rcases henter : c.enter s with e | _ | ⟨frame, entered⟩
  · exact ⟨rfl, rfl⟩
  · exact hprocess _ _ s ⟨rfl, rfl⟩
  · have hentered := Call.entered_of_enter henter
    cases htruncate : c.stmt.isTruncate with
    | true =>
      -- the end of a `TRUNCATE` may fail, but there is nothing to take back
      obtain rfl := hentered.truncate htruncate
      have hleave : ∀ after, Guarded s.ddlNestlevel s.inExtension after →
          Guarded s.ddlNestlevel s.inExtension (Frame.leave ⟨false, false⟩ after) :=
        fun _ hafter => hafter
      have hkeeps := Keeps.bind (Keeps.onError (hprocess s.ddlNestlevel s.inExtension) hleave)
        fun _ => Keeps.bind c.keeps_finish fun _ => Keeps.modify hleave
      refine hkeeps entered ⟨?_, ?_⟩
      · simpa using hentered.nestlevel
      · simpa using hentered.extension
    | false =>
      have hprocessed := hprocess _ _ entered ⟨rfl, rfl⟩
      rcases hrun : processUtility entered with ⟨e | _, after⟩
      · rw [hrun] at hprocessed
        dsimp only
        rw [bind_of_error (onError_of_error hrun)]
        exact hentered.leave hprocessed
      · rw [hrun] at hprocessed
        dsimp only
        rw [bind_of_ok (onError_eq_ok_iff.mpr hrun), Call.finish, htruncate]
        exact hentered.leave hprocessed

theorem keeps_replicateDdlCommand {query : String}
    {executeDdlCommand : Fallible FilterError Session Unit}
    (hexecute : Keeps (Guarded level extension) executeDdlCommand) :
    Keeps (Guarded level extension) (replicateDdlCommand env query executeDdlCommand) := by
  have hset : ∀ flag s, Guarded level extension s →
      Guarded level extension (s.setInReplicate flag) := fun _ _ hs => hs
  refine Keeps.ite (Keeps.throw _) (Keeps.bind (Keeps.modify (hset true)) fun _ => ?_)
  refine Keeps.bind (Keeps.onError (Keeps.bind ?_ fun _ => hexecute) (hset false)) fun _ =>
    Keeps.modify (hset false)
  refine Keeps.attempt fun s s' hs h => ?_
  rw [Env.queueDdlCommand_eq_ok h]
  exact hs

theorem Env.queueTruncate_eq (env : Env) (relid : Oid) (s : Session) :
    ∃ tables, env.queueTruncate relid s = { s with truncatedTables := tables } := by
  unfold queueTruncate
  split_ifs
  · exact ⟨_, rfl⟩
  · exact ⟨_, rfl⟩
  · exact ⟨_, rfl⟩
  · exact ⟨_, rfl⟩

theorem Work.keeps_run (w : Work) (level : ℤ) (extension : Bool) :
    Keeps (Guarded level extension) w.run := by
  induction w generalizing level extension with
  | done => exact Keeps.pure ()
  | raise message => exact Keeps.throw _
  | command c body next ihBody ihNext =>
    exact Keeps.bind (keeps_commandfilter ihBody) fun _ => ihNext level extension
  | truncateTrigger env relid next ihNext =>
    refine Keeps.bind (Keeps.modify fun s hs => ?_) fun _ => ihNext level extension
    obtain ⟨tables, htables⟩ := env.queueTruncate_eq relid s
    rw [htables]
    exact hs
  | subtransaction body next ihBody ihNext =>
    exact Keeps.bind (Keeps.caught (ihBody level extension) fun _ _ hs => hs) fun _ =>
      ihNext level extension
  | replicate env query body next ihBody ihNext =>
    exact Keeps.bind (keeps_replicateDdlCommand (ihBody level extension)) fun _ =>
      ihNext level extension

end Pgactive.Ddl
