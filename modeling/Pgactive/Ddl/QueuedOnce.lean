import Pgactive.Ddl.Nesting

/-!
# What a captured command queues

DDL inside a captured command is not captured again, since the nesting level is not zero. But the
tables of a `TRUNCATE` and a query of `pgactive_replicate_ddl_command` are queued at any level.
-/

namespace Pgactive.Ddl

open FallibleState
open Pgactive.Locks (LockType)

variable {c : Call} {s s' entered : Session} {frame : Frame}

/-- The call uses no other way into the queue than to be captured: it does not end as a `TRUNCATE`
with tables in the list, and neither does a command inside it. `body` is what the command does, and
`bodyAvoidsQueue` says the same of it. -/
def Call.AvoidsQueue (c : Call) (body : Fallible FilterError Session Unit)
    (bodyAvoidsQueue : Session → Prop) (s : Session) : Prop :=
  match c.enter s with
  | .error _ => True
  | .ok none => bodyAvoidsQueue s
  | .ok (some (_, entered)) =>
    bodyAvoidsQueue entered ∧
      (c.stmt.isTruncate = true → (body entered).2.truncatedTables = [])

/-- The work, executed from the state `s`, does not use the other ways into the queue: no `TRUNCATE`
ends with tables in the list, and `pgactive_replicate_ddl_command` is not called. What a
subtransaction has done counts only if it is not rolled back. -/
def Work.AvoidsQueue : Work → Session → Prop
  | .done, _ => True
  | .raise _, _ => True
  | .command c body next, s =>
    c.AvoidsQueue body.run body.AvoidsQueue s ∧
      next.AvoidsQueue (commandfilter c body.run s).2
  | .truncateTrigger env relid next, s => next.AvoidsQueue (env.queueTruncate relid s)
  | .subtransaction body next, s =>
    ((body.run s).1 = .ok () → body.AvoidsQueue s) ∧
      next.AvoidsQueue (caught body.run Session.abort s).2
  | .replicate _ _ _ _, _ => False

def Adds (s s' : Session) (p : Prop) : Prop :=
  ∃ rows, s'.queuedCommands = s.queuedCommands ++ rows ∧ (rows = [] ↔ p)

variable {p : Prop}

theorem Adds.of_eq (h : s'.queuedCommands = s.queuedCommands) (hp : p) : Adds s s' p :=
  ⟨[], by rw [h, List.append_nil], iff_of_true rfl hp⟩

theorem Adds.trans {s₁ s₂ s₃ : Session} {q : Prop} (h₁ : Adds s₁ s₂ p) (h₂ : Adds s₂ s₃ q) :
    Adds s₁ s₃ (p ∧ q) := by
  obtain ⟨first, hfirst, hp⟩ := h₁
  obtain ⟨second, hsecond, hq⟩ := h₂
  refine ⟨first ++ second, ?_, ?_⟩
  · rw [hsecond, hfirst, List.append_assoc]
  · rw [List.append_eq_nil_iff, hp, hq]

theorem Adds.congr_left {t : Session} (h : Adds s s' p) (ht : s.queuedCommands = t.queuedCommands) :
    Adds t s' p := by
  obtain ⟨rows, hrows, hp⟩ := h
  exact ⟨rows, by rw [hrows, ht], hp⟩

theorem Adds.queue_eq_iff (h : Adds s s' p) : s'.queuedCommands = s.queuedCommands ↔ p := by
  obtain ⟨rows, hrows, hp⟩ := h
  rw [hrows, List.append_right_eq_self, hp]

theorem adds_after_enter {body : Fallible FilterError Session Unit}
    (henter : c.enter s = .ok (some (frame, entered)))
    (h : commandfilter c body s = (.ok (), s')) :
    ∃ after, body entered = (.ok (), after) ∧
      Adds after s' (c.stmt.isTruncate = true → after.truncatedTables = []) := by
  unfold commandfilter at h
  rw [henter] at h
  obtain ⟨⟨⟩, after, hbody, h⟩ := bind_eq_ok_iff.mp h
  obtain ⟨⟨⟩, finished, hfinish, h⟩ := bind_eq_ok_iff.mp h
  cases h
  refine ⟨after, onError_eq_ok_iff.mp hbody, ?_⟩
  unfold Call.finish at hfinish
  split_ifs at hfinish with htruncate
  · obtain ⟨hempty, rfl⟩ | ⟨htables, rfl⟩ := Env.finishTruncate_cases (attempt_eq_ok_iff.mp hfinish)
    · exact Adds.of_eq rfl fun _ => hempty
    · refine ⟨[c.env.truncateRow after.truncatedTables], ?_, ?_⟩
      · rfl
      · exact iff_of_false (List.cons_ne_nil _ _) fun hempty => htables (hempty htruncate)
  · cases hfinish
    exact Adds.of_eq rfl fun h => absurd h htruncate

/-- At a level above zero nothing is queued but in the other ways. -/
def Silent (body : Fallible FilterError Session Unit) (avoidsQueue : Session → Prop) : Prop :=
  ∀ ⦃s s'⦄, s.ddlNestlevel ≠ 0 → body s = (.ok (), s') → Adds s s' (avoidsQueue s)

variable {body : Fallible FilterError Session Unit} {bodyAvoidsQueue : Session → Prop}

section

variable (hbody : Silent body bodyAvoidsQueue)
include hbody

theorem Silent.adds_of_enter (henter : c.enter s = .ok (some (frame, entered)))
    (hlevel : entered.ddlNestlevel ≠ 0)
    (h : commandfilter c body s = (.ok (), s')) :
    Adds entered s' (c.AvoidsQueue body bodyAvoidsQueue s) := by
  obtain ⟨after, hafter, hfinish⟩ := adds_after_enter henter h
  unfold Call.AvoidsQueue
  rw [henter]
  dsimp only
  rw [hafter]
  exact (hbody hlevel hafter).trans hfinish

theorem Silent.commandfilter :
    Silent (commandfilter c body) (c.AvoidsQueue body bodyAvoidsQueue) := by
  intro s s' hs h
  rcases henter : c.enter s with e | _ | ⟨frame, entered⟩
  · unfold Ddl.commandfilter at h
    rw [henter] at h
    cases h
  · unfold Ddl.commandfilter at h
    unfold Call.AvoidsQueue
    rw [henter] at h ⊢
    exact hbody hs h
  · have hentered := Call.entered_of_enter henter
    have hnot : frame.incrementedNestlevel = false :=
      Bool.eq_false_iff.mpr fun hincremented => hs (hentered.captured.mp hincremented).2
    have hlevel : entered.ddlNestlevel ≠ 0 := by
      rw [hentered.nestlevel, hnot]
      simpa using hs
    have hqueued : entered.queuedCommands = s.queuedCommands := by
      rw [hentered.queued, hnot]
      simp
    exact (hbody.adds_of_enter henter hlevel h).congr_left hqueued

theorem Silent.replicateDdlCommand {env : Env} {query : String} :
    Silent (replicateDdlCommand env query body) fun _ => False := by
  intro s s' hs h
  unfold Ddl.replicateDdlCommand at h
  split_ifs at h
  · cases h
  · obtain ⟨⟨⟩, marked, hmarked, h⟩ := bind_eq_ok_iff.mp h
    cases hmarked
    obtain ⟨⟨⟩, after, hbracket, h⟩ := bind_eq_ok_iff.mp h
    cases h
    obtain ⟨⟨⟩, queued, hqueued, hafter⟩ := bind_eq_ok_iff.mp (onError_eq_ok_iff.mp hbracket)
    have heq := Env.queueDdlCommand_eq_ok (attempt_eq_ok_iff.mp hqueued)
    have hlevel : queued.ddlNestlevel ≠ 0 := by
      rw [heq]
      exact hs
    obtain ⟨rows, hrows, -⟩ := hbody hlevel hafter
    refine ⟨⟨.sql, query, ""⟩ :: rows, ?_, iff_of_false (List.cons_ne_nil _ _) id⟩
    rw [heq] at hrows
    exact hrows.trans (List.append_assoc _ _ _)

theorem Silent.caught :
    Silent (caught body Session.abort) fun s => (body s).1 = .ok () → bodyAvoidsQueue s := by
  intro s s' hs h
  unfold FallibleState.caught at h
  rcases hrun : body s with ⟨e | ⟨⟩, ended⟩
  · rw [hrun] at h
    cases h
    refine Adds.of_eq rfl fun hok => ?_
    rw [hrun] at hok
    cases hok
  · rw [hrun] at h
    cases h
    have hok : (body s).1 = .ok () := by rw [hrun]
    obtain ⟨rows, hrows, hnil⟩ := hbody hs hrun
    exact ⟨rows, hrows, hnil.trans ⟨fun havoids _ => havoids, fun havoids => havoids hok⟩⟩

theorem Silent.bind {next : Fallible FilterError Session Unit} {nextAvoidsQueue : Session → Prop}
    (hkeeps : ∀ level extension, Keeps (Guarded level extension) body)
    (hnext : Silent next nextAvoidsQueue) :
    Silent (body >>= fun _ => next) fun s =>
      bodyAvoidsQueue s ∧ nextAvoidsQueue (body s).2 := by
  intro s s' hs h
  obtain ⟨⟨⟩, after, hrun, h⟩ := bind_eq_ok_iff.mp h
  have hlevel := (hkeeps _ _ s ⟨rfl, rfl⟩).1
  rw [hrun] at hlevel
  dsimp only
  rw [hrun]
  exact (hbody hs hrun).trans (hnext (by rwa [hlevel]) h)

end

theorem Work.silent_run (w : Work) : Silent w.run w.AvoidsQueue := by
  induction w with
  | done =>
    rintro s s' hs ⟨⟩
    exact Adds.of_eq rfl trivial
  | raise message => exact nofun
  | command c body next ihBody ihNext =>
    exact ihBody.commandfilter.bind (fun _ _ => keeps_commandfilter body.keeps_run) ihNext
  | truncateTrigger env relid next ihNext =>
    intro s s' hs h
    obtain ⟨tables, htables⟩ := env.queueTruncate_eq relid s
    have hlevel : (env.queueTruncate relid s).ddlNestlevel ≠ 0 := by
      rw [htables]
      exact hs
    exact (ihNext hlevel h).congr_left (by rw [htables])
  | subtransaction body next ihBody ihNext =>
    exact ihBody.caught.bind
      (fun _ _ => Keeps.caught (body.keeps_run _ _) fun _ _ hs => hs) ihNext
  | replicate env query body next ihBody ihNext =>
    intro s s' hs h
    obtain ⟨rows, hrows, hnil⟩ := ihBody.replicateDdlCommand.bind
      (fun _ _ => keeps_replicateDdlCommand (body.keeps_run _ _)) ihNext hs h
    exact ⟨rows, hrows, hnil.trans (iff_of_false (fun havoids => havoids.1) id)⟩

/-- The command is queued once, and nothing inside it is. A call that ends with an error does not
count: what it has queued is rolled back with it. -/
def Call.QueuedOnce (c : Call) (body : Work) (s : Session) : Prop :=
  ∀ s', commandfilter c body.run s = (.ok (), s') →
    (c.Replicable s → s.ddlNestlevel = 0 → s'.queuedCommands = s.queuedCommands ++ [c.row]) ∧
      (s.ddlNestlevel ≠ 0 → s'.queuedCommands = s.queuedCommands)

theorem Call.enter_ne_none {lockType : LockType} (hroute : c.route s = .ok (.filtered lockType)) :
    c.enter s ≠ .ok none := by
  intro h
  obtain ⟨route, hroute', h⟩ := except_bind_eq_ok.mp h
  cases hroute.symm.trans hroute'
  obtain ⟨⟨incremented, captured⟩, -, h⟩ := except_bind_eq_ok.mp h
  cases h

variable {w : Work}

theorem Call.queue_of_outermost (hreplicable : c.Replicable s) (hs : s.ddlNestlevel = 0)
    (h : commandfilter c w.run s = (.ok (), s')) :
    s'.queuedCommands = s.queuedCommands ++ [c.row] ↔ c.AvoidsQueue w.run w.AvoidsQueue s := by
  obtain ⟨lockType, hroute⟩ := hreplicable.1
  rcases henter : c.enter s with e | _ | ⟨frame, entered⟩
  · unfold commandfilter at h
    rw [henter] at h
    cases h
  · exact absurd henter (enter_ne_none hroute)
  · have hentered := entered_of_enter henter
    have hcaptured := hentered.captured.mpr ⟨hreplicable, hs⟩
    have hlevel : entered.ddlNestlevel ≠ 0 := by
      rw [hentered.nestlevel, hcaptured, hs]
      decide
    have hqueued : entered.queuedCommands = s.queuedCommands ++ [c.row] := by
      rw [hentered.queued, hcaptured, if_pos rfl]
    rw [← hqueued]
    exact (w.silent_run.adds_of_enter henter hlevel h).queue_eq_iff

theorem Call.queuedOnce_iff :
    c.QueuedOnce w s ↔
      ((commandfilter c w.run s).1 = .ok () → c.Replicable s ∨ s.ddlNestlevel ≠ 0 →
        c.AvoidsQueue w.run w.AvoidsQueue s) := by
  constructor
  · intro hqueued hok hnested
    have h : commandfilter c w.run s = (.ok (), (commandfilter c w.run s).2) := Prod.ext hok rfl
    obtain ⟨houter, hinside⟩ := hqueued _ h
    by_cases hs : s.ddlNestlevel = 0
    · have hreplicable := hnested.resolve_right (not_not_intro hs)
      exact (queue_of_outermost hreplicable hs h).mp (houter hreplicable hs)
    · exact (w.silent_run.commandfilter hs h).queue_eq_iff.mp (hinside hs)
  · intro havoids s' h
    have hok : (commandfilter c w.run s).1 = .ok () := by rw [h]
    refine ⟨fun hreplicable hs => ?_, fun hs => ?_⟩
    · exact (queue_of_outermost hreplicable hs h).mpr (havoids hok (.inl hreplicable))
    · exact (w.silent_run.commandfilter hs h).queue_eq_iff.mpr (havoids hok (.inr hs))

/-- For every tree of utility commands, wherever an error is raised: the nesting level and the
extension flag are restored. A DDL command is queued once if it is the outermost one, and no command
inside it is, exactly if no `TRUNCATE` inside it ends with tables in the list and
`pgactive_replicate_ddl_command` is not called inside it. -/
theorem commandfilter_nesting (c : Call) (body : Work) (s : Session) :
    ((commandfilter c body.run s).2.ddlNestlevel = s.ddlNestlevel ∧
      (commandfilter c body.run s).2.inExtension = s.inExtension) ∧
    (c.QueuedOnce body s ↔
      ((commandfilter c body.run s).1 = .ok () → c.Replicable s ∨ s.ddlNestlevel ≠ 0 →
        c.AvoidsQueue body.run body.AvoidsQueue s)) :=
  ⟨keeps_commandfilter body.keeps_run s ⟨rfl, rfl⟩, Call.queuedOnce_iff⟩

def activeEnv : Env where
  skipDdlReplication := false
  permitsNidGetter := false
  isUnderPostmaster := true
  inSupervisorDb := false
  creatingExtension := false
  replaying := false
  activated := true
  localNodeReadOnly := false
  relid _ := none
  persistence _ := .permanent
  isIndex _ := false
  needsWal _ := true
  extensionOid _ := none
  tempNamespace := none
  searchPath := [2200]
  relnameRelid _ _ := none
  isSystemNamespace _ := false
  namespaceName _ := "public"
  quoteIdentifier := id
  qualifiedName _ := "public.settings"
  ddlLockError _ := none
  queueError := none

def createExtension : Call where
  env := activeEnv
  stmt := .createExtension "settings"
  tag := "CREATE EXTENSION"
  queryString := "CREATE EXTENSION settings"
  context := .toplevel

def extensionScript : Work :=
  let env := { activeEnv with creatingExtension := true }
  .command
    { env := env
      stmt := .plain .truncate
      tag := "TRUNCATE TABLE"
      queryString := "TRUNCATE settings"
      context := .query }
    (.truncateTrigger env 16400 .done) .done

/-- The `TRUNCATE` in the script is queued as well. -/
theorem truncate_queued_in_extension :
    ¬createExtension.QueuedOnce extensionScript Session.fresh := by
  intro h
  have hrun : commandfilter createExtension extensionScript.run Session.fresh =
      (.ok (), { Session.fresh with
        queuedCommands := [createExtension.row, activeEnv.truncateRow [16400]] }) := rfl
  have hrows := (h _ hrun).1 ⟨⟨.write, rfl⟩, rfl, rfl⟩ rfl
  have hlength := congrArg List.length hrows
  revert hlength
  decide

end Pgactive.Ddl
