import Pgactive.Ddl.Trace
import Mathlib.Data.List.TakeWhile

/-!
# Replication of `TRUNCATE`

A trigger adds each permanent table that is emptied to a list, and the filter queues the list at the
end of the statement. The loop that looks for an existing trigger stays at the first one of another
kind. And the list is one for the session: a `TRUNCATE` inside another one starts it again, so that
what was in it before is not queued.
-/

namespace Pgactive.Ddl

open FallibleState

/-! ### The trigger -/

/-- An entry of `trigdesc`. -/
structure Trigger where
  /-- `TRIGGER_FOR_TRUNCATE(tgtype)`. -/
  forTruncate : Bool
  tgfoid : Oid
deriving DecidableEq

/-- The loop over the triggers of a relation. The pointer `trigger` is what is left of the array,
and the other argument is the number of iterations left. -/
def findTruncateTrigger (funcoid : Oid) : ℕ → List Trigger → Bool
  | 0, _ => false
  | _ + 1, [] => false
  | iterations + 1, trigger :: triggers =>
    if !trigger.forTruncate then findTruncateTrigger funcoid iterations (trigger :: triggers)
    else if trigger.tgfoid = funcoid then true
    else findTruncateTrigger funcoid iterations triggers

/-- What the server does for the function. -/
structure TriggerServer where
  /-- `LookupFuncName` for `pgactive.pgactive_queue_truncate`. -/
  queueTruncate : Option Oid
  /-- The position of a new trigger among the others, in the order of their names. -/
  position : List Trigger → ℕ

def TriggerServer.lookupFuncName (server : TriggerServer) : Except FilterError Oid :=
  match server.queueTruncate with
  | some funcoid => .ok funcoid
  | none => .error (.server "function pgactive.pgactive_queue_truncate() does not exist")

def TriggerServer.createTrigger (server : TriggerServer) (triggers : List Trigger) :
    Except FilterError (List Trigger) := do
  let funcoid ← server.lookupFuncName
  let position := server.position triggers
  pure (triggers.take position ++ ⟨true, funcoid⟩ :: triggers.drop position)

/-- `pgactive_create_truncate_trigger`: the triggers of the relation with the new one, or `none` if
it returns without creating one. A relation without triggers has no `trigdesc`. -/
def createTruncateTrigger (server : TriggerServer) (triggers : List Trigger) :
    Except FilterError (Option (List Trigger)) := do
  if triggers = [] then pure (some (← server.createTrigger triggers))
  else
    let funcoid ← server.lookupFuncName
    if findTruncateTrigger funcoid triggers.length triggers then pure none
    else pure (some (← server.createTrigger triggers))

def TriggerServer.afterCalls (server : TriggerServer) : ℕ → List Trigger → List Trigger
  | 0, triggers => triggers
  | calls + 1, triggers =>
    match createTruncateTrigger server triggers with
    | .ok (some created) => server.afterCalls calls created
    | _ => server.afterCalls calls triggers

variable {server : TriggerServer} {triggers : List Trigger} {funcoid : Oid}

def TriggerServer.queues (server : TriggerServer) (trigger : Trigger) : Bool :=
  trigger.forTruncate && server.queueTruncate = some trigger.tgfoid

theorem findTruncateTrigger_of_other {trigger : Trigger} (h : trigger.forTruncate = false)
    (iterations : ℕ) : findTruncateTrigger funcoid iterations (trigger :: triggers) = false := by
  induction iterations with
  | zero => rfl
  | succ iterations ih =>
    rw [findTruncateTrigger, h]
    exact ih

theorem findTruncateTrigger_eq {iterations : ℕ} (h : triggers.length ≤ iterations) :
    findTruncateTrigger funcoid iterations triggers =
      (triggers.takeWhile Trigger.forTruncate).any fun trigger => trigger.tgfoid = funcoid := by
  induction triggers generalizing iterations with
  | nil => cases iterations <;> rfl
  | cons trigger triggers ih =>
    rw [List.length_cons] at h
    obtain ⟨iterations, rfl⟩ : ∃ n, iterations = n + 1 := ⟨iterations - 1, by omega⟩
    cases hkind : trigger.forTruncate with
    | false =>
      rw [findTruncateTrigger_of_other hkind, List.takeWhile_cons_of_neg (by simp [hkind])]
      rfl
    | true =>
      rw [findTruncateTrigger, hkind, ih (by omega), List.takeWhile_cons_of_pos hkind]
      by_cases hfuncoid : trigger.tgfoid = funcoid
      · simp [hfuncoid]
      · simp [hfuncoid]

def TriggerServer.visible (server : TriggerServer) (triggers : List Trigger) : Bool :=
  (triggers.takeWhile Trigger.forTruncate).any server.queues

theorem TriggerServer.lookupFuncName_eq_ok_iff :
    server.lookupFuncName = .ok funcoid ↔ server.queueTruncate = some funcoid := by
  unfold lookupFuncName
  cases server.queueTruncate <;> simp

theorem TriggerServer.queues_eq_true_iff {trigger : Trigger} :
    server.queues trigger = true ↔
      trigger.forTruncate = true ∧ server.queueTruncate = some trigger.tgfoid := by
  simp [queues]

theorem findTruncateTrigger_eq_visible (h : server.queueTruncate = some funcoid) :
    findTruncateTrigger funcoid triggers.length triggers = server.visible triggers := by
  rw [findTruncateTrigger_eq (Nat.le_refl _), Bool.eq_iff_iff, TriggerServer.visible,
    List.any_eq_true, List.any_eq_true]
  refine exists_congr fun trigger => and_congr_right fun hmem => ?_
  rw [TriggerServer.queues_eq_true_iff, h, decide_eq_true_eq, Option.some_inj]
  constructor
  · intro heq
    exact ⟨List.mem_takeWhile_imp hmem, heq.symm⟩
  · rintro ⟨-, heq⟩
    exact heq.symm

theorem createTruncateTrigger_eq (server : TriggerServer) (triggers : List Trigger) :
    createTruncateTrigger server triggers =
      if server.visible triggers then .ok none else some <$> server.createTrigger triggers := by
  unfold createTruncateTrigger
  by_cases hnil : triggers = []
  · subst hnil
    simp [TriggerServer.visible]
  · rw [if_neg hnil]
    cases hlookup : server.lookupFuncName with
    | error e =>
      have hnone : server.visible triggers = false := by
        refine Bool.eq_false_iff.mpr fun hvisible => ?_
        obtain ⟨trigger, -, hqueues⟩ := List.any_eq_true.mp hvisible
        have hfuncoid := (TriggerServer.queues_eq_true_iff.mp hqueues).2
        cases hlookup.symm.trans (TriggerServer.lookupFuncName_eq_ok_iff.mpr hfuncoid)
      rw [hnone, TriggerServer.createTrigger, hlookup]
      rfl
    | ok funcoid =>
      have hfind : findTruncateTrigger funcoid triggers.length triggers = server.visible triggers :=
        findTruncateTrigger_eq_visible (TriggerServer.lookupFuncName_eq_ok_iff.mp hlookup)
      change (if findTruncateTrigger funcoid triggers.length triggers = true then _ else _) = _
      rw [hfind]
      rfl

theorem TriggerServer.exists_createTrigger_iff :
    (∃ created, server.createTrigger triggers = .ok created) ↔
      server.queueTruncate.isSome = true := by
  unfold createTrigger lookupFuncName
  cases server.queueTruncate with
  | none => simp [bind, Except.bind]
  | some funcoid => simp [bind, Except.bind, pure, Except.pure]

variable {created : List Trigger}

theorem queues_new (h : server.lookupFuncName = .ok funcoid) :
    server.queues ⟨true, funcoid⟩ = true :=
  TriggerServer.queues_eq_true_iff.mpr ⟨rfl, TriggerServer.lookupFuncName_eq_ok_iff.mp h⟩

theorem countP_of_createTrigger (h : server.createTrigger triggers = .ok created) :
    created.countP server.queues = triggers.countP server.queues + 1 := by
  obtain ⟨funcoid, hfuncoid, h⟩ := except_bind_eq_ok.mp h
  cases h
  rw [List.countP_append, List.countP_cons_of_pos (queues_new hfuncoid), ← Nat.add_assoc,
    ← List.countP_append, List.take_append_drop]

theorem visible_of_createTrigger (h : server.createTrigger triggers = .ok created)
    (hnone : triggers.any server.queues = false) :
    server.visible created =
      (triggers.take (server.position triggers)).all Trigger.forTruncate := by
  obtain ⟨funcoid, hfuncoid, h⟩ := except_bind_eq_ok.mp h
  cases h
  unfold TriggerServer.visible
  cases hall : (triggers.take (server.position triggers)).all Trigger.forTruncate with
  | true =>
    rw [List.takeWhile_append_of_pos (List.all_eq_true.mp hall), List.takeWhile_cons_of_pos rfl,
      List.any_append, List.any_cons, queues_new hfuncoid]
    simp
  | false =>
    have hshort : ¬((triggers.take (server.position triggers)).takeWhile
        Trigger.forTruncate).length = (triggers.take (server.position triggers)).length := by
      intro hlength
      have hself := (List.takeWhile_prefix Trigger.forTruncate).eq_of_length hlength
      have htrue : (triggers.take (server.position triggers)).all Trigger.forTruncate = true :=
        List.all_eq_true.mpr fun trigger h => List.mem_takeWhile_imp (hself ▸ h)
      exact Bool.false_ne_true (hall.symm.trans htrue)
    rw [List.takeWhile_append, if_neg hshort, List.any_eq_false]
    intro trigger hmem
    have hmem' := List.mem_of_mem_take ((List.takeWhile_sublist _).mem hmem)
    exact List.any_eq_false.mp hnone trigger hmem'

theorem afterCalls_of_visible (h : server.visible triggers = true) (calls : ℕ) :
    server.afterCalls calls triggers = triggers := by
  induction calls with
  | zero => rfl
  | succ calls ih =>
    rw [TriggerServer.afterCalls, createTruncateTrigger_eq, if_pos h]
    exact ih

/-- The function returns without creating a trigger exactly if there is one that queues, and
repeated calls do not create a second one. -/
def TriggerServer.CreatesOnce (server : TriggerServer) (triggers : List Trigger) : Prop :=
  (createTruncateTrigger server triggers = .ok none ↔ triggers.any server.queues = true) ∧
    ∀ calls, (server.afterCalls calls triggers).countP server.queues ≤
      max 1 (triggers.countP server.queues)

theorem TriggerServer.createsOnce_of_visible (h : server.visible triggers = true) :
    server.CreatesOnce triggers := by
  have hany : triggers.any server.queues = true := by
    obtain ⟨trigger, hmem, hqueues⟩ := List.any_eq_true.mp h
    exact List.any_eq_true.mpr ⟨trigger, (List.takeWhile_sublist _).mem hmem, hqueues⟩
  refine ⟨?_, fun calls => ?_⟩
  · rw [createTruncateTrigger_eq, if_pos h]
    exact iff_of_true rfl hany
  · rw [afterCalls_of_visible h]
    exact Nat.le_max_right _ _

theorem TriggerServer.visible_eq_false (hnone : triggers.any server.queues = false) :
    server.visible triggers = false :=
  List.any_eq_false.mpr fun trigger hmem =>
    List.any_eq_false.mp hnone trigger ((List.takeWhile_sublist _).mem hmem)

theorem afterCalls_of_createTrigger (h : server.visible triggers = false)
    (hcreate : server.createTrigger triggers = .ok created) (calls : ℕ) :
    server.afterCalls (calls + 1) triggers = server.afterCalls calls created := by
  rw [TriggerServer.afterCalls, createTruncateTrigger_eq, h, if_neg Bool.false_ne_true, hcreate]
  rfl

theorem TriggerServer.createsOnce_iff_of_createTrigger (hnone : triggers.any server.queues = false)
    (hcreate : server.createTrigger triggers = .ok created) :
    server.CreatesOnce triggers ↔ server.visible created = true := by
  have hvisible := visible_eq_false hnone
  have hzero : triggers.countP server.queues = 0 :=
    List.countP_eq_zero.mpr (List.any_eq_false.mp hnone)
  have hcount := countP_of_createTrigger hcreate
  constructor
  · rintro ⟨-, hcalls⟩
    by_contra hnot
    obtain ⟨second, hsecond⟩ : ∃ second, server.createTrigger created = .ok second :=
      exists_createTrigger_iff.mpr
        (exists_createTrigger_iff.mp ⟨created, hcreate⟩)
    have htwo := hcalls 2
    rw [afterCalls_of_createTrigger hvisible hcreate,
      afterCalls_of_createTrigger (Bool.eq_false_iff.mpr hnot) hsecond, afterCalls,
      countP_of_createTrigger hsecond, hcount, hzero] at htwo
    exact absurd htwo (by decide)
  · intro hcreated
    refine ⟨?_, fun calls => ?_⟩
    · rw [createTruncateTrigger_eq, hvisible, if_neg Bool.false_ne_true, hcreate, hnone]
      refine iff_of_false (fun h => ?_) Bool.false_ne_true
      cases h
    · cases calls with
      | zero => exact Nat.le_max_right _ _
      | succ calls =>
        rw [afterCalls_of_createTrigger hvisible hcreate, afterCalls_of_visible hcreated, hcount,
          hzero]
        decide

theorem TriggerServer.createsOnce_of_missing (h : server.queueTruncate = none) :
    server.CreatesOnce triggers := by
  have hnone : triggers.any server.queues = false := by
    simp [queues, h]
  have hfails : ∃ e, createTruncateTrigger server triggers = .error e := by
    rw [createTruncateTrigger_eq, visible_eq_false hnone,
      if_neg Bool.false_ne_true]
    cases hcreate : server.createTrigger triggers with
    | error e => exact ⟨e, rfl⟩
    | ok created =>
      have hsome := exists_createTrigger_iff.mp ⟨created, hcreate⟩
      rw [h] at hsome
      cases hsome
  obtain ⟨e, hfails⟩ := hfails
  have hcalls : ∀ calls, server.afterCalls calls triggers = triggers := by
    intro calls
    induction calls with
    | zero => rfl
    | succ calls ih =>
      rw [afterCalls, hfails]
      exact ih
  refine ⟨?_, fun calls => ?_⟩
  · rw [hfails, hnone]
    refine iff_of_false (fun h => ?_) Bool.false_ne_true
    cases h
  · rw [hcalls]
    exact Nat.le_max_right _ _

/-- For every relation: `pgactive_create_truncate_trigger` creates no trigger exactly if there is
one that queues, and repeated calls do not create a second one, exactly if no trigger of another
kind stands before all of those; before the new one if there is none yet. -/
theorem createTruncateTrigger_once (server : TriggerServer) (triggers : List Trigger) :
    server.CreatesOnce triggers ↔
      if triggers.any server.queues then server.visible triggers = true
      else server.queueTruncate.isSome = true →
        (triggers.take (server.position triggers)).all Trigger.forTruncate = true := by
  cases hany : triggers.any server.queues with
  | true =>
    rw [if_pos rfl]
    refine ⟨fun honce => ?_, TriggerServer.createsOnce_of_visible⟩
    have hreturns := honce.1.mpr hany
    rw [createTruncateTrigger_eq] at hreturns
    by_contra hnot
    rw [if_neg hnot] at hreturns
    cases hcreate : server.createTrigger triggers <;> rw [hcreate] at hreturns <;> cases hreturns
  | false =>
    cases hfuncoid : server.queueTruncate with
    | none => exact iff_of_true (TriggerServer.createsOnce_of_missing hfuncoid) (by simp)
    | some funcoid =>
      obtain ⟨created, hcreate⟩ : ∃ created, server.createTrigger triggers = .ok created :=
        TriggerServer.exists_createTrigger_iff.mpr (by rw [hfuncoid]; rfl)
      rw [TriggerServer.createsOnce_iff_of_createTrigger hany hcreate,
        visible_of_createTrigger hcreate hany]
      simp

/-- With a trigger for `INSERT` in front of it the truncate trigger is not found, and each call
creates another one. -/
theorem createTruncateTrigger_behind_insert :
    createTruncateTrigger ⟨some 16384, List.length⟩ [⟨false, 16500⟩, ⟨true, 16384⟩] =
      .ok (some [⟨false, 16500⟩, ⟨true, 16384⟩, ⟨true, 16384⟩]) ∧
    ¬TriggerServer.CreatesOnce ⟨some 16384, List.length⟩ [⟨false, 16500⟩, ⟨true, 16384⟩] := by
  refine ⟨rfl, fun honce => ?_⟩
  have hreturns := honce.1.mpr rfl
  cases hreturns

/-! ### The list of tables -/

/-- The list of the session and the lists that have been queued, each with the server state that it
was written in. -/
structure Truncation where
  tables : List Oid
  queued : List (Env × List Oid)

def Truncation.step (t : Truncation) (e : Event) : Truncation :=
  match e.action with
  | .startTruncate => { t with tables := [] }
  | .queueTruncate env relid before =>
    let after := env.queueTruncate relid { before with truncatedTables := t.tables }
    { t with tables := after.truncatedTables }
  | .finishTruncate env =>
    if t.tables = [] then t else { tables := [], queued := t.queued ++ [(env, t.tables)] }
  | .command _ _ | .replicateDdlCommand _ _ _ => t

/-- The rows that `pgactive_finish_truncate` has queued. -/
def Session.truncateRows (s : Session) : List Row :=
  s.queuedCommands.filter fun row => row.commandTag = .truncate

def rowOf (queued : Env × List Oid) : Row := queued.1.truncateRow queued.2

def Truncation.Shows (start : List Row) (t : Truncation) (s : Session) : Prop :=
  s.truncatedTables = t.tables ∧ s.truncateRows = start ++ t.queued.map rowOf

def Event.IsTruncation (e : Event) : Prop :=
  match e.action with
  | .startTruncate | .queueTruncate _ _ _ | .finishTruncate _ => True
  | .command _ _ | .replicateDdlCommand _ _ _ => False

/-- No part of a `TRUNCATE` is rolled back. -/
def Lasting (events : List Event) : Prop := ∀ e ∈ events, e.IsTruncation → e.lasting = true

variable {t : Truncation} {start : List Row} {s s' entered : Session} {c : Call} {frame : Frame}
  {body next : Fallible FilterError Session Unit} {inside : Bool} {env : Env} {query : String}
  {bodyTrace nextTrace : Bool → Session → List Event}

theorem Truncation.step_of_not_isTruncation {e : Event} (h : ¬e.IsTruncation) : t.step e = t := by
  obtain ⟨inside, lasting, action⟩ := e
  cases action with
  | command c before => rfl
  | replicateDdlCommand env before after => rfl
  | startTruncate => exact absurd trivial h
  | queueTruncate env relid before => exact absurd trivial h
  | finishTruncate env => exact absurd trivial h

theorem Truncation.foldl_step_of_not_isTruncation {events : List Event}
    (h : ∀ e ∈ events, ¬e.IsTruncation) : events.foldl step t = t := by
  induction events with
  | nil => rfl
  | cons e events ih =>
    rw [List.forall_mem_cons] at h
    rw [List.foldl_cons, step_of_not_isTruncation h.1, ih h.2]

theorem Truncation.Shows.congr (h : t.Shows start s)
    (htables : s'.truncatedTables = s.truncatedTables) (hrows : s'.truncateRows = s.truncateRows) :
    t.Shows start s' :=
  ⟨htables.trans h.1, hrows.trans h.2⟩

theorem truncateRows_append {rows : List Row}
    (hqueued : s'.queuedCommands = s.queuedCommands ++ rows)
    (hrows : ∀ row ∈ rows, row.commandTag ≠ .truncate) : s'.truncateRows = s.truncateRows := by
  have hnone : rows.filter (fun row => row.commandTag = .truncate) = [] := by
    simpa using hrows
  unfold Session.truncateRows
  rw [hqueued, List.filter_append, hnone, List.append_nil]

def Follows (body : Fallible FilterError Session Unit) (trace : Bool → Session → List Event) :
    Prop :=
  ∀ ⦃start t inside s⦄, Truncation.Shows start t s → Lasting (trace inside s) →
    ((trace inside s).foldl Truncation.step t).Shows start (body s).2

theorem Follows.bind (hbody : Follows body bodyTrace) (hnext : Follows next nextTrace) :
    Follows (body >>= fun _ => next) fun inside s =>
      bodyTrace inside s ++ traceNext (body s) (nextTrace inside) := by
  intro start t inside s hs hlasting
  have hlast := List.forall_mem_append.mp hlasting
  have hafter := hbody hs hlast.1
  rw [List.foldl_append]
  rcases hrun : body s with ⟨e | ⟨⟩, after⟩
  · rw [hrun] at hafter
    rw [bind_of_error hrun]
    exact hafter
  · rw [hrun] at hafter hlast
    rw [bind_of_ok hrun]
    exact hnext hafter hlast.2

theorem Follows.caught (hbody : Follows body bodyTrace) :
    Follows (caught body Session.abort) fun inside s =>
      traceSubtransaction (body s).1 (bodyTrace inside s) := by
  intro start t inside s hs hlasting
  unfold FallibleState.caught
  dsimp only at hlasting ⊢
  rcases hrun : body s with ⟨failure | ⟨⟩, after⟩
  · rw [hrun] at hlasting
    have hnot : ∀ e ∈ bodyTrace inside s, ¬e.IsTruncation := by
      intro e he htruncation
      exact Bool.false_ne_true (hlasting _ (List.mem_map_of_mem he) htruncation)
    have hafter := hbody hs fun e he htruncation => absurd htruncation (hnot e he)
    rw [Truncation.foldl_step_of_not_isTruncation hnot, hrun] at hafter
    have hmarked : ∀ e ∈ traceSubtransaction (.error failure) (bodyTrace inside s),
        ¬e.IsTruncation :=
      (forall_traceSubtransaction fun _ => Iff.rfl).mpr hnot
    rw [Truncation.foldl_step_of_not_isTruncation hmarked]
    exact ⟨hafter.1, hs.2⟩
  · rw [hrun] at hlasting
    have hafter := hbody hs hlasting
    rw [hrun] at hafter
    exact hafter

theorem Truncation.Shows.enter (hs : t.Shows start s) (inside : Bool)
    (henter : c.enter s = .ok (some (frame, entered))) :
    ((if c.stmt.isTruncate then [⟨inside, true, .startTruncate⟩] else [] : List Event).foldl
      step t).Shows start entered := by
  have hentered := Call.entered_of_enter henter
  have hrows : entered.truncateRows = s.truncateRows := by
    refine truncateRows_append hentered.queued ?_
    split_ifs
    · simp [Call.row]
    · simp
  have htables := hentered.tables
  split_ifs with htruncate
  · rw [if_pos htruncate] at htables
    exact ⟨htables, hrows.trans hs.2⟩
  · rw [if_neg htruncate] at htables
    exact hs.congr htables hrows

variable {after : Session}

theorem Truncation.Shows.finishTruncate (hs : t.Shows start s) (inside : Bool)
    (h : env.finishTruncate s = .ok after) :
    (t.step ⟨inside, true, .finishTruncate env⟩).Shows start after := by
  unfold step
  obtain ⟨hempty, rfl⟩ | ⟨hne, rfl⟩ := Env.finishTruncate_cases h
  · rw [hs.1] at hempty
    dsimp only
    rw [if_pos hempty]
    exact hs
  · obtain ⟨htables, hrows⟩ := hs
    rw [htables] at hne
    dsimp only
    rw [if_neg hne]
    refine ⟨rfl, ?_⟩
    have hrow : (env.truncateRow s.truncatedTables).commandTag = .truncate := rfl
    unfold Session.truncateRows at hrows ⊢
    rw [List.filter_append, hrows, List.filter_cons_of_pos (by simpa using hrow), htables]
    simp [rowOf]

theorem Truncation.Shows.finish (hafter : t.Shows start after) (c : Call) (inside : Bool) :
    ((c.traceFinish inside (.ok (), after)).foldl step t).Shows start
      (c.finish after).2 := by
  unfold Call.traceFinish Call.finish
  split_ifs with htruncate
  · simp only [traceNext, attempt]
    cases hfinish : c.env.finishTruncate after with
    | error e => exact hafter
    | ok finished => exact hafter.finishTruncate inside hfinish
  · exact hafter

theorem Call.traceFinish_of_error (c : Call) (inside : Bool) (e : FilterError) (after : Session) :
    c.traceFinish inside (.error e, after) = [] := by
  exact ite_self []

theorem Truncation.Shows.leave {ended : Except FilterError Unit} (hafter : t.Shows start after)
    (hrun : body entered = (ended, after)) :
    ((c.traceFinish inside (ended, after)).foldl step t).Shows start
      ((do onError body frame.leave; c.finish; modify frame.leave :
        Fallible FilterError Session Unit) entered).2 := by
  cases ended with
  | error e =>
    rw [bind_of_error (onError_of_error hrun), Call.traceFinish_of_error]
    exact hafter
  | ok a =>
    rw [bind_of_ok (onError_eq_ok_iff.mpr hrun)]
    have hfinish := hafter.finish c inside
    rcases hrest : c.finish after with ⟨e | ⟨⟩, finished⟩
    · rw [hrest] at hfinish
      rw [bind_of_error hrest]
      exact hfinish
    · rw [hrest] at hfinish
      rw [bind_of_ok hrest]
      exact hfinish

theorem Follows.commandfilter (hbody : Follows body bodyTrace) :
    Follows (commandfilter c body) fun inside => c.trace inside body (bodyTrace inside) := by
  intro start t inside s hs hlasting
  unfold Ddl.commandfilter
  dsimp only [Call.trace] at hlasting ⊢
  rcases henter : c.enter s with e | _ | ⟨frame, entered⟩
  · exact hs
  · rw [henter] at hlasting
    exact hbody hs (List.forall_mem_cons.mp hlasting).2
  · rw [henter] at hlasting
    have hlast := List.forall_mem_append.mp
      (List.forall_mem_append.mp (List.forall_mem_cons.mp hlasting).2).1
    have hafter := hbody (hs.enter inside henter) hlast.2
    rw [List.foldl_cons, Truncation.step_of_not_isTruncation id, List.foldl_append,
      List.foldl_append]
    rcases hrun : body entered with ⟨ended, after⟩
    rw [hrun] at hafter
    exact hafter.leave hrun

theorem Follows.replicateDdlCommand (hbody : Follows body bodyTrace) :
    Follows (replicateDdlCommand env query body) fun inside =>
      traceReplicate env query inside body (bodyTrace true) := by
  intro start t inside s hs hlasting
  dsimp only [traceReplicate] at hlasting ⊢
  rw [replicateDdlCommand_snd, List.foldl_append, List.foldl_cons, List.foldl_nil,
    Truncation.step_of_not_isTruncation id]
  have hlast := (List.forall_mem_append.mp hlasting).1
  cases hstart : startQuery env query s with
  | error e =>
    split_ifs
    · exact hs
    · exact hs
  | ok started =>
    rw [hstart] at hlast
    unfold startQuery at hstart
    split_ifs at hstart
    have hqueued := Env.queueDdlCommand_eq_ok hstart
    have hrows : started.truncateRows = s.truncateRows := by
      rw [hqueued]
      exact truncateRows_append rfl (by simp)
    have htables : started.truncatedTables = s.truncatedTables := by
      rw [hqueued]
      rfl
    exact hbody (hs.congr htables hrows) hlast

theorem Work.follows_run (w : Work) : Follows w.run w.trace := by
  induction w with
  | done => exact fun _ _ _ _ hs _ => hs
  | raise message => exact fun _ _ _ _ hs _ => hs
  | command c body next ihBody ihNext => exact ihBody.commandfilter.bind ihNext
  | truncateTrigger env relid next ihNext =>
    intro start t inside s hs hlasting
    obtain ⟨tables, htables⟩ := env.queueTruncate_eq relid s
    refine ihNext ?_ (List.forall_mem_cons.mp hlasting).2
    have hbefore : { s with truncatedTables := t.tables } = s := by rw [← hs.1]
    refine ⟨?_, ?_⟩
    · simp only [Truncation.step, hbefore]
    · rw [htables]
      exact hs.2
  | subtransaction body next ihBody ihNext => exact ihBody.caught.bind ihNext
  | replicate env query body next ihBody ihNext => exact ihBody.replicateDdlCommand.bind ihNext

/-! ### Where a table is queued -/

def Event.Records (e : Event) (relid : Oid) : Prop :=
  match e.action with
  | .queueTruncate env fired before =>
    fired = relid ∧ before.inReplicateDdlCommand = false ∧ env.replaying = false
  | _ => False

def Event.IsBoundary (e : Event) : Prop :=
  match e.action with
  | .startTruncate | .finishTruncate _ => True
  | _ => False

def Event.Enabled (e : Event) : Prop :=
  match e.action with
  | .command c _ => c.env.skipDdlReplication = false
  | .queueTruncate env _ _ => env.skipDdlReplication = false
  | _ => True

/-- The table has been added to the list, and no `TRUNCATE` has started or ended since. -/
def Pending (events : List Event) (relid : Oid) : Prop :=
  ∃ before e after, events = before ++ e :: after ∧ e.Records relid ∧
    ∀ later ∈ after, ¬later.IsBoundary

def Event.IsFinish (e : Event) : Prop :=
  match e.action with
  | .finishTruncate _ => True
  | _ => False

/-- A `TRUNCATE` ends at this position, and the table is pending there. -/
def SentAt (events : List Event) (relid : Oid) (j : ℕ) : Prop :=
  (∃ e, events[j]? = some e ∧ e.IsFinish) ∧ Pending (events.take j) relid

def queuedLists (events : List Event) : List (Env × List Oid) :=
  (events.foldl Truncation.step ⟨[], []⟩).queued

variable {relid : Oid} {events : List Event} {e : Event}

theorem pending_concat_iff :
    Pending (events ++ [e]) relid ↔ e.Records relid ∨ (Pending events relid ∧ ¬e.IsBoundary) := by
  constructor
  · rintro ⟨before, fired, after, heq, hfired, hafter⟩
    rcases List.eq_nil_or_concat after with rfl | ⟨after, last, rfl⟩
    · obtain ⟨-, hlast⟩ := List.append_inj' heq rfl
      cases hlast
      exact .inl hfired
    · rw [List.concat_eq_append, ← List.cons_append, ← List.append_assoc] at heq
      obtain ⟨hevents, hlast⟩ := List.append_inj' heq rfl
      cases hlast
      simp only [List.concat_eq_append, List.forall_mem_append, List.forall_mem_singleton] at hafter
      exact .inr ⟨⟨before, fired, after, hevents, hfired, hafter.1⟩, hafter.2⟩
  · rintro (he | ⟨⟨before, fired, after, rfl, hfired, hafter⟩, he⟩)
    · exact ⟨events, e, [], rfl, he, by simp⟩
    · refine ⟨before, fired, after ++ [e], by simp, hfired, ?_⟩
      exact List.forall_mem_append.mpr ⟨hafter, List.forall_mem_singleton.mpr he⟩

theorem mem_tables_step (he : e.Enabled) :
    relid ∈ (t.step e).tables ↔ e.Records relid ∨ (relid ∈ t.tables ∧ ¬e.IsBoundary) := by
  obtain ⟨inside, lasting, action⟩ := e
  cases action with
  | command c before => simp [Truncation.step, Event.Records, Event.IsBoundary]
  | replicateDdlCommand env before after =>
    simp [Truncation.step, Event.Records, Event.IsBoundary]
  | startTruncate => simp [Truncation.step, Event.Records, Event.IsBoundary]
  | queueTruncate env fired before =>
    have hskip : env.skipDdlReplication = false := he
    simp only [Truncation.step, Event.Records, Event.IsBoundary, Env.queueTruncate, hskip,
      Bool.false_and, Bool.false_eq_true, if_false, not_false_eq_true, and_true]
    split_ifs with hinside hreplaying
    · simp [hinside]
    · simp [hreplaying]
    · simp [hinside, hreplaying, or_comm, eq_comm]
  | finishTruncate env =>
    simp only [Truncation.step, Event.Records, Event.IsBoundary]
    split_ifs with hempty
    · simp [hempty]
    · simp

theorem countP_queued_step_of_finish (h : e.IsFinish) :
    (t.step e).queued.countP (fun queued => relid ∈ queued.2) =
      t.queued.countP (fun queued => relid ∈ queued.2) + if relid ∈ t.tables then 1 else 0 := by
  obtain ⟨inside, lasting, action⟩ := e
  cases action with
  | finishTruncate env =>
    simp only [Truncation.step]
    split_ifs with hempty hmem hmem
    · rw [hempty] at hmem
      cases hmem
    · rfl
    · simp [List.countP_append, hmem]
    · simp [List.countP_append, hmem]
  | command c before => exact h.elim
  | replicateDdlCommand env before after => exact h.elim
  | startTruncate => exact h.elim
  | queueTruncate env fired before => exact h.elim

theorem queued_step_of_not_finish (h : ¬e.IsFinish) : (t.step e).queued = t.queued := by
  obtain ⟨inside, lasting, action⟩ := e
  cases action with
  | finishTruncate env => exact absurd trivial h
  | command c before => rfl
  | replicateDdlCommand env before after => rfl
  | startTruncate => rfl
  | queueTruncate env fired before => rfl

theorem SentAt.lt {j : ℕ} (h : SentAt events relid j) : j < events.length := by
  obtain ⟨⟨e, hj, -⟩, -⟩ := h
  exact (List.getElem?_eq_some_iff.mp hj).1

theorem sentAt_concat_iff {j : ℕ} :
    SentAt (events ++ [e]) relid j ↔
      SentAt events relid j ∨ (j = events.length ∧ e.IsFinish ∧ Pending events relid) := by
  rcases Nat.lt_trichotomy j events.length with hlt | rfl | hgt
  · have hsame : SentAt (events ++ [e]) relid j ↔ SentAt events relid j := by
      unfold SentAt
      rw [List.getElem?_append_left hlt, List.take_append_of_le_length (Nat.le_of_lt hlt)]
    rw [hsame]
    exact ⟨.inl, fun h => h.elim id fun h => absurd h.1 (Nat.ne_of_lt hlt)⟩
  · unfold SentAt
    simp
  · refine iff_of_false (fun h => ?_) ?_
    · have := h.lt
      rw [List.length_append, List.length_singleton] at this
      omega
    · rintro (h | ⟨rfl, -⟩)
      · have := h.lt
        omega
      · omega

/-- The list has the tables that are pending, and a table is in as many queued lists as there are
positions at which it is sent; told apart are none and one. -/
structure Counted (events : List Event) (relid : Oid) (t : Truncation) : Prop where
  pending : relid ∈ t.tables ↔ Pending events relid
  none : t.queued.countP (fun queued => relid ∈ queued.2) = 0 ↔ ∀ j, ¬SentAt events relid j
  one : t.queued.countP (fun queued => relid ∈ queued.2) = 1 ↔ ∃! j, SentAt events relid j

theorem Counted.nil : Counted [] relid ⟨[], []⟩ := by
  have hnot : ∀ j, ¬SentAt [] relid j := fun j h => absurd h.lt (Nat.not_lt_zero j)
  refine ⟨iff_of_false (by simp) ?_, iff_of_true rfl hnot, iff_of_false (by simp) ?_⟩
  · rintro ⟨before, e, after, heq, -⟩
    simp at heq
  · rintro ⟨j, h, -⟩
    exact hnot j h

theorem Counted.concat (h : Counted events relid t) (he : e.Enabled) :
    Counted (events ++ [e]) relid (t.step e) := by
  have hpending : relid ∈ (t.step e).tables ↔ Pending (events ++ [e]) relid := by
    rw [mem_tables_step he, pending_concat_iff, h.pending]
  by_cases hsent : e.IsFinish ∧ Pending events relid
  · have hcount : (t.step e).queued.countP (fun queued => relid ∈ queued.2) =
        t.queued.countP (fun queued => relid ∈ queued.2) + 1 := by
      rw [countP_queued_step_of_finish hsent.1, if_pos (h.pending.mpr hsent.2)]
    have hlast : SentAt (events ++ [e]) relid events.length :=
      sentAt_concat_iff.mpr (.inr ⟨rfl, hsent⟩)
    refine ⟨hpending, iff_of_false (by omega) fun hnone => hnone _ hlast, ?_⟩
    rw [hcount, Nat.add_eq_right, h.none]
    constructor
    · intro hnone
      refine ⟨events.length, hlast, fun j hj => ?_⟩
      exact (sentAt_concat_iff.mp hj).elim (fun hj => absurd hj (hnone j)) fun hj => hj.1
    · rintro ⟨j, -, hunique⟩ k hk
      have hk' := hunique k (sentAt_concat_iff.mpr (.inl hk))
      have hlast' := hunique _ hlast
      have hlt := hk.lt
      omega
  · have hsame : ∀ j, SentAt (events ++ [e]) relid j ↔ SentAt events relid j := by
      intro j
      rw [sentAt_concat_iff]
      exact ⟨fun h => h.elim id fun h => absurd h.2 hsent, .inl⟩
    have hcount : (t.step e).queued.countP (fun queued => relid ∈ queued.2) =
        t.queued.countP (fun queued => relid ∈ queued.2) := by
      by_cases hfinish : e.IsFinish
      · rw [countP_queued_step_of_finish hfinish, if_neg, Nat.add_zero]
        exact fun hmem => hsent ⟨hfinish, h.pending.mp hmem⟩
      · rw [queued_step_of_not_finish hfinish]
    refine ⟨hpending, ?_, ?_⟩
    · rw [hcount, h.none]
      exact forall_congr' fun j => not_congr (hsame j).symm
    · rw [hcount, h.one]
      exact existsUnique_congr fun j => (hsame j).symm

theorem counted_foldl (h : ∀ e ∈ events, e.Enabled) :
    Counted events relid (events.foldl Truncation.step ⟨[], []⟩) := by
  induction events using List.reverseRecOn with
  | nil => exact Counted.nil
  | append_singleton events e ih =>
    rw [List.forall_mem_append, List.forall_mem_singleton] at h
    rw [List.foldl_append]
    exact (ih h.1).concat h.2

def Call.executed (c : Call) (body : Work) (s : Session) : List Event :=
  c.trace s.inReplicateDdlCommand body.run (body.trace s.inReplicateDdlCommand) s

def Fired (events : List Event) (relid : Oid) : Prop :=
  ∃ e ∈ events, ∃ env before, e.action = .queueTruncate env relid before ∧
    env.persistence relid = .permanent

theorem Call.filter_ne_passOn (c : Call) (inReplicate : Bool) :
    c.filter inReplicate ≠ .ok .passOn := by
  intro h
  unfold filter at h
  split at h
  · split_ifs at h
    cases h
  · split_ifs at h
    · cases h
    · obtain ⟨-, -, h⟩ := except_bind_eq_ok.mp h
      obtain ⟨lockType, -, h⟩ := except_bind_eq_ok.mp h
      cases lockType <;> cases h

theorem Call.enter_ne_none_of_enabled (h : c.env.skipDdlReplication = false) :
    c.enter s ≠ .ok none := by
  intro henter
  obtain ⟨route, hroute, henter⟩ := except_bind_eq_ok.mp henter
  cases route with
  | passOn =>
    obtain ⟨isDone, -, hroute⟩ := except_bind_eq_ok.mp hroute
    simp only [h, Bool.false_eq_true, if_false] at hroute
    split_ifs at hroute
    -- the other branches end with another route
    all_goals first | cases hroute | exact c.filter_ne_passOn _ hroute
  | done => cases henter
  | filtered lockType =>
    obtain ⟨⟨incremented, captured⟩, -, henter⟩ := except_bind_eq_ok.mp henter
    cases henter

theorem foldl_step_executed {w : Work} (htruncate : c.stmt.isTruncate = true)
    (henter : c.enter s = .ok (some (frame, entered))) (tables : List Oid) :
    (c.executed w s).foldl Truncation.step ⟨tables, []⟩ =
      (c.executed w s).foldl Truncation.step ⟨[], []⟩ := by
  unfold Call.executed Call.trace
  rw [henter, htruncate]
  rfl

/-- For every successful `TRUNCATE`, with everything that triggers execute for it and nothing of it
rolled back, if DDL replication is enabled: the rows queued are those of `queuedLists`; and each
permanent table for which the trigger has fired is in exactly one of these lists exactly if there is
exactly one end of a `TRUNCATE` before which it was added, with no start or end in between. -/
theorem truncate_queued_once (c : Call) (body : Work) (s s' : Session)
    (htruncate : c.stmt.isTruncate = true) (hrun : commandfilter c body.run s = (.ok (), s'))
    (henabled : ∀ e ∈ c.executed body s, e.Enabled) (hlasting : Lasting (c.executed body s)) :
    s'.truncateRows = s.truncateRows ++ (queuedLists (c.executed body s)).map rowOf ∧
    ((∀ relid, Fired (c.executed body s) relid →
        (queuedLists (c.executed body s)).countP (fun queued => relid ∈ queued.2) = 1) ↔
      ∀ relid, Fired (c.executed body s) relid → ∃! j, SentAt (c.executed body s) relid j) := by
  have hskip : c.env.skipDdlReplication = false :=
    henabled ⟨s.inReplicateDdlCommand, true, .command c s⟩ List.mem_cons_self
  constructor
  · have hshows : Truncation.Shows s.truncateRows ⟨s.truncatedTables, []⟩ s :=
      ⟨rfl, (List.append_nil _).symm⟩
    have hafter := (body.follows_run.commandfilter (c := c)) hshows hlasting
    rw [hrun] at hafter
    rcases henter : c.enter s with e | _ | ⟨frame, entered⟩
    · unfold commandfilter at hrun
      rw [henter] at hrun
      cases hrun
    · exact absurd henter (Call.enter_ne_none_of_enabled hskip)
    · have hfold := foldl_step_executed (w := body) htruncate henter s.truncatedTables
      have hrows := hafter.2
      unfold Call.executed at hfold
      rw [hfold] at hrows
      exact hrows
  · refine forall_congr' fun relid => imp_congr_right fun _ => ?_
    exact (counted_foldl henabled).one

def truncate (queryString : String) (context : ProcessUtilityContext) : Call where
  env := activeEnv
  stmt := .plain .truncate
  tag := "TRUNCATE TABLE"
  queryString := queryString
  context := context

def twoTables : Work :=
  .truncateTrigger activeEnv 16400 (.truncateTrigger activeEnv 16401 .done)

theorem twoTables_executed :
    ∀ e ∈ (truncate "TRUNCATE a, b" .toplevel).executed twoTables Session.fresh,
      e.Enabled ∧ e.lasting = true := by
  refine List.forall_mem_cons.mpr ⟨⟨rfl, rfl⟩, List.forall_mem_cons.mpr ⟨⟨trivial, rfl⟩,
    List.forall_mem_cons.mpr ⟨⟨rfl, rfl⟩, List.forall_mem_cons.mpr ⟨⟨rfl, rfl⟩,
      List.forall_mem_singleton.mpr ⟨trivial, rfl⟩⟩⟩⟩⟩

theorem truncate_queued_once_twoTables :
    (commandfilter (truncate "TRUNCATE a, b" .toplevel) twoTables.run
      Session.fresh).2.truncateRows = [activeEnv.truncateRow [16400, 16401]] :=
  (truncate_queued_once (truncate "TRUNCATE a, b" .toplevel) twoTables Session.fresh _ rfl rfl
    (fun e he => (twoTables_executed e he).1) (fun e he _ => (twoTables_executed e he).2)).1

def truncateInTrigger : Work :=
  .truncateTrigger activeEnv 16400
    (.command (truncate "TRUNCATE b" .query) (.truncateTrigger activeEnv 16401 .done) .done)

/-- Both statements are successful, and `a` is in no list that is queued. -/
theorem truncate_not_queued :
    (commandfilter (truncate "TRUNCATE a" .toplevel) truncateInTrigger.run Session.fresh).1 =
      .ok () ∧
    Fired ((truncate "TRUNCATE a" .toplevel).executed truncateInTrigger Session.fresh) 16400 ∧
    (queuedLists ((truncate "TRUNCATE a" .toplevel).executed truncateInTrigger
      Session.fresh)).map Prod.snd = [[16401]] := by
  refine ⟨rfl, ⟨_, List.mem_cons_of_mem _ (List.mem_cons_of_mem _ List.mem_cons_self), activeEnv,
    _, rfl, rfl⟩, rfl⟩

end Pgactive.Ddl
