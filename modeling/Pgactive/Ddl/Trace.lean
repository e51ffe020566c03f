import Pgactive.Ddl.QueuedOnce

/-!
# What is executed for a command

While `in_pgactive_replicate_ddl_command` is set, statements are not captured: their query has been
queued already. It is one variable for all calls of `pgactive_replicate_ddl_command`, and each call
clears it, also one inside another. The trace of a piece of work lists what is really executed of
it.
-/

namespace Pgactive.Ddl

open FallibleState

/-- What is executed, with the state of the session before it. -/
inductive Action
  | command (c : Call) (before : Session)
  | startTruncate
  | queueTruncate (env : Env) (relid : Oid) (before : Session)
  | finishTruncate (env : Env)
  /-- `pgactive_replicate_ddl_command` has ended, in the state `after`. -/
  | replicateDdlCommand (env : Env) (before after : Session)

/-- An action on its place. -/
structure Event where
  /-- The action is part of a query that `pgactive_replicate_ddl_command` executes. -/
  inside : Bool
  /-- The action is not rolled back by a subtransaction. -/
  lasting : Bool
  action : Action

def traceNext (ended : Except FilterError Unit × Session) (next : Session → List Event) :
    List Event :=
  match ended with
  | (.ok _, after) => next after
  | (.error _, _) => []

def Call.traceFinish (c : Call) (inside : Bool) (ended : Except FilterError Unit × Session) :
    List Event :=
  if c.stmt.isTruncate then
    traceNext ended fun after =>
      match c.env.finishTruncate after with
      | .ok _ => [⟨inside, true, .finishTruncate c.env⟩]
      | .error _ => []
  else []

/-- What is executed of a command; `body` is what is done for it. -/
def Call.trace (c : Call) (inside : Bool) (body : Fallible FilterError Session Unit)
    (bodyTrace : Session → List Event) (s : Session) : List Event :=
  ⟨inside, true, .command c s⟩ ::
    match c.enter s with
    | .error _ => []
    | .ok none => bodyTrace s
    | .ok (some (_, entered)) =>
      (if c.stmt.isTruncate then [⟨inside, true, .startTruncate⟩] else []) ++
        bodyTrace entered ++ c.traceFinish inside (body entered)

def startQuery (env : Env) (query : String) (s : Session) : Except FilterError Session :=
  if env.skipDdlReplication then .error .replicateRejected
  else env.queueDdlCommand ⟨.sql, query, ""⟩ (s.setInReplicate true)

def traceSubtransaction (ended : Except FilterError Unit) (events : List Event) : List Event :=
  match ended with
  | .ok _ => events
  | .error _ => events.map fun e => { e with lasting := false }

def traceReplicate (env : Env) (query : String) (inside : Bool)
    (body : Fallible FilterError Session Unit) (bodyTrace : Session → List Event) (s : Session) :
    List Event :=
  (match startQuery env query s with
    | .ok started => bodyTrace started
    | .error _ => []) ++
    [⟨inside, true, .replicateDdlCommand env s (replicateDdlCommand env query body s).2⟩]

def Work.trace : Work → Bool → Session → List Event
  | .done, _, _ => []
  | .raise _, _, _ => []
  | .command c body next, inside, s =>
    c.trace inside body.run (body.trace inside) s ++
      traceNext (commandfilter c body.run s) (next.trace inside)
  | .truncateTrigger env relid next, inside, s =>
    ⟨inside, true, .queueTruncate env relid s⟩ :: next.trace inside (env.queueTruncate relid s)
  | .subtransaction body next, inside, s =>
    traceSubtransaction (body.run s).1 (body.trace inside s) ++
      traceNext (caught body.run Session.abort s) (next.trace inside)
  | .replicate env query body next, inside, s =>
    traceReplicate env query inside body.run (body.trace true) s ++
      traceNext (replicateDdlCommand env query body.run s) (next.trace inside)

/-! ### The flag of a call -/

/-- A call of `pgactive_replicate_ddl_command` leaves the flag as it was. A statement inside of one
is treated as inside, and it is not captured. -/
def Event.Restored (e : Event) : Prop :=
  match e.action with
  | .command c before => e.inside = true →
      before.inReplicateDdlCommand = true ∧ ∀ frame entered,
        c.enter before = .ok (some (frame, entered)) →
          entered.queuedCommands = before.queuedCommands
  | .queueTruncate _ _ before => e.inside = true → before.inReplicateDdlCommand = true
  | .replicateDdlCommand _ before after =>
    after.inReplicateDdlCommand = before.inReplicateDdlCommand
  | .startTruncate | .finishTruncate _ => True

def Event.NotNested (e : Event) : Prop :=
  match e.action with
  | .replicateDdlCommand env _ _ => e.inside = true → env.skipDdlReplication = true
  | _ => True

def Flagged (flag : Bool) (s : Session) : Prop := s.inReplicateDdlCommand = flag

variable {c : Call} {s s' entered : Session} {frame : Frame} {flag : Bool} {env : Env}
  {query : String} {body next : Fallible FilterError Session Unit}
  {bodyTrace nextTrace : Bool → Session → List Event}

theorem Call.flagged_mark (c : Call) (incremented : Bool) (hs : Flagged flag s) :
    Flagged flag (c.mark incremented s).2 := by
  unfold mark
  split_ifs
  · exact hs
  · exact hs
  · exact hs

theorem Call.flagged_enter (h : c.enter s = .ok (some (frame, entered))) (hs : Flagged flag s) :
    Flagged flag entered := by
  obtain ⟨route, hroute, h⟩ := except_bind_eq_ok.mp h
  cases route with
  | passOn => cases h
  | done =>
    have hmark := c.flagged_mark false hs
    rw [Option.some.inj (Except.ok.inj h)] at hmark
    exact hmark
  | filtered lockType =>
    obtain ⟨⟨incremented, captured⟩, hcapture, h⟩ := except_bind_eq_ok.mp h
    have hcaptured : Flagged flag captured := by
      obtain ⟨-, -, rfl⟩ | ⟨-, -, rfl⟩ := capture_cases hroute hcapture
      · exact hs
      · exact hs
    have hmark := c.flagged_mark incremented hcaptured
    rw [Option.some.inj (Except.ok.inj h)] at hmark
    exact hmark

theorem Call.flagged_finish (c : Call) : Keeps (Flagged flag) c.finish := by
  refine Keeps.ite (Keeps.attempt fun s s' hs h => ?_) (Keeps.pure ())
  obtain ⟨-, rfl⟩ | ⟨-, rfl⟩ := Env.finishTruncate_cases h
  · exact hs
  · exact hs

theorem flagged_commandfilter (hs : Flagged flag s)
    (hhandedOn : c.enter s = .ok none → Flagged flag (body s).2)
    (hentered : ∀ frame entered, c.enter s = .ok (some (frame, entered)) →
      Flagged flag (body entered).2) :
    Flagged flag (commandfilter c body s).2 := by
  unfold commandfilter
  rcases henter : c.enter s with e | _ | ⟨frame, entered⟩
  · exact hs
  · exact hhandedOn henter
  · have hkept := hentered frame entered henter
    dsimp only
    rcases hrun : body entered with ⟨e | ⟨⟩, after⟩
    · rw [hrun] at hkept
      rw [bind_of_error (onError_of_error hrun)]
      exact hkept
    · rw [hrun] at hkept
      rw [bind_of_ok (onError_eq_ok_iff.mpr hrun)]
      have hleave : ∀ after, Flagged flag after → Flagged flag (frame.leave after) :=
        fun _ hafter => hafter
      exact Keeps.bind c.flagged_finish (fun _ => Keeps.modify hleave) after hkept

theorem replicateDdlCommand_snd (env : Env) (query : String)
    (body : Fallible FilterError Session Unit) (s : Session) :
    (replicateDdlCommand env query body s).2 =
      match startQuery env query s with
      | .ok started => (body started).2.setInReplicate false
      | .error _ => if env.skipDdlReplication then s else s.setInReplicate false := by
  unfold replicateDdlCommand startQuery
  cases hskip : env.skipDdlReplication with
  | true => rfl
  | false =>
    have hmark : (modify (Session.setInReplicate true) : Fallible FilterError Session PUnit) s =
        (.ok (), s.setInReplicate true) := rfl
    rw [if_neg Bool.false_ne_true, if_neg Bool.false_ne_true, bind_of_ok hmark]
    cases hqueue : env.queueDdlCommand ⟨.sql, query, ""⟩ (s.setInReplicate true) with
    | error e =>
      have hattempt : attempt (env.queueDdlCommand ⟨.sql, query, ""⟩) (s.setInReplicate true) =
          (.error e, s.setInReplicate true) := by
        unfold attempt
        rw [hqueue]
      rw [bind_of_error (onError_of_error (bind_of_error hattempt _))]
      rfl
    | ok started =>
      have hbody := bind_of_ok (attempt_eq_ok_iff.mpr hqueue) fun _ => body
      dsimp only
      rcases hrun : body started with ⟨e | ⟨⟩, after⟩
      · rw [bind_of_error (onError_of_error (hbody.trans hrun))]
      · rw [bind_of_ok (onError_eq_ok_iff.mpr (hbody.trans hrun))]
        rfl

theorem flagged_replicateDdlCommand (hskip : env.skipDdlReplication = false) :
    Flagged false (replicateDdlCommand env query body s).2 := by
  rw [replicateDdlCommand_snd]
  split
  · rfl
  · rw [hskip, if_neg Bool.false_ne_true]
    rfl

/-- The trace goes with the computation: its calls restore the flag exactly if they are not nested,
and then the flag is at the end what it was at the beginning. -/
def Tracks (body : Fallible FilterError Session Unit) (trace : Bool → Session → List Event) :
    Prop :=
  ∀ ⦃flag s⦄, Flagged flag s →
    ((∀ e ∈ trace flag s, e.Restored) ↔ ∀ e ∈ trace flag s, e.NotNested) ∧
      ((∀ e ∈ trace flag s, e.NotNested) → Flagged flag (body s).2)

theorem Tracks.bind (hbody : Tracks body bodyTrace) (hnext : Tracks next nextTrace) :
    Tracks (body >>= fun _ => next) fun flag s =>
      bodyTrace flag s ++ traceNext (body s) (nextTrace flag) := by
  intro flag s hs
  obtain ⟨hiff, hkeeps⟩ := hbody hs
  rcases hrun : body s with ⟨e | ⟨⟩, after⟩
  · rw [hrun] at hkeeps
    simp only [bind_of_error hrun, hrun, traceNext, List.append_nil]
    exact ⟨hiff, hkeeps⟩
  · rw [hrun] at hkeeps
    simp only [bind_of_ok hrun, hrun, traceNext, List.forall_mem_append]
    constructor
    · rw [hiff]
      exact and_congr_right fun hbody => (hnext (hkeeps hbody)).1
    · rintro ⟨hbody, hrest⟩
      exact (hnext (hkeeps hbody)).2 hrest

theorem restored_command (hs : Flagged flag s) : Event.Restored ⟨flag, true, .command c s⟩ := by
  intro hinside
  have hflag : s.inReplicateDdlCommand = true := hs.trans hinside
  refine ⟨hflag, fun frame entered henter => ?_⟩
  have hentered := Call.entered_of_enter henter
  have hnot : frame.incrementedNestlevel = false := by
    refine Bool.eq_false_iff.mpr fun hincremented => ?_
    obtain ⟨⟨-, -, hout⟩, -⟩ := hentered.captured.mp hincremented
    exact Bool.false_ne_true (hout.symm.trans hflag)
  rw [hentered.queued, hnot]
  simp

variable {p : Event → Prop}

theorem Call.forall_traceFinish (c : Call) (inside : Bool)
    (ended : Except FilterError Unit × Session) (hp : p ⟨inside, true, .finishTruncate c.env⟩) :
    ∀ e ∈ c.traceFinish inside ended, p e := by
  unfold traceFinish traceNext
  split_ifs
  · split
    · dsimp only
      split
      · exact List.forall_mem_singleton.mpr hp
      · exact List.forall_mem_nil p
    · exact List.forall_mem_nil p
  · exact List.forall_mem_nil p

theorem Call.forall_trace {inside : Bool} {trace : Session → List Event}
    (henter : c.enter s = .ok (some (frame, entered))) (hstart : p ⟨inside, true, .startTruncate⟩)
    (hfinish : p ⟨inside, true, .finishTruncate c.env⟩) :
    (∀ e ∈ c.trace inside body trace s, p e) ↔
      p ⟨inside, true, .command c s⟩ ∧ ∀ e ∈ trace entered, p e := by
  have hstarts : ∀ e ∈ (if c.stmt.isTruncate then [⟨inside, true, .startTruncate⟩] else [] :
      List Event), p e := by
    split_ifs
    · exact List.forall_mem_singleton.mpr hstart
    · exact List.forall_mem_nil p
  have hfinishes := c.forall_traceFinish inside (body entered) hfinish
  simp only [Call.trace, henter, List.forall_mem_cons, List.forall_mem_append]
  exact ⟨fun h => ⟨h.1, h.2.1.2⟩, fun h => ⟨h.1, ⟨hstarts, h.2⟩, hfinishes⟩⟩

theorem Tracks.commandfilter (hbody : Tracks body bodyTrace) :
    Tracks (commandfilter c body) fun flag => c.trace flag body (bodyTrace flag) := by
  intro flag s hs
  have hcommand : Event.Restored ⟨flag, true, .command c s⟩ := restored_command hs
  have hnotCall : Event.NotNested ⟨flag, true, .command c s⟩ := trivial
  rcases henter : c.enter s with e | _ | ⟨frame, entered⟩
  · simp only [Call.trace, henter, List.forall_mem_singleton]
    refine ⟨iff_of_true hcommand hnotCall, fun _ => flagged_commandfilter hs ?_ ?_⟩
    · intro h
      cases henter.symm.trans h
    · intro frame entered h
      cases henter.symm.trans h
  · obtain ⟨hiff, hkeeps⟩ := hbody hs
    simp only [Call.trace, henter, List.forall_mem_cons, hcommand, hnotCall, true_and]
    refine ⟨hiff, fun hnested => flagged_commandfilter hs (fun _ => hkeeps hnested) ?_⟩
    intro frame entered h
    cases henter.symm.trans h
  · obtain ⟨hiff, hkeeps⟩ := hbody (Call.flagged_enter henter hs)
    rw [Call.forall_trace henter trivial trivial, Call.forall_trace henter trivial trivial]
    refine ⟨and_congr (iff_of_true hcommand hnotCall) hiff, fun hnested =>
      flagged_commandfilter hs ?_ ?_⟩
    · intro h
      cases henter.symm.trans h
    · intro frame' entered' h
      cases henter.symm.trans h
      exact hkeeps hnested.2

theorem flagged_startQuery (h : startQuery env query s = .ok s') : Flagged true s' := by
  unfold startQuery at h
  split_ifs at h
  rw [Env.queueDdlCommand_eq_ok h]
  rfl

theorem restored_call_iff (hs : Flagged flag s) (hafter : Flagged false s') :
    Event.Restored ⟨flag, true, .replicateDdlCommand env s s'⟩ ↔ flag = false := by
  change s'.inReplicateDdlCommand = s.inReplicateDdlCommand ↔ flag = false
  rw [hs, hafter, eq_comm]

theorem notNested_call_iff (hskip : env.skipDdlReplication = false) :
    Event.NotNested ⟨flag, true, .replicateDdlCommand env s s'⟩ ↔ flag = false := by
  change (flag = true → env.skipDdlReplication = true) ↔ flag = false
  simp [hskip]

theorem Tracks.replicateDdlCommand (hbody : Tracks body bodyTrace) :
    Tracks (replicateDdlCommand env query body) fun flag =>
      traceReplicate env query flag body (bodyTrace true) := by
  intro flag s hs
  cases hskip : env.skipDdlReplication with
  | true =>
    have hstart : startQuery env query s = .error .replicateRejected := by
      unfold startQuery
      rw [hskip, if_pos rfl]
    have hafter : (Ddl.replicateDdlCommand env query body s).2 = s := by
      rw [replicateDdlCommand_snd, hstart, hskip, if_pos rfl]
    simp only [traceReplicate, hstart, hafter, List.nil_append, List.forall_mem_singleton]
    exact ⟨iff_of_true rfl fun _ => hskip, fun _ => hs⟩
  | false =>
    have hafter : Flagged false (Ddl.replicateDdlCommand env query body s).2 :=
      flagged_replicateDdlCommand hskip
    simp only [traceReplicate, List.forall_mem_append, List.forall_mem_singleton,
      restored_call_iff hs hafter, notNested_call_iff hskip]
    refine ⟨and_congr_left fun _ => ?_, ?_⟩
    · cases hstart : startQuery env query s with
      | error e => simp
      | ok started => exact (hbody (flagged_startQuery hstart)).1
    · rintro ⟨-, rfl⟩
      exact hafter

theorem forall_traceSubtransaction {ended : Except FilterError Unit} {events : List Event}
    (hp : ∀ e : Event, p { e with lasting := false } ↔ p e) :
    (∀ e ∈ traceSubtransaction ended events, p e) ↔ ∀ e ∈ events, p e := by
  unfold traceSubtransaction
  split
  · rfl
  · simp [hp]

theorem Tracks.caught (hbody : Tracks body bodyTrace) :
    Tracks (caught body Session.abort) fun flag s =>
      traceSubtransaction (body s).1 (bodyTrace flag s) := by
  intro flag s hs
  obtain ⟨hiff, hkeeps⟩ := hbody hs
  rw [forall_traceSubtransaction fun _ => Iff.rfl, forall_traceSubtransaction fun _ => Iff.rfl]
  refine ⟨hiff, fun hnested => ?_⟩
  have hflag := hkeeps hnested
  unfold FallibleState.caught
  rcases hrun : body s with ⟨e | ⟨⟩, after⟩
  · rw [hrun] at hflag
    exact hflag
  · rw [hrun] at hflag
    exact hflag

theorem Work.tracks_run (w : Work) : Tracks w.run w.trace := by
  induction w with
  | done => exact fun flag s hs => ⟨by simp [trace], fun _ => hs⟩
  | raise message => exact fun flag s hs => ⟨by simp [trace], fun _ => hs⟩
  | command c body next ihBody ihNext => exact ihBody.commandfilter.bind ihNext
  | truncateTrigger env relid next ihNext =>
    intro flag s hs
    obtain ⟨tables, htables⟩ := env.queueTruncate_eq relid s
    have hafter : Flagged flag (env.queueTruncate relid s) := by
      rw [htables]
      exact hs
    obtain ⟨hiff, hkeeps⟩ := ihNext hafter
    simp only [trace, List.forall_mem_cons]
    refine ⟨and_congr (iff_of_true (fun hinside => hs.trans hinside) trivial) hiff, ?_⟩
    exact fun hnested => hkeeps hnested.2
  | subtransaction body next ihBody ihNext => exact ihBody.caught.bind ihNext
  | replicate env query body next ihBody ihNext => exact ihBody.replicateDdlCommand.bind ihNext

/-- For every nesting of calls of `pgactive_replicate_ddl_command`, with errors raised and caught
at any place: the flag after each call is what it was before, and what an outer call still executes
is treated as inside and not captured again, exactly if no call that is not rejected is executed
inside another. -/
theorem replicateDdlCommand_restores (w : Work) (s : Session) :
    (∀ e ∈ w.trace s.inReplicateDdlCommand s, e.Restored) ↔
      ∀ e ∈ w.trace s.inReplicateDdlCommand s, e.NotNested :=
  (w.tracks_run rfl).1

/-- The query of a call makes another call, and then it empties a table. -/
def nestedReplicate : Work :=
  .replicate activeEnv "SELECT pgactive.pgactive_replicate_ddl_command('...'); TRUNCATE settings"
    (.replicate activeEnv "..." .done
      (.command
        { env := activeEnv
          stmt := .plain .truncate
          tag := "TRUNCATE TABLE"
          queryString := "TRUNCATE settings"
          context := .query }
        (.truncateTrigger activeEnv 16400 .done) .done)) .done

/-- The inner call clears the flag at its end, and the `TRUNCATE` is queued a second time. -/
theorem nestedReplicate_not_restored :
    (∃ e ∈ nestedReplicate.trace false Session.fresh, ¬e.Restored) ∧
    (nestedReplicate.run Session.fresh).2.queuedCommands.map Row.command =
      ["SELECT pgactive.pgactive_replicate_ddl_command('...'); TRUNCATE settings", "...",
        "TRUNCATE TABLE ONLY public.settings"] := by
  refine ⟨⟨⟨true, true, .replicateDdlCommand activeEnv _ _⟩,
    List.mem_append_left _ (List.mem_append_left _ (List.mem_append_left _
      (List.mem_append_right _ List.mem_cons_self))), ?_⟩, rfl⟩
  exact Bool.false_ne_true

end Pgactive.Ddl
