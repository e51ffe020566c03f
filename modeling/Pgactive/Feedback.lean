import Pgactive.Transition
import Mathlib.Data.List.Basic
import Mathlib.Order.MinMax

/-!
# Feedback of an apply worker

A local commit may be asynchronous, so the worker remembers where the local commit record of each
remote transaction ends (`pgactive_lsn_association`) and reports a remote position as flushed only
when that is. `InvalidXLogRecPtr` is zero. Local commits and reports are kept as history.
-/

namespace Pgactive.Feedback

open Transition

structure FlushPosition where
  localEnd : ℕ
  remoteEnd : ℕ
deriving DecidableEq

/-- A local commit that changed data on behalf of a remote transaction. -/
structure LocalCommit where
  remoteEnd : ℕ
  localEnd : ℕ
  inQueuedDdl : Bool
deriving DecidableEq

/-- A standby status update, with the local flush position at that time. -/
structure Report where
  recvpos : ℕ
  /-- Written, in the field that the protocol calls apply. -/
  writepos : ℕ
  flushpos : ℕ
  localFlush : ℕ
deriving DecidableEq

/-- What `pgactive_get_flush_position` returns and leaves. -/
structure FlushStatus where
  allFlushed : Bool
  write : ℕ
  flush : ℕ
  left : List FlushPosition

/-- An apply worker and the local write-ahead log. -/
structure Worker where
  startedTransaction : Bool
  /-- `replorigin_session_origin_lsn`, between BEGIN and COMMIT. -/
  sessionOriginLsn : Option ℕ
  /-- `pgactive_lsn_association`, oldest entry first. -/
  lsnAssociation : List FlushPosition
  /-- `last_received` of `pgactive_apply_work`. -/
  lastReceived : ℕ
  /-- `last_recvpos` of `pgactive_send_feedback`. -/
  lastRecvpos : ℕ
  lastWritepos : ℕ
  lastFlushpos : ℕ
  /-- `replay_stop_lsn`, zero without a limit. -/
  replayStopLsn : ℕ
  /-- The worker has stopped at `replay_stop_lsn`. -/
  exited : Bool
  xactLastCommitEnd : ℕ
  insertLsn : ℕ
  flushLsn : ℕ
  /-- The highest position that a message has named or a delivered commit has ended at. -/
  seen : ℕ
  commits : List LocalCommit
  reports : List Report
deriving DecidableEq

/-- A record of the stream. -/
inductive StreamRecord
  | begin (commitEnd : ℕ)
  | change
  /-- An insert into a DDL queue. The flag tells whether executing the command committed the
  local transaction. -/
  | queuedDdl (commits : Bool)
  /-- COMMIT with start and end of the commit record. The flag tells whether the local
  transaction, if there is one, has written anything. -/
  | commit (commitLsn commitEnd : ℕ) (wrote : Bool)
  | message

/-- What happens to the worker. -/
inductive Event
  /-- A `w` message. -/
  | data (startLsn endLsn : ℕ) (record : StreamRecord)
  /-- A `k` message. -/
  | keepalive (endpos : ℕ) (replyRequested : Bool)
  | feedback
  | flush (lsn : ℕ)
  | localWal (size : ℕ)

def flushLoop (localFlush : ℕ) : List FlushPosition → ℕ → ℕ → FlushStatus
  | [], write, flush => ⟨true, write, flush, []⟩
  | pos :: rest, _, flush =>
    if pos.localEnd ≤ localFlush then flushLoop localFlush rest pos.remoteEnd pos.remoteEnd
    -- the write position is that of the last element
    else ⟨false, (rest.getLastD pos).remoteEnd, flush, pos :: rest⟩

def getFlushPosition (localFlush : ℕ) (association : List FlushPosition) : FlushStatus :=
  flushLoop localFlush association 0 0

variable (s : Worker)

def Worker.writepos (recvpos : ℕ) : ℕ :=
  let status := getFlushPosition s.flushLsn s.lsnAssociation
  -- with no outstanding transaction the latest received position can be reported
  if status.allFlushed then max recvpos s.lastRecvpos else status.write

def Worker.flushpos (recvpos : ℕ) : ℕ :=
  let status := getFlushPosition s.flushLsn s.lsnAssociation
  if status.allFlushed then max recvpos s.lastRecvpos else status.flush

/-- A standby status update is sent. -/
def Worker.report (recvpos writepos flushpos : ℕ) : Worker :=
  { s with
    lastRecvpos := recvpos
    lastWritepos := writepos
    lastFlushpos := flushpos
    reports := s.reports ++ [⟨recvpos, writepos, flushpos, s.flushLsn⟩] }

def Worker.drain : Worker :=
  { s with lsnAssociation := (getFlushPosition s.flushLsn s.lsnAssociation).left }

def Worker.sendFeedback (recvpos : ℕ) (force : Bool) : Worker :=
  let writepos := max (s.writepos recvpos) s.lastWritepos
  let flushpos := max (s.flushpos recvpos) s.lastFlushpos
  if ¬force ∧ writepos = s.lastWritepos ∧ flushpos = s.lastFlushpos then s.drain
  else s.drain.report (max recvpos s.lastRecvpos) writepos flushpos

def Worker.commitLocally (remoteEnd : ℕ) (inQueuedDdl : Bool) : Worker :=
  { s with
    insertLsn := s.insertLsn + 1
    xactLastCommitEnd := s.insertLsn + 1
    commits := s.commits ++ [⟨remoteEnd, s.insertLsn + 1, inQueuedDdl⟩] }

/-- `process_remote_insert`, its end for an insert into a DDL queue. -/
def Worker.processQueuedDdl (commitEnd : ℕ) (commits : Bool) : Worker :=
  if commits then { s.commitLocally commitEnd true with startedTransaction := false }
  else { s with startedTransaction := true }

def Worker.associate (remoteEnd : ℕ) : Worker :=
  { s with lsnAssociation := s.lsnAssociation ++ [⟨s.xactLastCommitEnd, remoteEnd⟩] }

/-- `process_remote_commit` up to the test for the end of a limited replay. -/
def Worker.commitRemote (origin commitLsn : ℕ) (wrote : Bool) : Worker :=
  -- an old peer sends the start of the commit record in BEGIN
  let remoteEnd := if origin = commitLsn then origin + 1 else origin
  let committed :=
    if s.startedTransaction then
      (if wrote then s.commitLocally remoteEnd false else s).associate remoteEnd
    else s
  { committed with sessionOriginLsn := none }

/-- The end of `process_remote_commit`: a limited replay flushes everything and stops. -/
def Worker.stopReplay (commitEnd : ℕ) : Worker :=
  if s.replayStopLsn ≠ 0 ∧ s.replayStopLsn ≤ commitEnd then
    { s with replayStopLsn := 0, flushLsn := s.insertLsn, exited := true }
  else s

def Worker.see (lsn : ℕ) : Worker := { s with seen := max s.seen lsn }

def Worker.receive (lsn : ℕ) : Worker :=
  { s with lastReceived := max s.lastReceived lsn }.see lsn

/-- `pgactive_process_remote_action`. `none` is a record that cannot come here: transactions
are sent one after the other in the order of their ends, and before a transaction is
delivered no message names a position past its end. -/
def Worker.processRemoteAction : StreamRecord → Option Worker
  | .begin commitEnd =>
    if s.sessionOriginLsn = none ∧ s.seen ≤ commitEnd then
      some { s with startedTransaction := false, sessionOriginLsn := some commitEnd }
    else none
  | .change => do
    let commitEnd ← s.sessionOriginLsn
    if s.seen ≤ commitEnd then some { s with startedTransaction := true } else none
  | .queuedDdl commits => do
    let commitEnd ← s.sessionOriginLsn
    if s.seen ≤ commitEnd then some (s.processQueuedDdl commitEnd commits) else none
  | .commit commitLsn commitEnd wrote => do
    let origin ← s.sessionOriginLsn
    if origin = commitEnd ∧ commitLsn < commitEnd then
      some (((s.see commitEnd).commitRemote origin commitLsn wrote).stopReplay commitEnd)
    else none
  | .message => if s.sessionOriginLsn.all (s.seen ≤ ·) then some s else none

def Worker.step : Event → Option Worker
  | .data startLsn endLsn record =>
    if s.exited then none
    else (s.receive (max startLsn endLsn)).processRemoteAction record
  | .keepalive endpos replyRequested =>
    if s.exited ∨ ¬s.sessionOriginLsn.all (endpos ≤ ·) then none
    else some ((s.see endpos).sendFeedback endpos replyRequested)
  | .feedback => if s.exited then none else some (s.sendFeedback s.lastReceived false)
  | .flush lsn =>
    if s.flushLsn ≤ lsn ∧ lsn ≤ s.insertLsn then some { s with flushLsn := lsn } else none
  | .localWal size => some { s with insertLsn := s.insertLsn + size }

def Worker.start (replayStopLsn : ℕ) : Worker where
  startedTransaction := false
  sessionOriginLsn := none
  lsnAssociation := []
  lastReceived := 0
  lastRecvpos := 0
  lastWritepos := 0
  lastFlushpos := 0
  replayStopLsn := replayStopLsn
  exited := false
  xactLastCommitEnd := 0
  insertLsn := 0
  flushLsn := 0
  seen := 0
  commits := []
  reports := []

/-- Every local commit made inside a queued DDL command of a transaction that ends at or
before `recvpos` is flushed. -/
def Worker.DdlCommitsFlushed (recvpos : ℕ) : Prop :=
  ∀ c ∈ s.commits, c.inQueuedDdl = true → c.remoteEnd ≤ max recvpos s.lastRecvpos →
    c.localEnd ≤ s.flushLsn

instance (s : Worker) (recvpos : ℕ) : Decidable (s.DdlCommitsFlushed recvpos) :=
  inferInstanceAs (Decidable (∀ c ∈ s.commits, _))

/-- A feedback that finds no outstanding association finds the commits made inside queued
DDL commands flushed. -/
def Worker.FeedbackSafe (recvpos : ℕ) : Prop :=
  (getFlushPosition s.flushLsn s.lsnAssociation).allFlushed = true → s.DdlCommitsFlushed recvpos

instance (s : Worker) (recvpos : ℕ) : Decidable (s.FeedbackSafe recvpos) :=
  inferInstanceAs (Decidable (_ → _))

/-- No message before a COMMIT names the end of that transaction. -/
def Worker.Before (lsn : ℕ) : Prop := ∀ m ∈ s.sessionOriginLsn, lsn < m

instance (s : Worker) (lsn : ℕ) : Decidable (s.Before lsn) :=
  inferInstanceAs (Decidable (∀ m ∈ s.sessionOriginLsn, lsn < m))

def Worker.Safe : Event → Prop
  | .data startLsn endLsn (.begin commitEnd) => max s.seen (max startLsn endLsn) < commitEnd
  | .data _ _ (.commit _ _ _) => True
  | .data startLsn endLsn _ => s.Before (max startLsn endLsn)
  | .keepalive endpos _ => s.Before endpos ∧ s.FeedbackSafe endpos
  | .feedback => s.FeedbackSafe s.lastReceived
  | .flush _ => True
  | .localWal _ => True

instance (s : Worker) (e : Event) : Decidable (s.Safe e) := by
  rcases e with ⟨_, _, _ | _⟩ | _ <;> unfold Worker.Safe <;> infer_instance

def Report.Le (r r' : Report) : Prop :=
  r.recvpos ≤ r'.recvpos ∧ r.writepos ≤ r'.writepos ∧ r.flushpos ≤ r'.flushpos

instance (r r' : Report) : Decidable (r.Le r') :=
  inferInstanceAs (Decidable (_ ∧ _ ∧ _))

/-- Each commit of a transaction that a report covers was flushed when the report was made,
and the reported positions never decrease. -/
def Worker.FeedbackSound : Prop :=
  (∀ r ∈ s.reports, ∀ c ∈ s.commits, c.remoteEnd ≤ r.flushpos → c.localEnd ≤ r.localFlush) ∧
    s.reports.Pairwise Report.Le

instance (s : Worker) : Decidable s.FeedbackSound := inferInstanceAs (Decidable (_ ∧ _))

/-! ## The flush position -/

section FlushLoop

variable {localFlush : ℕ} {l : List FlushPosition} {write flush : ℕ} {e : FlushPosition}

theorem mem_of_mem_flushLoop (he : e ∈ (flushLoop localFlush l write flush).left) : e ∈ l := by
  induction l generalizing write flush with
  | nil => exact he
  | cons pos rest ih =>
    rw [flushLoop] at he
    split at he
    · exact List.mem_cons_of_mem _ (ih he)
    · exact he

theorem mem_flushLoop_or_flushed (he : e ∈ l) :
    e ∈ (flushLoop localFlush l write flush).left ∨ e.localEnd ≤ localFlush := by
  induction l generalizing write flush with
  | nil => cases he
  | cons pos rest ih =>
    rw [flushLoop]
    split
    · next hpos =>
      obtain rfl | hrest := List.mem_cons.mp he
      · exact .inr hpos
      · exact ih hrest
    · exact .inl he

theorem flushLoop_left_eq_nil (h : (flushLoop localFlush l write flush).allFlushed = true) :
    (flushLoop localFlush l write flush).left = [] := by
  induction l generalizing write flush with
  | nil => rfl
  | cons pos rest ih =>
    rw [flushLoop] at h ⊢
    split at h
    · next hpos =>
      rw [if_pos hpos]
      exact ih h
    · cases h

theorem flushLoop_flush :
    (flushLoop localFlush l write flush).flush = flush ∨
      ∃ e ∈ l, e.localEnd ≤ localFlush ∧
        (flushLoop localFlush l write flush).flush = e.remoteEnd := by
  induction l generalizing write flush with
  | nil => exact .inl rfl
  | cons pos rest ih =>
    rw [flushLoop]
    split
    · next hpos =>
      obtain heq | ⟨e, he, hflushed, heq⟩ := @ih pos.remoteEnd pos.remoteEnd
      · exact .inr ⟨pos, List.mem_cons_self, hpos, heq⟩
      · exact .inr ⟨e, List.mem_cons_of_mem _ he, hflushed, heq⟩
    · exact .inl rfl

end FlushLoop

/-! ## The invariant -/

/-- What holds of positions, associations and reports. -/
structure Worker.Ordered (s : Worker) : Prop where
  flush_le : s.flushLsn ≤ s.insertLsn
  lastCommit_le : s.xactLastCommitEnd ≤ s.insertLsn
  lastReceived_le : s.lastReceived ≤ s.seen
  lastRecvpos_le : s.lastRecvpos ≤ s.seen
  lastFlushpos_le : s.lastFlushpos ≤ s.seen
  association_le : ∀ e ∈ s.lsnAssociation, e.remoteEnd ≤ s.seen
  commit_le : ∀ c ∈ s.commits, c.localEnd ≤ s.xactLastCommitEnd
  covers : ∀ e ∈ s.lsnAssociation, ∀ c ∈ s.commits, c.remoteEnd ≤ e.remoteEnd →
    c.localEnd ≤ e.localEnd
  reported : ∀ c ∈ s.commits, c.remoteEnd ≤ s.lastFlushpos → c.localEnd ≤ s.flushLsn
  reports_le : ∀ r ∈ s.reports,
    r.recvpos ≤ s.lastRecvpos ∧ r.writepos ≤ s.lastWritepos ∧ r.flushpos ≤ s.lastFlushpos
  sound : s.FeedbackSound

/-- The worker's bookkeeping: in addition, the commit that ends a transaction is flushed or
has an association. -/
structure Worker.Consistent (s : Worker) : Prop extends s.Ordered where
  tracked : ∀ c ∈ s.commits, c.inQueuedDdl = false →
    c.localEnd ≤ s.flushLsn ∨ ∃ e ∈ s.lsnAssociation, c.localEnd ≤ e.localEnd

/-- Nothing that was named or delivered so far reaches `commitEnd`. -/
structure Worker.Ahead (s : Worker) (commitEnd : ℕ) : Prop where
  reports_lt : s.lastFlushpos < commitEnd
  association_lt : ∀ e ∈ s.lsnAssociation, e.remoteEnd < commitEnd

def Worker.Inv (s : Worker) : Prop := s.Consistent ∧ s.Before s.seen

variable {s t : Worker}

section

variable (hs : s.Consistent)
include hs

theorem Worker.Consistent.ahead {m : ℕ} (hm : s.seen < m) : s.Ahead m :=
  ⟨hs.lastFlushpos_le.trans_lt hm, fun e he => (hs.association_le e he).trans_lt hm⟩

theorem Worker.Consistent.see (lsn : ℕ) : (s.see lsn).Consistent :=
  { hs with
    lastReceived_le := hs.lastReceived_le.trans (le_max_left _ _)
    lastRecvpos_le := hs.lastRecvpos_le.trans (le_max_left _ _)
    lastFlushpos_le := hs.lastFlushpos_le.trans (le_max_left _ _)
    association_le := fun e he => (hs.association_le e he).trans (le_max_left _ _) }

theorem Worker.Consistent.receive (lsn : ℕ) : (s.receive lsn).Consistent :=
  { hs.see lsn with
    lastReceived_le := sup_le_sup_right hs.lastReceived_le lsn }

theorem Worker.Consistent.flush {lsn : ℕ}
    (hflush : s.flushLsn ≤ lsn) (hinsert : lsn ≤ s.insertLsn) :
    { s with flushLsn := lsn }.Consistent :=
  { hs with
    flush_le := hinsert
    tracked := fun c hc hddl => (hs.tracked c hc hddl).imp_left fun h => h.trans hflush
    reported := fun c hc hle => (hs.reported c hc hle).trans hflush }

/-! ## Reports -/

variable {recvpos : ℕ}

theorem Worker.Consistent.flushpos_le (hrecv : recvpos ≤ s.seen) : s.flushpos recvpos ≤ s.seen := by
  rw [flushpos, getFlushPosition]
  split
  · exact max_le hrecv hs.lastRecvpos_le
  · obtain heq | ⟨e, he, -, heq⟩ := @flushLoop_flush s.flushLsn s.lsnAssociation 0 0
    · rw [heq]
      exact Nat.zero_le _
    · rw [heq]
      exact hs.association_le e he

theorem Worker.Consistent.flushed_of_le_flushpos (hsafe : s.FeedbackSafe recvpos)
    {c : LocalCommit} (hc : c ∈ s.commits)
    (hle : c.remoteEnd ≤ s.flushpos recvpos) : c.localEnd ≤ s.flushLsn := by
  rw [flushpos] at hle
  split at hle
  · next hall =>
    cases hddl : c.inQueuedDdl with
    | true => exact hsafe hall c hc hddl hle
    | false =>
      obtain hflushed | ⟨e, he, hce⟩ := hs.tracked c hc hddl
      · exact hflushed
      · -- nothing is left in the list, so the association has been flushed
        obtain hleft | hflushed := mem_flushLoop_or_flushed he
        · rw [flushLoop_left_eq_nil hall] at hleft
          cases hleft
        · exact hce.trans hflushed
  · rw [getFlushPosition] at hle
    obtain heq | ⟨e, he, hflushed, heq⟩ := @flushLoop_flush s.flushLsn s.lsnAssociation 0 0
    · exact hs.reported c hc (by omega)
    · exact (hs.covers e he c hc (heq ▸ hle)).trans hflushed

theorem Worker.Consistent.drain : s.drain.Consistent :=
  { hs with
    association_le := fun e he => hs.association_le e (mem_of_mem_flushLoop he)
    covers := fun e he => hs.covers e (mem_of_mem_flushLoop he)
    tracked := by
      intro c hc hddl
      obtain hflushed | ⟨e, he, hce⟩ := hs.tracked c hc hddl
      · exact .inl hflushed
      · obtain hleft | hflushed := mem_flushLoop_or_flushed he
        · exact .inr ⟨e, hleft, hce⟩
        · exact .inl (hce.trans hflushed) }

theorem Worker.Consistent.report {recv write flush : ℕ}
    (hrecv : s.lastRecvpos ≤ recv) (hwrite : s.lastWritepos ≤ write)
    (hflush : s.lastFlushpos ≤ flush) (hrecvSeen : recv ≤ s.seen) (hflushSeen : flush ≤ s.seen)
    (hflushed : ∀ c ∈ s.commits, c.remoteEnd ≤ flush → c.localEnd ≤ s.flushLsn) :
    (s.report recv write flush).Consistent := by
  have hle : ∀ r ∈ s.reports, Report.Le r ⟨recv, write, flush, s.flushLsn⟩ := by
    intro r hr
    obtain ⟨h₁, h₂, h₃⟩ := hs.reports_le r hr
    exact ⟨h₁.trans hrecv, h₂.trans hwrite, h₃.trans hflush⟩
  refine { hs with
    lastRecvpos_le := hrecvSeen
    lastFlushpos_le := hflushSeen
    reported := hflushed
    reports_le := ?_
    sound := And.intro ?_ ?_ }
  · intro r hr
    obtain hr | rfl := List.mem_append.mp hr |>.imp_right List.mem_singleton.mp
    · exact hle r hr
    · exact ⟨le_rfl, le_rfl, le_rfl⟩
  · intro r hr c hc
    obtain hr | rfl := List.mem_append.mp hr |>.imp_right List.mem_singleton.mp
    · exact hs.sound.1 r hr c hc
    · exact hflushed c hc
  · exact List.pairwise_append.mpr ⟨hs.sound.2, List.pairwise_singleton _ _, fun r hr r' hr' =>
      List.mem_singleton.mp hr' ▸ hle r hr⟩

theorem Worker.Consistent.sendFeedback (hrecv : recvpos ≤ s.seen) (hsafe : s.FeedbackSafe recvpos)
    (force : Bool) :
    (s.sendFeedback recvpos force).Consistent := by
  simp only [Worker.sendFeedback]
  split
  · exact hs.drain
  · refine hs.drain.report (le_max_right _ _) (le_max_right _ _) (le_max_right _ _)
      (max_le hrecv hs.lastRecvpos_le) (max_le (hs.flushpos_le hrecv) hs.lastFlushpos_le) ?_
    intro c hc hle
    obtain hle | hle := le_max_iff.mp hle
    · exact hs.flushed_of_le_flushpos hsafe hc hle
    · exact hs.reported c hc hle

end

theorem Worker.sendFeedback_frame (s : Worker) (recvpos : ℕ) (force : Bool) :
    (s.sendFeedback recvpos force).sessionOriginLsn = s.sessionOriginLsn ∧
      (s.sendFeedback recvpos force).seen = s.seen := by
  simp only [sendFeedback]
  split <;> exact ⟨rfl, rfl⟩

/-! ## Commits -/

theorem Worker.Ordered.commitLocally (hs : s.Ordered) {m : ℕ} (hm : s.Ahead m)
    (inQueuedDdl : Bool) : (s.commitLocally m inQueuedDdl).Ordered := by
  have hnew : ∀ c ∈ (s.commitLocally m inQueuedDdl).commits,
      c ∈ s.commits ∨ c = ⟨m, s.insertLsn + 1, inQueuedDdl⟩ := fun c hc =>
    (List.mem_append.mp hc).imp_right List.mem_singleton.mp
  refine { hs with
    flush_le := hs.flush_le.trans (Nat.le_succ _)
    lastCommit_le := le_rfl
    commit_le := ?_
    covers := ?_
    reported := ?_
    sound := And.intro ?_ hs.sound.2 }
  · intro c hc
    obtain hc | rfl := hnew c hc
    · exact ((hs.commit_le c hc).trans hs.lastCommit_le).trans (Nat.le_succ _)
    · exact le_rfl
  -- the new commit belongs to a transaction behind every association and report
  · intro e he c hc hle
    obtain hc | rfl := hnew c hc
    · exact hs.covers e he c hc hle
    · exact absurd (hm.association_lt e he) (not_lt.mpr hle)
  · intro c hc hle
    obtain hc | rfl := hnew c hc
    · exact hs.reported c hc hle
    · exact absurd hm.reports_lt (not_lt.mpr hle)
  · intro r hr c hc hle
    obtain hc | rfl := hnew c hc
    · exact hs.sound.1 r hr c hc hle
    · exact absurd hm.reports_lt (not_lt.mpr (hle.trans (hs.reports_le r hr).2.2))

theorem Worker.Ordered.associate (hs : s.Ordered) {m : ℕ} (hm : m ≤ s.seen) :
    (s.associate m).Consistent := by
  have hnew : ∀ e ∈ (s.associate m).lsnAssociation,
      e ∈ s.lsnAssociation ∨ e = ⟨s.xactLastCommitEnd, m⟩ := fun e he =>
    (List.mem_append.mp he).imp_right List.mem_singleton.mp
  refine { hs with
    association_le := ?_
    covers := ?_
    tracked := ?_ }
  · intro e he
    obtain he | rfl := hnew e he
    · exact hs.association_le e he
    · exact hm
  · intro e he c hc hle
    obtain he | rfl := hnew e he
    · exact hs.covers e he c hc hle
    · exact hs.commit_le c hc
  · intro c hc _
    exact .inr ⟨_, List.mem_append_right _ (List.mem_singleton_self _), hs.commit_le c hc⟩

theorem Worker.Consistent.processQueuedDdl (hs : s.Consistent) {m : ℕ}
    (hm : s.Ahead m) (commits : Bool) : (s.processQueuedDdl m commits).Consistent := by
  cases commits with
  | false => exact { hs with }
  | true =>
    refine { hs.toOrdered.commitLocally hm true with tracked := ?_ }
    intro c hc hddl
    obtain hc | hc := List.mem_append.mp hc
    · exact hs.tracked c hc hddl
    · -- the internal commit itself has no association
      rw [List.mem_singleton.mp hc] at hddl
      cases hddl

theorem Worker.Consistent.commitRemote (hs : s.Consistent) {m commitLsn : ℕ}
    (hm : s.Ahead m) (hseen : m ≤ s.seen) (hlsn : commitLsn < m) (wrote : Bool) :
    (s.commitRemote m commitLsn wrote).Consistent := by
  unfold Worker.commitRemote
  rw [if_neg hlsn.ne']
  split
  · cases wrote with
    | false => exact { hs.toOrdered.associate hseen with }
    | true => exact { (hs.toOrdered.commitLocally hm false).associate hseen with }
  · exact { hs with }

theorem Worker.Consistent.stopReplay (hs : s.Consistent) (commitEnd : ℕ) :
    (s.stopReplay commitEnd).Consistent := by
  unfold Worker.stopReplay
  split
  · exact { hs.flush hs.flush_le le_rfl with }
  · exact hs

theorem Worker.stopReplay_frame (s : Worker) (commitEnd : ℕ) :
    (s.stopReplay commitEnd).sessionOriginLsn = s.sessionOriginLsn := by
  unfold stopReplay
  split <;> rfl

/-! ## Runs -/

theorem Worker.Before.receive {lsn : ℕ} (hseen : s.Before s.seen)
    (hlsn : s.Before lsn) : (s.receive lsn).Before (s.receive lsn).seen :=
  fun m hm => max_lt (hseen m hm) (hlsn m hm)

theorem Worker.Inv.processRemoteAction {record : StreamRecord}
    {startLsn endLsn : ℕ} (hs : s.Inv) (hsafe : s.Safe (.data startLsn endLsn record))
    (hstep : (s.receive (max startLsn endLsn)).processRemoteAction record = some t) :
    t.Inv := by
  have hr := hs.1.receive (max startLsn endLsn)
  cases record with
  | begin commitEnd =>
    simp only [Worker.processRemoteAction, Option.ite_none_right_eq_some, Option.some.injEq]
      at hstep
    obtain ⟨-, rfl⟩ := hstep
    exact ⟨{ hr with }, fun m hm => Option.mem_some_iff.mp hm ▸ hsafe⟩
  | change =>
    simp only [Worker.processRemoteAction, Option.bind_eq_bind, Option.bind_eq_some_iff,
      Option.ite_none_right_eq_some, Option.some.injEq] at hstep
    obtain ⟨-, -, -, rfl⟩ := hstep
    exact ⟨{ hr with }, hs.2.receive hsafe⟩
  | queuedDdl commits =>
    simp only [Worker.processRemoteAction, Option.bind_eq_bind, Option.bind_eq_some_iff,
      Option.ite_none_right_eq_some, Option.some.injEq] at hstep
    obtain ⟨m, hm, -, rfl⟩ := hstep
    have hbefore := hs.2.receive hsafe
    refine ⟨hr.processQueuedDdl (hr.ahead (hbefore m hm)) commits, ?_⟩
    cases commits <;> exact hbefore
  | commit commitLsn commitEnd wrote =>
    simp only [Worker.processRemoteAction, Option.bind_eq_bind, Option.bind_eq_some_iff,
      Option.ite_none_right_eq_some, Option.some.injEq] at hstep
    obtain ⟨m, hm, ⟨rfl, hlsn⟩, rfl⟩ := hstep
    -- the header of COMMIT may name any position, so the bound is that of the state before
    have hahead : s.Ahead m := hs.1.ahead (hs.2 m hm)
    refine ⟨((hr.see m).commitRemote ⟨hahead.1, hahead.2⟩ (le_max_right _ _) hlsn
      wrote).stopReplay m, ?_⟩
    intro m' hm'
    rw [Worker.stopReplay_frame] at hm'
    cases hm'
  | message =>
    simp only [Worker.processRemoteAction, Option.ite_none_right_eq_some, Option.some.injEq]
      at hstep
    obtain ⟨-, rfl⟩ := hstep
    exact ⟨hr, hs.2.receive hsafe⟩

theorem Worker.Inv.sendFeedback (hs : s.Inv) {recvpos : ℕ}
    (hrecv : recvpos ≤ s.seen) (hsafe : s.FeedbackSafe recvpos) (force : Bool) :
    (s.sendFeedback recvpos force).Inv := by
  obtain ⟨horigin, hseen⟩ := s.sendFeedback_frame recvpos force
  refine ⟨hs.1.sendFeedback hrecv hsafe force, ?_⟩
  rw [Before, horigin, hseen]
  exact hs.2

theorem Worker.Inv.step {e : Event} (hs : s.Inv) (hsafe : s.Safe e)
    (hstep : s.step e = some t) : t.Inv := by
  cases e with
  | data startLsn endLsn record =>
    simp only [Worker.step, Option.ite_none_left_eq_some] at hstep
    exact hs.processRemoteAction hsafe hstep.2
  | keepalive endpos replyRequested =>
    simp only [Worker.step, Option.ite_none_left_eq_some, Option.some.injEq] at hstep
    obtain ⟨-, rfl⟩ := hstep
    have hsee : (s.see endpos).Inv :=
      ⟨hs.1.see endpos, fun m hm => max_lt (hs.2 m hm) (hsafe.1 m hm)⟩
    exact hsee.sendFeedback (le_max_right _ _) hsafe.2 replyRequested
  | feedback =>
    simp only [Worker.step, Option.ite_none_left_eq_some, Option.some.injEq] at hstep
    obtain ⟨-, rfl⟩ := hstep
    exact hs.sendFeedback hs.1.lastReceived_le hsafe false
  | flush lsn =>
    simp only [Worker.step, Option.ite_none_right_eq_some, Option.some.injEq] at hstep
    obtain ⟨⟨hflush, hinsert⟩, rfl⟩ := hstep
    exact ⟨hs.1.flush hflush hinsert, hs.2⟩
  | localWal size =>
    simp only [Worker.step, Option.some.injEq] at hstep
    subst hstep
    exact ⟨{ hs.1 with
      flush_le := hs.1.flush_le.trans (Nat.le_add_right _ _)
      lastCommit_le := hs.1.lastCommit_le.trans (Nat.le_add_right _ _) }, hs.2⟩

theorem Worker.inv_start (replayStopLsn : ℕ) : (start replayStopLsn).Inv := by
  refine ⟨⟨⟨le_rfl, le_rfl, le_rfl, le_rfl, le_rfl, ?_, ?_, ?_, ?_, ?_, ?_, ?_⟩, ?_⟩, ?_⟩ <;>
    simp [start, Before]

/-- The states of an apply worker whose events all meet `ok`. -/
def Worker.Reachable (ok : Worker → Event → Prop) : Worker → Prop :=
  Reach (fun s => ∃ replayStopLsn, s = start replayStopLsn) step ok

/-- **Feedback**: in every run in which no message before a COMMIT names the end of its
transaction, and in which a feedback without outstanding associations finds the commits made
inside queued DDL commands flushed, every reported flush position covers flushed commits only
and no reported position ever decreases. -/
theorem Worker.feedback_sound {s : Worker} (hs : Reachable Safe s) :
    s.FeedbackSound := by
  have hinv : s.Inv := Reach.invariant
    (fun s ⟨replayStopLsn, h⟩ => h ▸ inv_start replayStopLsn)
    (fun _ _ _ _ hi hok hstep => hi.step hok hstep) hs
  exact hinv.1.sound

/-- Two transactions, the second with a queued DDL command that commits by itself. Its
commit is flushed before the worker reports. -/
def flushedDdl : List Event :=
  [.data 1 1 (.begin 10), .data 2 2 .change, .keepalive 3 true, .data 9 9 (.commit 9 10 true),
    .feedback, .localWal 5, .flush 1, .feedback, .data 11 11 (.begin 20),
    .data 12 12 (.queuedDdl true), .data 19 19 (.commit 19 20 true), .flush 7,
    .keepalive 20 true]

theorem feedback_sound_flushedDdl :
    ∃ s, Worker.Reachable Worker.Safe s ∧ s.FeedbackSound ∧
      s.reports.map Report.flushpos = [3, 3, 9, 20] := by
  obtain ⟨s, hs, hreports⟩ := Reach.exists_of_run
    (.init ⟨0, rfl⟩ : Worker.Reachable Worker.Safe (Worker.start 0)) flushedDdl
    (fun s => s.reports.map Report.flushpos = [3, 3, 9, 20]) (by decide +kernel)
  exact ⟨s, hs, Worker.feedback_sound hs, hreports⟩

/-- A queued DDL command commits the local transaction, so COMMIT records no association,
and the next feedback reports the received position. -/
def unflushedDdl : List Event :=
  [.data 1 1 (.begin 10), .data 2 2 (.queuedDdl true), .data 9 10 (.commit 9 10 true), .feedback]

/-- The commit of the DDL command is not flushed, but the report covers its transaction. -/
theorem feedback_unsound :
    ∃ s, Worker.Reachable (fun _ _ => True) s ∧ ¬s.FeedbackSound ∧
      s.commits = [⟨10, 1, true⟩] ∧ s.reports = [⟨10, 10, 10, 0⟩] :=
  Reach.exists_of_run
    (.init ⟨0, rfl⟩ : Worker.Reachable (fun _ _ => True) (Worker.start 0)) unflushedDdl
    (fun s => ¬s.FeedbackSound ∧ s.commits = [⟨10, 1, true⟩] ∧ s.reports = [⟨10, 10, 10, 0⟩])
    (by decide +kernel)

end Pgactive.Feedback
