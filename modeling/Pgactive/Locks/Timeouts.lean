import Pgactive.Locks.Consistency
import Pgactive.Polling

/-!
# Timeouts of the global lock

`cancel_conflicting_transactions` and `pgactive_locks_check_dml` are to give up when a timeout is
over. Both compute the time and then compare it with the clock the wrong way round: they give up as
long as that time has not come yet.
-/

namespace Pgactive.Locks

open Polling

variable {ν χ : Type}

/-- The settings that the two functions read. Times are in milliseconds. -/
structure TimeoutSettings where
  /-- `pgactive_skip_ddl_replication`, which replay sets as well. -/
  skipDdlReplication : Bool
  ddlLockTimeout : ℤ
  lockTimeout : ℤ
  maxDdlLockDelay : ℤ
  maxStandbyStreamingDelay : ℤ

/-- A clock does not go back from one reading to a later one. -/
def Forward (clock : ℕ → ℤ) : Prop := ∀ ⦃i j⦄, i ≤ j → clock i ≤ clock j

/-- `DT_NOEND`, the time that never comes. -/
def noEnd : ℤ := 9223372036854775807

def timestampTzPlusMilliseconds (tz ms : ℤ) : ℤ := tz + ms * 1000

namespace TimeoutSettings

variable (cfg : TimeoutSettings)

def HasTimeout : Prop := 0 < cfg.ddlLockTimeout ∨ 0 < cfg.lockTimeout

instance : Decidable cfg.HasTimeout := inferInstanceAs (Decidable (_ ∨ _))

/-- The assignment of `canceltime`, which both functions make. -/
def cancelTime (now : ℤ) : ℤ :=
  if cfg.HasTimeout then
    timestampTzPlusMilliseconds now
      (if 0 < cfg.ddlLockTimeout then cfg.ddlLockTimeout else cfg.lockTimeout)
  else noEnd

def killTime (now : ℤ) : ℤ :=
  timestampTzPlusMilliseconds now
    (if 0 < cfg.maxDdlLockDelay then cfg.maxDdlLockDelay else cfg.maxStandbyStreamingDelay)

end TimeoutSettings

/-! ### Cancelling the writing transactions -/

/-- What is found at the process of a transaction that may conflict. -/
inductive ProcView
  | gone
  | readOnly
  | writing
  deriving DecidableEq

/-- What one turn of the loop meets. -/
structure CancelTurn (χ : Type) where
  proc : χ → ProcView
  /-- `CancelVirtualTransaction` finds a process to signal. -/
  signalled : χ → Bool
  interruptedWait : Bool
  interrupted : Bool

/-- How the function ends. -/
inductive CancelEnd
  /-- It returns `true`: no conflicting transaction is left. -/
  | finished
  /-- It returns `false`, after this reading of the clock. -/
  | gaveUp (reading : ℕ)
  | interrupted
  deriving DecidableEq

/-- The loop of `cancel_conflicting_transactions` from the turn `i` on, with the clock to be
read for the `k`-th time and some virtual transactions left. -/
def cancelLoop (clock : ℕ → ℤ) (cancelTime killTime : ℤ) (turns : ℕ → CancelTurn χ) :
    ℕ → ℕ → ℕ → List χ → Option CancelEnd
  | 0, _, _, _ => none
  | _ + 1, _, _, [] => some .finished
  | fuel + 1, i, k, conflict :: rest =>
    match (turns i).proc conflict with
    | .gone | .readOnly => cancelLoop clock cancelTime killTime turns fuel (i + 1) k rest
    | .writing =>
      if cancelTime ≠ noEnd ∧ clock k < cancelTime then some (.gaveUp k)
      else
        let k := if cancelTime ≠ noEnd then k + 1 else k
        if clock k < killTime then
          if (turns i).interruptedWait ∨ (turns i).interrupted then some .interrupted
          else cancelLoop clock cancelTime killTime turns fuel (i + 1) (k + 1) (conflict :: rest)
        else
          if (turns i).interrupted then some .interrupted
          else cancelLoop clock cancelTime killTime turns fuel (i + 1) (k + 1)
            (if (turns i).signalled conflict then conflict :: rest else rest)

/-- `cancel_conflicting_transactions`, with the readings of the clock and the transactions
that `GetConflictingVirtualXIDs` gives. The clock is read once for `killtime`, and once more
for `canceltime` if there is a timeout. -/
def cancelConflictingTransactions (cfg : TimeoutSettings) (clock : ℕ → ℤ)
    (turns : ℕ → CancelTurn χ) (conflicts : List χ) (fuel : ℕ) : Option CancelEnd :=
  cancelLoop clock (cfg.cancelTime (clock 1)) (cfg.killTime (clock 0)) turns fuel 0
    (if cfg.HasTimeout then 2 else 1) conflicts

def CancelsLate (cfg : TimeoutSettings) (clock : ℕ → ℤ) (turns : ℕ → CancelTurn χ)
    (conflicts : List χ) : Prop :=
  ∀ fuel k, cancelConflictingTransactions cfg clock turns conflicts fuel = some (.gaveUp k) →
    ∃ j ≤ k, cfg.cancelTime (clock 1) ≤ clock j

/-- One of the transactions has written something when the loop comes to it. -/
def MeetsWriter (turns : ℕ → CancelTurn χ) (conflicts : List χ) : Prop :=
  ∃ i conflict, conflicts[i]? = some conflict ∧ (turns i).proc conflict = .writing

section Cancel

variable {clock : ℕ → ℤ} {cancelTime killTime : ℤ} {turns : ℕ → CancelTurn χ}
variable {conflicts : List χ} {fuel i k j : ℕ}

theorem cancelLoop_writing {conflict : χ} {rest : List χ}
    (hproc : (turns i).proc conflict = .writing)
    (hgo : ¬(cancelTime ≠ noEnd ∧ clock k < cancelTime)) :
    cancelLoop clock cancelTime killTime turns (fuel + 1) i k (conflict :: rest) =
        some .interrupted ∨
      ∃ k' conflicts', k ≤ k' ∧
        cancelLoop clock cancelTime killTime turns (fuel + 1) i k (conflict :: rest) =
          cancelLoop clock cancelTime killTime turns fuel (i + 1) k' conflicts' := by
  have hread : k ≤ (if cancelTime ≠ noEnd then k + 1 else k) + 1 := by
    split_ifs <;> omega
  simp only [cancelLoop, hproc, if_neg hgo]
  split_ifs
  all_goals first
    | exact Or.inl rfl
    | exact Or.inr ⟨_, _, by omega, rfl⟩

theorem cancelLoop_gaveUp
    (h : cancelLoop clock cancelTime killTime turns fuel i k conflicts = some (.gaveUp j)) :
    k ≤ j ∧ cancelTime ≠ noEnd ∧ clock j < cancelTime := by
  induction fuel generalizing i k conflicts with
  | zero => cases h
  | succ fuel ih =>
    cases conflicts with
    | nil => cases h
    | cons conflict rest =>
      cases hproc : (turns i).proc conflict with
      | gone | readOnly =>
        simp only [cancelLoop, hproc] at h
        exact ih h
      | writing =>
        by_cases hbefore : cancelTime ≠ noEnd ∧ clock k < cancelTime
        · simp only [cancelLoop, hproc, if_pos hbefore] at h
          cases h
          exact ⟨Nat.le_refl _, hbefore⟩
        · rcases cancelLoop_writing hproc hbefore with hint | ⟨k', conflicts', hk', hgo⟩
          · rw [hint] at h
            cases h
          · rw [hgo] at h
            obtain ⟨hle, hrest⟩ := ih h
            exact ⟨by omega, hrest⟩

theorem cancelLoop_ne_gaveUp
    (hno : ∀ m conflict, conflicts[m]? = some conflict → (turns (i + m)).proc conflict ≠ .writing) :
    cancelLoop clock cancelTime killTime turns fuel i k conflicts ≠ some (.gaveUp j) := by
  induction fuel generalizing i conflicts with
  | zero => simp [cancelLoop]
  | succ fuel ih =>
    cases conflicts with
    | nil => simp [cancelLoop]
    | cons conflict rest =>
      have hfirst : (turns i).proc conflict ≠ .writing := hno 0 conflict rfl
      have htail : ∀ m c, rest[m]? = some c → (turns (i + 1 + m)).proc c ≠ .writing := by
        intro m c hc
        have hnext := hno (m + 1) c (by simpa using hc)
        rwa [show i + (m + 1) = i + 1 + m by omega] at hnext
      have hrest := ih htail
      rw [cancelLoop]
      cases hproc : (turns i).proc conflict with
      | writing => exact absurd hproc hfirst
      | gone => exact hrest
      | readOnly => exact hrest

theorem cancelLoop_of_writer {m : ℕ} {conflict : χ} (hm : conflicts[m]? = some conflict)
    (hwriting : (turns (i + m)).proc conflict = .writing)
    (hend : cancelTime ≠ noEnd) (hclock : clock k < cancelTime) :
    ∃ fuel, cancelLoop clock cancelTime killTime turns fuel i k conflicts = some (.gaveUp k) := by
  induction conflicts generalizing i m with
  | nil => simp at hm
  | cons first rest ih =>
    cases hproc : (turns i).proc first with
    | writing =>
      refine ⟨1, ?_⟩
      simp only [cancelLoop, hproc]
      rw [if_pos ⟨hend, hclock⟩]
    | gone | readOnly =>
      cases m with
      | zero =>
        obtain rfl : first = conflict := by simpa using hm
        simp [hproc] at hwriting
      | succ m =>
        have hwriting' : (turns (i + 1 + m)).proc conflict = .writing := by
          rwa [show i + 1 + m = i + (m + 1) by omega]
        obtain ⟨fuel, hfuel⟩ := ih (by simpa using hm) hwriting'
        refine ⟨fuel + 1, ?_⟩
        simp only [cancelLoop, hproc]
        exact hfuel

theorem TimeoutSettings.hasTimeout_of_cancelTime {cfg : TimeoutSettings} {now : ℤ}
    (h : cfg.cancelTime now ≠ noEnd) : cfg.HasTimeout := by
  by_contra hno
  exact h (if_neg hno)

theorem cancelsLate_iff {cfg : TimeoutSettings} (hclock : Forward clock) :
    CancelsLate cfg clock turns conflicts ↔
      (MeetsWriter turns conflicts → cfg.cancelTime (clock 1) = noEnd ∨
        cfg.cancelTime (clock 1) ≤ clock 2) := by
  constructor
  · rintro hlate ⟨m, conflict, hm, hwriting⟩
    by_contra hearly
    obtain ⟨hend, hbefore⟩ := not_or.mp hearly
    rw [Int.not_le] at hbefore
    have htimeout := TimeoutSettings.hasTimeout_of_cancelTime hend
    have hwriting' : (turns (0 + m)).proc conflict = .writing := by rwa [Nat.zero_add]
    obtain ⟨fuel, hfuel⟩ := cancelLoop_of_writer hm hwriting' hend hbefore
    obtain ⟨j, hj, hreached⟩ := hlate fuel 2 (by
      rw [cancelConflictingTransactions, if_pos htimeout]
      exact hfuel)
    have hmono := hclock hj
    omega
  · intro hcond fuel k hgave
    obtain ⟨hk, hend, hbefore⟩ := cancelLoop_gaveUp hgave
    rw [if_pos (TimeoutSettings.hasTimeout_of_cancelTime hend)] at hk
    by_cases hmeets : MeetsWriter turns conflicts
    · rcases hcond hmeets with hnever | hreached
      · exact absurd hnever hend
      · exact ⟨2, hk, hreached⟩
    · refine absurd hgave (cancelLoop_ne_gaveUp fun m conflict hm hwriting => hmeets ?_)
      rw [Nat.zero_add] at hwriting
      exact ⟨m, conflict, hm, hwriting⟩

end Cancel

/-! ### Waiting for a peer that holds a write lock -/

/-- What a call of `pgactive_locks_check_dml` meets. -/
structure DmlSchedule (ν : Type) where
  thisXactAcquiredLock : Bool
  /-- `locked_and_loaded` at the turns of the first loop. -/
  loaded : ℕ → Bool
  loadInterrupts : ℕ → Bool
  /-- The state of the lock when it is looked at: first before the wait, then once in each
  turn of it. -/
  locks : ℕ → LocksDb ν
  interrupts : ℕ → Bool
  clock : ℕ → ℤ

/-- How the call ends. -/
inductive DmlEnd
  | disabled
  | returned (view : ℕ)
  | lockTimeout (reading : ℕ)
  | interrupted
  deriving DecidableEq

namespace DmlSchedule

variable (sched : DmlSchedule ν)

def blocked (view : ℕ) : Bool := (sched.locks view).peerHasLock sched.thisXactAcquiredLock .write

/-- A turn of the loop that waits until the locks are loaded: `true` once they are, `false` for
an interrupt. -/
def loadTurn (n : ℕ) : Option Bool :=
  if sched.loaded n then some true else if sched.loadInterrupts n then some false else none

def waitTurn (cancelTime : ℤ) (n : ℕ) : Option DmlEnd :=
  if cancelTime ≠ noEnd ∧ sched.clock (n + 1) < cancelTime then some (.lockTimeout (n + 1))
  else if sched.blocked (n + 1) = false then some (.returned (n + 1))
  else if sched.interrupts n then some .interrupted
  else none

end DmlSchedule

/-- `pgactive_locks_check_dml`, with at most `fuel` turns of each loop. -/
def checkDml (cfg : TimeoutSettings) (sched : DmlSchedule ν) (fuel : ℕ) : Option DmlEnd :=
  if cfg.skipDdlReplication then some .disabled
  else
    match poll sched.loadTurn fuel 0 with
    | none => none
    | some (_, false) => some .interrupted
    | some (_, true) =>
      if sched.blocked 0 then
        (poll (sched.waitTurn (cfg.cancelTime (sched.clock 0))) fuel 0).map Prod.snd
      else some (.returned 0)

def TimesOutLate (cfg : TimeoutSettings) (sched : DmlSchedule ν) : Prop :=
  ∀ fuel k, checkDml cfg sched fuel = some (.lockTimeout k) →
    ∃ j ≤ k, cfg.cancelTime (sched.clock 0) ≤ sched.clock j

/-- The call returns only when no peer holds a write lock, or when checks are disabled. -/
structure ReturnsUnlocked (cfg : TimeoutSettings) (sched : DmlSchedule ν) : Prop where
  disabled : ∀ fuel, checkDml cfg sched fuel = some .disabled → cfg.skipDdlReplication = true
  returned : ∀ fuel n, checkDml cfg sched fuel = some (.returned n) → sched.blocked n = false

/-- The call comes to the point where it finds a write lock of a peer. -/
def MeetsLock (cfg : TimeoutSettings) (sched : DmlSchedule ν) : Prop :=
  cfg.skipDdlReplication = false ∧ sched.blocked 0 = true ∧
    ∃ n, sched.loaded n = true ∧ ∀ m < n, sched.loadInterrupts m = false

section Dml

variable {cfg : TimeoutSettings} {sched : DmlSchedule ν} {fuel k n : ℕ} {cancelTime : ℤ}

theorem DmlSchedule.waitTurn_eq_lockTimeout
    (h : sched.waitTurn cancelTime n = some (.lockTimeout k)) :
    k = n + 1 ∧ cancelTime ≠ noEnd ∧ sched.clock k < cancelTime := by
  unfold waitTurn at h
  split_ifs at h with hbefore <;> cases h
  exact ⟨rfl, hbefore⟩

theorem DmlSchedule.waitTurn_eq_returned {view : ℕ}
    (h : sched.waitTurn cancelTime n = some (.returned view)) : sched.blocked view = false := by
  unfold waitTurn at h
  split_ifs at h with hbefore hfree <;> cases h
  exact hfree

theorem DmlSchedule.loaded_of_poll (h : poll sched.loadTurn fuel 0 = some (n, true)) :
    sched.loaded n = true ∧ ∀ m < n, sched.loadInterrupts m = false := by
  obtain ⟨-, -, hload, hbefore⟩ := poll_eq_some_iff.mp h
  constructor
  · unfold loadTurn at hload
    split_ifs at hload with hloaded <;> simp_all
  · intro m hm
    have hnone := hbefore m (Nat.zero_le m) hm
    unfold loadTurn at hnone
    split_ifs at hnone with hloaded hint
    simpa using hint

theorem checkDml_cases {e : DmlEnd} (h : checkDml cfg sched fuel = some e) :
    (cfg.skipDdlReplication = true ∧ e = .disabled) ∨ e = .interrupted ∨
      (sched.blocked 0 = false ∧ e = .returned 0) ∨
      (MeetsLock cfg sched ∧
        ∃ n, sched.waitTurn (cfg.cancelTime (sched.clock 0)) n = some e) := by
  by_cases hskip : cfg.skipDdlReplication = true
  · rw [checkDml, if_pos hskip] at h
    exact Or.inl ⟨hskip, (Option.some.inj h).symm⟩
  rw [checkDml, if_neg hskip] at h
  cases hload : poll sched.loadTurn fuel 0 with
  | none => simp [hload] at h
  | some loaded =>
    obtain ⟨m, ok⟩ := loaded
    cases ok with
    | false =>
      simp only [hload] at h
      exact Or.inr (Or.inl (Option.some.inj h).symm)
    | true =>
      simp only [hload] at h
      cases hblocked : sched.blocked 0 with
      | false =>
        rw [hblocked] at h
        exact Or.inr (Or.inr (Or.inl ⟨rfl, (Option.some.inj h).symm⟩))
      | true =>
        rw [hblocked, if_pos rfl] at h
        obtain ⟨⟨n, e'⟩, hturn, rfl⟩ := Option.map_eq_some_iff.mp h
        obtain ⟨hloaded, hbefore⟩ := DmlSchedule.loaded_of_poll hload
        exact Or.inr (Or.inr (Or.inr ⟨⟨by simpa using hskip, hblocked, m, hloaded, hbefore⟩, n,
          (poll_eq_none_of_some hturn).2⟩))

theorem returnsUnlocked (cfg : TimeoutSettings) (sched : DmlSchedule ν) :
    ReturnsUnlocked cfg sched := by
  constructor
  · intro fuel h
    rcases checkDml_cases h with ⟨hskip, -⟩ | hint | ⟨-, hret⟩ | ⟨-, n, hturn⟩
    · exact hskip
    · cases hint
    · cases hret
    · unfold DmlSchedule.waitTurn at hturn
      split_ifs at hturn <;> cases hturn
  · intro fuel view h
    rcases checkDml_cases h with ⟨-, hdis⟩ | hint | ⟨hfree, hret⟩ | ⟨-, n, hturn⟩
    · cases hdis
    · cases hint
    · cases hret
      exact hfree
    · exact DmlSchedule.waitTurn_eq_returned hturn

theorem checkDml_of_meetsLock (hmeets : MeetsLock cfg sched)
    (hend : cfg.cancelTime (sched.clock 0) ≠ noEnd)
    (hbefore : sched.clock 1 < cfg.cancelTime (sched.clock 0)) :
    ∃ fuel, checkDml cfg sched fuel = some (.lockTimeout 1) := by
  obtain ⟨hskip, hblocked, n, hloaded, hload⟩ := hmeets
  -- The first turn at which the locks are loaded ends the first loop.
  obtain ⟨m, hm, hmin⟩ : ∃ m, sched.loaded m = true ∧ ∀ i < m, sched.loaded i = false ∧
      sched.loadInterrupts i = false := by
    have hex : ∃ m, sched.loaded m = true := ⟨n, hloaded⟩
    refine ⟨Nat.find hex, Nat.find_spec hex, fun i hi => ?_⟩
    have hnot := Nat.find_min hex hi
    have hle := Nat.find_min' hex hloaded
    exact ⟨by simpa using hnot, hload i (by omega)⟩
  have hpoll : poll sched.loadTurn (m + 1) 0 = some (m, true) := by
    apply poll_eq_some_iff.mpr
    refine ⟨Nat.zero_le m, by omega, by simp [DmlSchedule.loadTurn, hm], fun i _ hi => ?_⟩
    simp [DmlSchedule.loadTurn, hmin i hi]
  have hturn : sched.waitTurn (cfg.cancelTime (sched.clock 0)) 0 = some (.lockTimeout 1) :=
    if_pos ⟨hend, hbefore⟩
  have hwait : poll (sched.waitTurn (cfg.cancelTime (sched.clock 0))) (m + 1) 0 =
      some (0, .lockTimeout 1) := by
    simp [poll, hturn]
  exact ⟨m + 1, by simp [checkDml, hskip, hpoll, hblocked, hwait]⟩

theorem timesOutLate_iff (hclock : Forward sched.clock) :
    TimesOutLate cfg sched ↔
      (MeetsLock cfg sched → cfg.cancelTime (sched.clock 0) = noEnd ∨
        cfg.cancelTime (sched.clock 0) ≤ sched.clock 1) := by
  constructor
  · intro hlate hmeets
    by_contra hearly
    obtain ⟨hend, hbefore⟩ := not_or.mp hearly
    rw [Int.not_le] at hbefore
    obtain ⟨fuel, hfuel⟩ := checkDml_of_meetsLock hmeets hend hbefore
    obtain ⟨j, hj, hreached⟩ := hlate fuel 1 hfuel
    have hmono := hclock hj
    omega
  · intro hcond fuel k h
    rcases checkDml_cases h with ⟨-, hdis⟩ | hint | ⟨-, hret⟩ | ⟨hmeets, n, hturn⟩
    · cases hdis
    · cases hint
    · cases hret
    · obtain ⟨rfl, hend, -⟩ := DmlSchedule.waitTurn_eq_lockTimeout hturn
      rcases hcond hmeets with hnever | hreached
      · exact absurd hnever hend
      · exact ⟨1, by omega, hreached⟩

end Dml

/-- **Lock timeouts.** Both functions give up too early whenever there is something to wait for
and the timeout is not over at the first look at the clock. A write goes on only when no peer
holds a write lock. -/
theorem lock_timeouts {cfg : TimeoutSettings} {clock : ℕ → ℤ} {turns : ℕ → CancelTurn χ}
    {conflicts : List χ} {sched : DmlSchedule ν} (hclock : Forward clock)
    (hsched : Forward sched.clock) :
    (CancelsLate cfg clock turns conflicts ↔
      (MeetsWriter turns conflicts → cfg.cancelTime (clock 1) = noEnd ∨
        cfg.cancelTime (clock 1) ≤ clock 2)) ∧
    (TimesOutLate cfg sched ↔
      (MeetsLock cfg sched → cfg.cancelTime (sched.clock 0) = noEnd ∨
        cfg.cancelTime (sched.clock 0) ≤ sched.clock 1)) ∧
    ReturnsUnlocked cfg sched :=
  ⟨cancelsLate_iff hclock, timesOutLate_iff hsched, returnsUnlocked cfg sched⟩

def oneSecond : TimeoutSettings := ⟨false, 1000, 0, 60000, 30000⟩

def steadyClock (k : ℕ) : ℤ := 100 * k

theorem steadyClock_forward : Forward steadyClock := by
  intro a b hab
  unfold steadyClock
  omega

def oneWriter : ℕ → CancelTurn Unit := fun _ => ⟨fun _ => .writing, fun _ => true, false, false⟩

def heldByPeer : DmlSchedule ℕ where
  thisXactAcquiredLock := false
  loaded _ := true
  loadInterrupts _ := false
  locks _ := ⟨2, true, 1, some 7, none, .write, .peerConfirmed, 0, 0, 0, none⟩
  interrupts _ := false
  clock := steadyClock

theorem lock_timeouts_oneSecond :
    Forward steadyClock ∧ ¬CancelsLate oneSecond steadyClock oneWriter [()] ∧
      ¬TimesOutLate oneSecond heldByPeer := by
  obtain ⟨hcancel, hdml, -⟩ : (CancelsLate oneSecond steadyClock oneWriter [()] ↔ _) ∧
      (TimesOutLate oneSecond heldByPeer ↔ _) ∧ _ :=
    lock_timeouts steadyClock_forward steadyClock_forward
  refine ⟨steadyClock_forward, fun hlate => ?_, fun hlate => ?_⟩
  · have hcond := hcancel.mp hlate ⟨0, (), rfl, rfl⟩
    revert hcond
    decide
  · have hcond := hdml.mp hlate ⟨rfl, rfl, 0, rfl, fun m hm => by omega⟩
    revert hcond
    decide

/-- With a timeout of one second both functions give up after a fraction of a millisecond. -/
theorem lock_timeouts_at_once :
    cancelConflictingTransactions oneSecond steadyClock oneWriter [()] 1 = some (.gaveUp 2) ∧
      (∀ j ≤ 2, steadyClock j < oneSecond.cancelTime (steadyClock 1)) ∧
      checkDml oneSecond heldByPeer 1 = some (.lockTimeout 1) ∧
      ∀ j ≤ 1, heldByPeer.clock j < oneSecond.cancelTime (heldByPeer.clock 0) := by
  decide

end Pgactive.Locks
