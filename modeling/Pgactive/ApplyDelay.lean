import Pgactive.Polling
import Mathlib.Algebra.Group.Int.Defs

/-!
# Delaying the changes of a peer

`process_remote_begin` waits until the commit of a remote transaction is `apply_delay` old. A commit
that is in the future of the local clock is to be reported, but the difference of the two times is
taken in the wrong order there, and `TimestampDifference` does not give negative differences.
-/

namespace Pgactive.ApplyDelay

open Polling

/-- A reading of the local clock, in microseconds from 2000 on. -/
structure Reading where
  current : Int64
  /-- `MIN_TIMESTAMP`. -/
  ge : -211813488000000000 ≤ current.toInt
  /-- `END_TIMESTAMP`. -/
  lt : current.toInt < 9223371331200000000

/-- A delay that is waited for, in milliseconds. -/
structure Delay where
  applyDelay : Int32
  pos : 0 < applyDelay.toInt

def timestampDifference (start stop : Int64) : ℤ × ℤ :=
  let diff := (stop - start).toInt
  if diff ≤ 0 then (0, 0) else (diff / 1000000, diff % 1000000)

/-- The warnings of a pass of the loop. -/
inductive DelayWarning
  /-- "clock skew detected: node … clock is ahead of local clock by at least … seconds". -/
  | clockSkew (sec msec : ℤ)
  /-- "ignoring absurd remote commit timestamp and/or apply_delay". -/
  | absurdTimestamp
deriving DecidableEq

/-- What a pass of the loop does. -/
structure Pass where
  warnings : List DelayWarning
  /-- The milliseconds that it waits for; without them it ends the loop. -/
  wait : Option ℤ
deriving DecidableEq

def maxDelaySec : ℤ := 2146483

/-- A pass of the loop in `process_remote_begin`. -/
def delayPass (applyDelay : Int32) (originTimestamp current : Int64) : Pass :=
  if current < originTimestamp then
    let (sec, usec) := timestampDifference originTimestamp current
    ⟨if sec > 1 then [.clockSkew sec (usec / 1000)] else [], some applyDelay.toInt⟩
  else
    let current := current + (-applyDelay).toInt64 * 1000
    let (sec, usec) := timestampDifference current originTimestamp
    if sec ≥ maxDelaySec then ⟨[.absurdTimestamp], none⟩
    else
      let delayMs := sec * 1000 + usec / 1000
      ⟨[], if delayMs = 0 then none else some delayMs⟩

variable (delay : Delay) (originTimestamp : Int64) (clock : ℕ → Reading)

def delayLoop (fuel : ℕ) : Option (ℕ × Unit) :=
  poll (fun n => if (delayPass delay.applyDelay originTimestamp (clock n).current).wait.isNone
    then some () else none) fuel 0

/-- The microseconds from a reading to the time when the transaction is due. -/
def remaining (current : Int64) : ℤ :=
  originTimestamp.toInt + delay.applyDelay.toInt * 1000 - current.toInt

/-- The loop ends only when the transaction is due but for less than a millisecond, or when it is
due too late to wait for. -/
def EndsDue : Prop :=
  ∀ fuel n, delayLoop delay originTimestamp clock fuel = some (n, ()) →
    remaining delay originTimestamp (clock n).current < 1000 ∨
      maxDelaySec * 1000000 ≤ remaining delay originTimestamp (clock n).current

/-- The commit is at least two seconds ahead of the clock. -/
def Skewed (current : Int64) : Prop := 2000000 ≤ originTimestamp.toInt - current.toInt

def WarnsOfSkew : Prop :=
  ∀ n, delayLoop delay originTimestamp clock n = none →
    Skewed originTimestamp (clock n).current →
      ∃ sec msec, .clockSkew sec msec ∈
        (delayPass delay.applyDelay originTimestamp (clock n).current).warnings

variable {delay : Delay} {originTimestamp : Int64} {clock : ℕ → Reading}

theorem toInt_sub_eq (a b : Int64) : (a - b).toInt = a.toInt - b.toInt ∨
    (a - b).toInt = a.toInt - b.toInt + 2 ^ 64 ∧ a.toInt - b.toInt < -2 ^ 63 ∨
    (a - b).toInt = a.toInt - b.toInt - 2 ^ 64 ∧ 2 ^ 63 ≤ a.toInt - b.toInt := by
  have ha := a.toInt_lt
  have ha' := a.le_toInt
  have hb := b.toInt_lt
  have hb' := b.le_toInt
  rw [Int64.toInt_sub, Int.bmod_def]
  split_ifs <;> omega

theorem toInt_shifted (delay : Delay) (r : Reading) :
    (r.current + (-delay.applyDelay).toInt64 * 1000).toInt =
      r.current.toInt - delay.applyDelay.toInt * 1000 := by
  have hle := delay.applyDelay.toInt_lt
  have hpos := delay.pos
  have hge := r.ge
  have hlt := r.lt
  have hneg : (-delay.applyDelay).toInt = -delay.applyDelay.toInt := by
    rw [Int32.toInt_neg, Int.bmod_def]
    split_ifs <;> omega
  have hmul : ((-delay.applyDelay).toInt64 * 1000).toInt = -delay.applyDelay.toInt * 1000 := by
    have h1000 : (1000 : Int64).toInt = 1000 := by decide
    rw [Int64.toInt_mul, Int32.toInt_toInt64, hneg, h1000, Int.bmod_def]
    split_ifs <;> omega
  rw [Int64.toInt_add, hmul, Int.bmod_def]
  split_ifs <;> omega

theorem timestampDifference_fst_gt_iff {start stop : Int64} {n : ℤ} (hn : 0 < n) :
    n ≤ (timestampDifference start stop).1 ↔ n * 1000000 ≤ (stop - start).toInt := by
  unfold timestampDifference
  dsimp only
  split_ifs with h
  · dsimp only
    omega
  · dsimp only
    omega

theorem clockSkew_mem_iff {current : Int64} (h : Skewed originTimestamp current) :
    (∃ sec msec, .clockSkew sec msec ∈
        (delayPass delay.applyDelay originTimestamp current).warnings) ↔
      2 ^ 63 < originTimestamp.toInt - current.toInt ∧
        originTimestamp.toInt - current.toInt ≤ 2 ^ 64 - 2000000 := by
  have hlt : current < originTimestamp := by
    rw [Int64.lt_iff_toInt_lt]
    unfold Skewed at h
    omega
  have hwarns : 1 < (timestampDifference originTimestamp current).1 ↔
      2000000 ≤ (current - originTimestamp).toInt :=
    timestampDifference_fst_gt_iff (n := 2) (by decide)
  unfold Skewed at h
  have hsub := toInt_sub_eq current originTimestamp
  have hbound := (current - originTimestamp).le_toInt
  have hpass : (delayPass delay.applyDelay originTimestamp current).warnings =
      if 1 < (timestampDifference originTimestamp current).1 then
        [.clockSkew (timestampDifference originTimestamp current).1
          ((timestampDifference originTimestamp current).2 / 1000)] else [] := by
    rw [delayPass, if_pos hlt]
  rw [hpass]
  split_ifs with hsec
  · have hdiff := hwarns.mp hsec
    refine iff_of_true ⟨_, _, List.mem_singleton_self _⟩ ?_
    omega
  · have hdiff := mt hwarns.mpr hsec
    refine iff_of_false (by simp) ?_
    omega

theorem due_of_ended {r : Reading}
    (h : (delayPass delay.applyDelay originTimestamp r.current).wait.isNone = true) :
    remaining delay originTimestamp r.current < 1000 ∨
      maxDelaySec * 1000000 ≤ remaining delay originTimestamp r.current := by
  have hdelay := delay.applyDelay.toInt_lt
  have hshifted := toInt_shifted delay r
  have hsub := toInt_sub_eq originTimestamp (r.current + (-delay.applyDelay).toInt64 * 1000)
  unfold remaining
  unfold delayPass at h
  split_ifs at h with hfuture
  · cases h
  rw [Int64.lt_iff_toInt_lt] at hfuture
  dsimp only at h
  split_ifs at h with habsurd hzero
  · have hlarge := (timestampDifference_fst_gt_iff (by decide : (0 : ℤ) < maxDelaySec)).mp habsurd
    omega
  · unfold timestampDifference at hzero
    dsimp only at hzero
    split_ifs at hzero with hdiff
    · omega
    · dsimp only at hzero
      omega
  · cases h

/-- The loop waits for the delay, but it warns of a skew only if that overflows a difference. -/
theorem delayLoop_iff (delay : Delay) (originTimestamp : Int64) (clock : ℕ → Reading) :
    EndsDue delay originTimestamp clock ∧ WarnsOfSkew delay originTimestamp clock ↔
      ∀ n, delayLoop delay originTimestamp clock n = none →
        Skewed originTimestamp (clock n).current →
          2 ^ 63 < originTimestamp.toInt - (clock n).current.toInt ∧
            originTimestamp.toInt - (clock n).current.toInt ≤ 2 ^ 64 - 2000000 := by
  have hends : EndsDue delay originTimestamp clock := by
    intro fuel n hloop
    obtain ⟨-, -, hn, -⟩ := poll_eq_some_iff.mp hloop
    split_ifs at hn with hended
    exact due_of_ended hended
  rw [and_iff_right hends]
  exact forall₃_congr fun n _ hskewed => clockSkew_mem_iff hskewed

def stoppedClock (_ : ℕ) : Reading := ⟨0, by decide, by decide⟩

def shortDelay : Delay := ⟨1, by decide⟩

theorem delayPass_stoppedClock :
    Skewed 5000000 (stoppedClock 0).current ∧
      delayPass shortDelay.applyDelay 5000000 (stoppedClock 0).current = ⟨[], some 1⟩ := by
  unfold Skewed
  decide

end Pgactive.ApplyDelay
