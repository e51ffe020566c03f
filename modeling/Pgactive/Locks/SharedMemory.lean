import Pgactive.CLayout

/-!
# The shared memory of the global lock

`pgactive_locks_shmem_startup` places the states and the waiters behind the header, but adds numbers
of bytes to pointers that count whole states and whole waiters. The waiters then always end behind
the segment.
-/

namespace Pgactive.Locks

open CLayout

/-- The scalar types of the platform that the structs of `pgactive_locks.c` use. -/
structure Abi where
  bool : CType
  /-- `RepOriginId`. -/
  uint16 : CType
  int : CType
  /-- `Oid`. -/
  uint32 : CType
  enum : CType
  /-- `XLogRecPtr`. -/
  uint64 : CType
  pointer : CType
  /-- Greatest value of `Size`. -/
  sizeMax : ℕ

def lp64 : Abi where
  bool := ⟨1, 1, by decide, by decide⟩
  uint16 := ⟨2, 2, by decide, by decide⟩
  int := ⟨4, 4, by decide, by decide⟩
  uint32 := ⟨4, 4, by decide, by decide⟩
  enum := ⟨4, 4, by decide, by decide⟩
  uint64 := ⟨8, 8, by decide, by decide⟩
  pointer := ⟨8, 8, by decide, by decide⟩
  sizeMax := 18446744073709551615

namespace Abi

variable (abi : Abi)

def slistNode : CType := struct abi.pointer []

def lockWaiter : CType := struct abi.pointer [abi.slistNode]

/-- `pgactiveLocksDBState`: `in_use`, `dboid`, `nnodes`, `locked_and_loaded`, `lockcount`,
`lock_holder`, `lock_holder_local_pid`, `lock_type`, `lock_state`, `acquire_confirmed`,
`acquire_declined`, `replay_confirmed`, `replay_confirmed_lsn`, `requestor`, `waiters`. -/
def locksDBState : CType :=
  struct abi.bool [abi.uint32, abi.int, abi.bool, abi.int, abi.uint16, abi.int, abi.enum,
    abi.enum, abi.int, abi.int, abi.int, abi.uint64, abi.pointer, abi.slistNode]

def locksCtl : CType := struct abi.pointer [abi.pointer, abi.pointer]

def addSize (a b : ℕ) : Option ℕ := if a + b ≤ abi.sizeMax then some (a + b) else none

def mulSize (a b : ℕ) : Option ℕ := if a * b ≤ abi.sizeMax then some (a * b) else none

def locksShmemSize (maxDatabases totalProcs : ℕ) : Option ℕ := do
  let size ← abi.addSize 0 abi.locksCtl.size
  let size ← abi.addSize size (← abi.mulSize abi.locksDBState.size maxDatabases)
  abi.addSize size (← abi.mulSize abi.lockWaiter.size totalProcs)

end Abi

/-- The segment and what is placed in it. -/
structure LocksSegment where
  /-- What `ShmemInitStruct` reserves. -/
  segment : Region
  ctl : Region
  dbstate : Region
  waiters : Region

/-- `pgactive_locks_shmem_startup`, for a segment that `ShmemInitStruct` places at `base`. -/
def locksShmemStartup (abi : Abi) (base maxDatabases totalProcs : ℕ) : Option LocksSegment := do
  let size ← abi.locksShmemSize maxDatabases totalProcs
  let states ← abi.mulSize abi.locksDBState.size maxDatabases
  let dbstate := abi.locksDBState.add base abi.locksCtl.size
  let waiters := abi.lockWaiter.add (abi.lockWaiter.add base abi.locksCtl.size) states
  return {
    segment := ⟨base, size⟩
    ctl := ⟨base, abi.locksCtl.size⟩
    dbstate := abi.locksDBState.array dbstate maxDatabases
    waiters := abi.lockWaiter.array waiters totalProcs }

/-- The arrays are inside of the segment and share no byte with each other or the header. -/
structure LocksSegment.WellPlaced (s : LocksSegment) : Prop where
  dbstate_inside : s.dbstate.bytes ⊆ s.segment.bytes
  waiters_inside : s.waiters.bytes ⊆ s.segment.bytes
  arrays_disjoint : Disjoint s.dbstate.bytes s.waiters.bytes
  dbstate_disjoint : Disjoint s.ctl.bytes s.dbstate.bytes
  waiters_disjoint : Disjoint s.ctl.bytes s.waiters.bytes

section Placement

variable {abi : Abi} {base maxDatabases totalProcs : ℕ}

theorem Abi.addSize_eq_some {a b n : ℕ} (h : abi.addSize a b = some n) : n = a + b := by
  unfold addSize at h
  split_ifs at h
  exact (Option.some.inj h).symm

theorem Abi.mulSize_eq_some {a b n : ℕ} (h : abi.mulSize a b = some n) : n = a * b := by
  unfold mulSize at h
  split_ifs at h
  exact (Option.some.inj h).symm

theorem Abi.locksShmemSize_eq_some {size : ℕ}
    (h : abi.locksShmemSize maxDatabases totalProcs = some size) :
    size = abi.locksCtl.size + abi.locksDBState.size * maxDatabases +
      abi.lockWaiter.size * totalProcs := by
  simp only [locksShmemSize, Option.bind_eq_bind, Option.bind_eq_some_iff] at h
  obtain ⟨ctl, hctl, states, hstates, size', hsize', waiters, hwaiters, hsize⟩ := h
  have hctl := addSize_eq_some hctl
  have hstates := mulSize_eq_some hstates
  have hsize' := addSize_eq_some hsize'
  have hwaiters := mulSize_eq_some hwaiters
  have hsize := addSize_eq_some hsize
  omega

theorem locksShmemStartup_eq_some {s : LocksSegment}
    (h : locksShmemStartup abi base maxDatabases totalProcs = some s) :
    s.segment = ⟨base, abi.locksCtl.size + abi.locksDBState.size * maxDatabases +
        abi.lockWaiter.size * totalProcs⟩ ∧
      s.ctl = ⟨base, abi.locksCtl.size⟩ ∧
      s.dbstate = ⟨base + abi.locksCtl.size * abi.locksDBState.size,
        maxDatabases * abi.locksDBState.size⟩ ∧
      s.waiters = ⟨base + abi.locksCtl.size * abi.lockWaiter.size +
        abi.locksDBState.size * maxDatabases * abi.lockWaiter.size,
        totalProcs * abi.lockWaiter.size⟩ := by
  simp only [locksShmemStartup, Option.bind_eq_bind, Option.bind_eq_some_iff] at h
  obtain ⟨size, hsize, states, hstates, h⟩ := h
  obtain rfl := Abi.locksShmemSize_eq_some hsize
  obtain rfl := Abi.mulSize_eq_some hstates
  cases h
  exact ⟨rfl, rfl, rfl, rfl⟩

theorem Abi.two_le_lockWaiter (abi : Abi) : 2 ≤ abi.lockWaiter.size := by
  have hproc := abi.pointer.size_pos
  have hnode := abi.slistNode.size_pos
  have hfields := sum_le_size_struct abi.pointer [abi.slistNode]
  simp only [List.map_cons, List.map_nil, List.sum_cons, List.sum_nil] at hfields
  unfold lockWaiter
  omega

/-- **The waiters never fit.** On every platform, for every number of databases and every
positive number of processes, the array of waiters ends behind the segment. -/
theorem locksShmemStartup_not_wellPlaced {s : LocksSegment} (hprocs : 1 ≤ totalProcs)
    (h : locksShmemStartup abi base maxDatabases totalProcs = some s) :
    s.segment.start + s.segment.length < s.waiters.start + s.waiters.length ∧
      ¬s.WellPlaced := by
  obtain ⟨hsegment, -, -, hwaiters⟩ := locksShmemStartup_eq_some h
  have htwo := abi.two_le_lockWaiter
  have hctl := abi.locksCtl.size_pos
  -- The offset of the waiters is that of a correct layout times the size of a waiter.
  have hscaled : 2 * (abi.locksCtl.size + abi.locksDBState.size * maxDatabases) ≤
      abi.locksCtl.size * abi.lockWaiter.size +
        abi.locksDBState.size * maxDatabases * abi.lockWaiter.size := by
    rw [← Nat.add_mul, Nat.mul_comm 2]
    exact Nat.mul_le_mul_left _ htwo
  have hend : s.segment.start + s.segment.length < s.waiters.start + s.waiters.length := by
    rw [hsegment, hwaiters]
    simp only [Nat.mul_comm totalProcs]
    omega
  refine ⟨hend, fun hwell => ?_⟩
  have hlen : 0 < s.waiters.length := by
    rw [hwaiters]
    exact Nat.mul_pos hprocs abi.lockWaiter.size_pos
  exact Region.not_bytes_subset hlen hend hwell.waiters_inside

theorem locksShmemStartup_not_wellPlaced_lp64 :
    ∃ s, locksShmemStartup lp64 4096 1 1 = some s ∧ ¬s.WellPlaced := by
  have h : locksShmemStartup lp64 4096 1 1 = some _ := rfl
  exact ⟨_, h, (locksShmemStartup_not_wellPlaced (Nat.le_refl 1) h).2⟩

/-- With five databases and 120 processes no waiter at all is in the segment. -/
theorem locksShmemStartup_waiters_outside :
    ∃ s, locksShmemStartup lp64 4096 5 120 = some s ∧
      s.segment = ⟨4096, 2304⟩ ∧ s.waiters = ⟨10240, 1920⟩ ∧ ¬s.WellPlaced := by
  refine ⟨_, rfl, rfl, rfl, fun hwell => ?_⟩
  exact Region.not_bytes_subset (by decide) (by decide) hwell.waiters_inside

end Placement

end Pgactive.Locks
