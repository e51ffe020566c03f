import Pgactive.FallibleState
import Pgactive.Locks.Timeouts
import Pgactive.SinglyLinked
import Pgactive.Transition
import Mathlib.Data.Fintype.Card

/-!
# Waiting for the release of a lock

A backend that meets a lock of a peer puts its entry of an array into the list of its database, and
`pgactive_locks_on_unlock` sets the latches of the entries in the list and empties it. An entry
stays in the list when its process stops to wait, and the test for the lock and the registration are
two steps. So an entry can get into the lists of two databases, and into the list of a free lock.
-/

namespace Pgactive.Locks

open SinglyLinked Transition

variable {δ ν : Type} [DecidableEq δ] {n : ℕ}

/-- The lists of waiters. The `proc` of an entry is the process of that number. -/
structure Waiters (δ : Type) (n : ℕ) where
  /-- `waiters` in `pgactiveLocksDBState`. -/
  head : δ → Option (Fin n)
  /-- `node` in `pgactiveLockWaiter`. -/
  next : Fin n → Option (Fin n)

/-- `pgactive_locks_addwaiter`, if the search in the list ends. -/
def Waiters.addwaiter (w : Waiters δ n) (d : δ) (p : Fin n) : Option (Waiters δ n) :=
  (walk w.next n (w.head d)).map fun l =>
    if p ∈ l then w
    else ⟨Function.update w.head d (some p), Function.update w.next p (w.head d)⟩

/-- How `pgactive_locks_on_unlock` can fail to return. -/
inductive Stuck
  | outOfFuel
  /-- "cycle detected in DDL lock waiter linked list". -/
  | panic
deriving DecidableEq

/-- The loop of `pgactive_locks_on_unlock`: the processes whose latches it sets. -/
def unlockLoop (next : Fin n → Option (Fin n)) : ℕ → Option (Fin n) → Except Stuck (List (Fin n))
  | _, none => .ok []
  | 0, some _ => .error .outOfFuel
  | fuel + 1, some p =>
    if next p = some p then .error .panic else (p :: ·) <$> unlockLoop next fuel (next p)

/-- `pgactive_locks_on_unlock`, with the latches that it sets. -/
def Waiters.onUnlock (w : Waiters δ n) (d : δ) : Except Stuck (Waiters δ n × List (Fin n)) :=
  (fun latches => ({ w with head := Function.update w.head d none }, latches)) <$>
    unlockLoop w.next n (w.head d)

/-! ### Lists that share no entry -/

/-- The lists, and the processes that have registered since the last release. The program does not
record these. -/
structure Registry (δ : Type) (n : ℕ) extends Waiters δ n where
  registered : δ → List (Fin n)

inductive WaiterAction (δ : Type) (n : ℕ)
  | addwaiter (d : δ) (p : Fin n)
  /-- The process stops to wait, by an error or its exit. Its entry may get another process. -/
  | leave (p : Fin n)
  | onUnlock (d : δ)

def Registry.register (r : Registry δ n) (d : δ) (p : Fin n) : δ → List (Fin n) :=
  Function.update r.registered d
    (if p ∈ r.registered d then r.registered d else p :: r.registered d)

def Registry.step (r : Registry δ n) : WaiterAction δ n → Option (Registry δ n)
  | .addwaiter d p => (r.toWaiters.addwaiter d p).map fun w => ⟨w, r.register d p⟩
  | .leave _ => some r
  | .onUnlock d =>
    match r.toWaiters.onUnlock d with
    | .ok (w, _) => some ⟨w, Function.update r.registered d []⟩
    | .error _ => none

def Registry.empty : Registry δ n := ⟨⟨fun _ => none, fun _ => none⟩, fun _ => []⟩

def Waiters.Lists (w : Waiters δ n) (d : δ) (l : List (Fin n)) : Prop :=
  Chain w.next (w.head d) l

/-- The lists are acyclic and share no entry, and each release would wake the processes that have
registered for it, each once, and empty the list. -/
structure Registry.Proper (r : Registry δ n) : Prop where
  acyclic : ∀ d, ∃ l, r.Lists d l
  disjoint : ∀ d d' l l', d ≠ d' → r.Lists d l → r.Lists d' l' → l.Disjoint l'
  unlocks : ∀ d, ∃ w latches, r.toWaiters.onUnlock d = .ok (w, latches) ∧ w.head d = none ∧
    latches.Nodup ∧ ∀ p, p ∈ latches ↔ p ∈ r.registered d

def KeepsToOneList (x : Registry δ n × WaiterAction δ n × Registry δ n) : Prop :=
  ∀ d p, x.2.1 = .addwaiter d p → ∀ d' l, d' ≠ d → x.1.Lists d' l → p ∉ l

/-- The lists are those of the registered processes. -/
structure Registry.Tracks (r : Registry δ n) : Prop where
  lists : ∀ d, r.Lists d (r.registered d)
  disjoint : ∀ d d', d ≠ d' → (r.registered d).Disjoint (r.registered d')

variable {l : List (Fin n)}

theorem unlockLoop_of_chain {next : Fin n → Option (Fin n)} {head : Option (Fin n)}
    {fuel : ℕ} (h : Chain next head l) (hfuel : l.length ≤ fuel) :
    unlockLoop next fuel head = .ok l := by
  induction fuel generalizing head l with
  | zero =>
    obtain rfl := List.eq_nil_of_length_eq_zero (Nat.le_zero.mp hfuel)
    obtain rfl : head = none := h
    rfl
  | succ fuel ih =>
    cases l with
    | nil =>
      obtain rfl : head = none := h
      rfl
    | cons p l =>
      obtain rfl := h.1
      rw [unlockLoop, if_neg h.next_ne_self, ih h.2 (Nat.le_of_succ_le_succ hfuel)]
      rfl

omit [DecidableEq δ] in
theorem Waiters.Lists.length_le {w : Waiters δ n} {d : δ} (h : w.Lists d l) : l.length ≤ n := by
  simpa using h.nodup.length_le_card

theorem Waiters.Lists.onUnlock {w : Waiters δ n} {d : δ} (h : w.Lists d l) :
    w.onUnlock d = .ok ({ w with head := Function.update w.head d none }, l) := by
  rw [Waiters.onUnlock, unlockLoop_of_chain h h.length_le]
  rfl

theorem Waiters.Lists.addwaiter {w : Waiters δ n} {d : δ} (h : w.Lists d l)
    (p : Fin n) : w.addwaiter d p = some (if p ∈ l then w
      else ⟨Function.update w.head d (some p), Function.update w.next p (w.head d)⟩) := by
  rw [Waiters.addwaiter, walk_eq_some_iff.mpr ⟨h, h.length_le⟩]
  rfl

variable {r r' : Registry δ n} {d : δ} {p : Fin n}

theorem Registry.Tracks.proper (h : r.Tracks) : r.Proper where
  acyclic d := ⟨_, h.lists d⟩
  disjoint d d' l l' hne hl hl' := by
    rw [hl.unique (h.lists d), hl'.unique (h.lists d')]
    exact h.disjoint d d' hne
  unlocks d := ⟨_, _, (h.lists d).onUnlock, Function.update_self .., (h.lists d).nodup,
    fun _ => Iff.rfl⟩

theorem Registry.Tracks.step_addwaiter (h : r.Tracks) (d : δ) (p : Fin n) :
    r.step (.addwaiter d p) = some ⟨if p ∈ r.registered d then r.toWaiters
      else ⟨Function.update r.head d (some p), Function.update r.next p (r.head d)⟩,
      r.register d p⟩ := by
  rw [Registry.step, (h.lists d).addwaiter]
  rfl

theorem Registry.register_of_mem (hp : p ∈ r.registered d) : r.register d p = r.registered := by
  rw [Registry.register, if_pos hp, Function.update_eq_self]

theorem Registry.Tracks.lists_addwaiter (h : r.Tracks) (hp : p ∉ r.registered d)
    (hstep : r.step (.addwaiter d p) = some r') :
    r'.Lists d (p :: r.registered d) ∧ ∀ d', d' ≠ d →
      (p ∉ r.registered d' → r'.Lists d' (r.registered d')) ∧
      ∀ a b, r.registered d' = a ++ p :: b → r'.Lists d' (a ++ p :: r.registered d) := by
  rw [h.step_addwaiter, if_neg hp] at hstep
  cases hstep
  refine ⟨?_, fun d' hd' => ⟨fun hp' => ?_, fun a b hab => ?_⟩⟩
  · simp only [Waiters.Lists, Function.update_self]
    exact (h.lists d).push hp
  · simp only [Waiters.Lists, Function.update_of_ne hd']
    exact (h.lists d').update_of_notMem hp'
  · have hlists := h.lists d'
    rw [hab] at hlists
    simp only [Waiters.Lists, Function.update_of_ne hd']
    exact hlists.redirect (h.lists d) hp

theorem Registry.Tracks.addwaiter (h : r.Tracks) (hone : ∀ d', d' ≠ d → p ∉ r.registered d')
    (hstep : r.step (.addwaiter d p) = some r') : r'.Tracks := by
  by_cases hp : p ∈ r.registered d
  · rw [h.step_addwaiter, if_pos hp, Registry.register_of_mem hp] at hstep
    cases hstep
    exact h
  · obtain ⟨hd, hother⟩ := h.lists_addwaiter hp hstep
    have hreg : r'.registered = Function.update r.registered d (p :: r.registered d) := by
      rw [h.step_addwaiter] at hstep
      cases hstep
      simp only [Registry.register, if_neg hp]
    constructor
    · intro d'
      rw [hreg]
      by_cases hd' : d' = d
      · rw [hd', Function.update_self]
        exact hd
      · rw [Function.update_of_ne hd']
        exact (hother d' hd').1 (hone d' hd')
    · have hnew : ∀ d', d' ≠ d → (p :: r.registered d).Disjoint (r.registered d') := fun d' hd' =>
        List.disjoint_cons_left.mpr ⟨hone d' hd', h.disjoint d d' (Ne.symm hd')⟩
      intro d₁ d₂ hne
      rw [hreg]
      by_cases h₁ : d₁ = d
      · rw [h₁, Function.update_self, Function.update_of_ne (h₁ ▸ Ne.symm hne)]
        exact hnew d₂ (h₁ ▸ Ne.symm hne)
      · rw [Function.update_of_ne h₁]
        by_cases h₂ : d₂ = d
        · rw [h₂, Function.update_self]
          exact (hnew d₁ h₁).symm
        · rw [Function.update_of_ne h₂]
          exact h.disjoint d₁ d₂ hne

theorem Registry.Tracks.onUnlock (h : r.Tracks) (hstep : r.step (.onUnlock d) = some r') :
    r'.Tracks := by
  simp only [Registry.step, (h.lists d).onUnlock, Option.some.injEq] at hstep
  obtain rfl := hstep
  have hsub : ∀ d', Function.update r.registered d [] d' ⊆ r.registered d' := by
    intro d'
    by_cases hd' : d' = d
    · simp [hd']
    · rw [Function.update_of_ne hd']
      exact List.Subset.refl _
  constructor
  · intro d'
    by_cases hd' : d' = d
    · simp [Waiters.Lists, hd', Chain]
    · simpa only [Waiters.Lists, Function.update_of_ne hd'] using h.lists d'
  · exact fun d₁ d₂ hne => fun p h₁ h₂ => h.disjoint d₁ d₂ hne (hsub d₁ h₁) (hsub d₂ h₂)

theorem Registry.Tracks.not_proper {d' : δ} (h : r.Tracks) (hd' : d' ≠ d)
    (hp' : p ∈ r.registered d') (hstep : r.step (.addwaiter d p) = some r') : ¬r'.Proper := by
  intro hproper
  have hp : p ∉ r.registered d := fun hp => h.disjoint d' d hd' hp' hp
  obtain ⟨a, b, hab⟩ := List.append_of_mem hp'
  obtain ⟨hd, hother⟩ := h.lists_addwaiter hp hstep
  have hshared := (hother d' hd').2 a b hab
  exact hproper.disjoint d' d _ _ hd' hshared hd (by simp) List.mem_cons_self

omit [DecidableEq δ] in
theorem Registry.Tracks.keepsToOneList_iff (h : r.Tracks) {a : WaiterAction δ n} :
    KeepsToOneList (r, a, r') ↔ ∀ d p, a = .addwaiter d p → ∀ d', d' ≠ d → p ∉ r.registered d' := by
  constructor
  · intro hkeeps d p ha d' hd'
    exact hkeeps d p ha d' _ hd' (h.lists d')
  · intro hkeeps d p ha d' l hd' hl
    rw [hl.unique (h.lists d')]
    exact hkeeps d p ha d' hd'

theorem Registry.Tracks.step (h : r.Tracks) {a : WaiterAction δ n} (hstep : r.step a = some r')
    (hkeeps : KeepsToOneList (r, a, r')) : r'.Tracks := by
  rw [h.keepsToOneList_iff] at hkeeps
  cases a with
  | addwaiter d p => exact h.addwaiter (hkeeps d p rfl) hstep
  | leave p =>
    cases hstep
    exact h
  | onUnlock d => exact h.onUnlock hstep

theorem Registry.Tracks.proper_iff (h : r.Tracks) {a : WaiterAction δ n}
    (hstep : r.step a = some r') : r'.Proper ↔ KeepsToOneList (r, a, r') := by
  constructor
  · intro hproper
    rw [h.keepsToOneList_iff]
    rintro d p rfl d' hd' hp'
    exact h.not_proper hd' hp' hstep hproper
  · exact fun hkeeps => (h.step hstep hkeeps).proper

/-- The lists stay proper along a run exactly if no entry is registered while it is in the list of
another database. -/
theorem waiters_proper_iff (as : List (WaiterAction δ n)) :
    (∀ x ∈ trace Registry.step (Registry.empty : Registry δ n) as, x.2.2.Proper) ↔
      ∀ x ∈ trace Registry.step (Registry.empty : Registry δ n) as, KeepsToOneList x := by
  have hempty : (Registry.empty : Registry δ n).Tracks :=
    ⟨fun _ => rfl, fun _ _ _ => List.disjoint_nil_left _⟩
  exact forall_trace_iff (I := Registry.Tracks) (P := fun x => x.2.2.Proper) (Q := KeepsToOneList)
    (fun _ _ _ h hstep => h.proper_iff hstep)
    (fun _ _ _ h hstep hproper => h.step hstep ((h.proper_iff hstep).mp hproper)) hempty as

/-- Two processes wait on the first database, one stops to, and its entry is registered on the
second. -/
def reusedEntry (first second : Fin 2) : List (WaiterAction Bool 2) :=
  [.addwaiter false first, .addwaiter false second, .leave second, .addwaiter true second]

theorem onUnlock_reusedEntry :
    (run Registry.step (fun _ _ => True) .empty (reusedEntry 1 0)).map
        (fun r => r.registered false) = some [0, 1] ∧
      ((run Registry.step (fun _ _ => True) .empty (reusedEntry 1 0)).map fun r =>
        (r.toWaiters.onUnlock false).map Prod.snd) = some (.ok [0]) :=
  ⟨rfl, rfl⟩

/-! ### The list of a free lock -/

/-- Where a process is in `pgactive_locks_check_dml`, with its database. -/
inductive DmlPc (δ : Type)
  | idle
  | blocked (d : δ)
  | waiting (d : δ)

structure DmlSystem (δ ν : Type) (n : ℕ) where
  locks : δ → LocksDb ν
  waiters : Waiters δ n
  pc : Fin n → DmlPc δ

inductive DmlAction (δ ν : Type) (n : ℕ)
  /-- A section under the control lock that does not release: an acquisition here or by a peer, the
  startup, or anything else that does not bring `lockcount` to 0. -/
  | change (d : δ) (db : LocksDb ν)
  /-- The section of a release, at the end of a transaction, for a release message or for the
  startup message of a peer. -/
  | release (d : δ) (db : LocksDb ν)
  /-- The first test of a process, with its `this_xact_acquired_lock`. -/
  | test (p : Fin n) (d : δ) (thisXactAcquiredLock : Bool)
  /-- `pgactive_locks_addwaiter`. -/
  | register (p : Fin n)
  | look (p : Fin n) (thisXactAcquiredLock : Bool)
  /-- The lock timeout, a cancellation or the exit of the process. -/
  | stop (p : Fin n)

variable {s t : DmlSystem δ ν n} {db : LocksDb ν}

def DmlSystem.setPc (s : DmlSystem δ ν n) (p : Fin n) (pc : DmlPc δ) : DmlSystem δ ν n :=
  { s with pc := Function.update s.pc p pc }

def DmlSystem.setLocks (s : DmlSystem δ ν n) (d : δ) (db : LocksDb ν) : DmlSystem δ ν n :=
  { s with locks := Function.update s.locks d db }

def DmlSystem.unlock (s : DmlSystem δ ν n) (d : δ) : Option (DmlSystem δ ν n) :=
  if (s.locks d).lockcount = 0 then
    match s.waiters.onUnlock d with
    | .ok (w, _) => some { s with waiters := w }
    | .error _ => none
  else some s

def DmlSystem.step (s : DmlSystem δ ν n) : DmlAction δ ν n → Option (DmlSystem δ ν n)
  | .change d db =>
    if db.lockcount = 0 → (s.locks d).lockcount = 0 then some (s.setLocks d db) else none
  | .release d db =>
    if db.lockcount = (if 0 < (s.locks d).lockcount then (s.locks d).lockcount - 1
        else (s.locks d).lockcount) then
      (s.setLocks d db).unlock d
    else none
  | .test p d acquired =>
    match s.pc p with
    | .idle => some (if (s.locks d).peerHasLock acquired .write then s.setPc p (.blocked d) else s)
    | _ => none
  | .register p =>
    match s.pc p with
    | .blocked d =>
      (s.waiters.addwaiter d p).map fun w => { s.setPc p (.waiting d) with waiters := w }
    | _ => none
  | .look p acquired =>
    match s.pc p with
    | .waiting d => some (if (s.locks d).peerHasLock acquired .write then s else s.setPc p .idle)
    | _ => none
  | .stop p => some (s.setPc p .idle)

/-- Nobody waits on a free lock, as `pgactive_acquire_ddl_lock` asserts. -/
def DmlSystem.FreeUnwaited (s : DmlSystem δ ν n) : Prop :=
  ∀ d, (s.locks d).lockcount = 0 → s.waiters.head d = none

def RegistersHeld (x : DmlSystem δ ν n × DmlAction δ ν n × DmlSystem δ ν n) : Prop :=
  ∀ p d, x.2.1 = .register p → x.1.pc p = .blocked d → (x.1.locks d).lockcount ≠ 0

theorem Waiters.head_addwaiter {w w' : Waiters δ n} (h : w.addwaiter d p = some w') :
    w'.head d ≠ none ∧ ∀ d', d' ≠ d → w'.head d' = w.head d' := by
  obtain ⟨l, hwalk, rfl⟩ := Option.map_eq_some_iff.mp h
  obtain ⟨hchain, -⟩ := walk_eq_some_iff.mp hwalk
  split_ifs with hp
  · refine ⟨fun hnone => ?_, fun _ _ => rfl⟩
    rw [hnone] at hchain
    rw [hchain.unique (show Chain w.next none [] from rfl)] at hp
    cases hp
  · exact ⟨by simp, fun d' hd' => Function.update_of_ne hd' ..⟩

theorem Waiters.head_onUnlock {w w' : Waiters δ n} {latches : List (Fin n)}
    (h : w.onUnlock d = .ok (w', latches)) : w'.head = Function.update w.head d none := by
  obtain ⟨_, -, hw⟩ := FallibleState.except_map_eq_ok.mp h
  obtain ⟨rfl, -⟩ := Prod.mk.inj hw
  rfl

theorem DmlSystem.FreeUnwaited.unlock (h : ∀ d', d' ≠ d → (s.locks d').lockcount = 0 →
    s.waiters.head d' = none) (hstep : s.unlock d = some t) : t.FreeUnwaited := by
  intro d' hfree
  unfold DmlSystem.unlock at hstep
  split_ifs at hstep with hcount
  · cases hunlock : s.waiters.onUnlock d with
    | error e => simp [hunlock] at hstep
    | ok found =>
      obtain ⟨w, latches⟩ := found
      simp only [hunlock, Option.some.injEq] at hstep
      obtain rfl := hstep
      rw [Waiters.head_onUnlock hunlock]
      by_cases hd' : d' = d
      · rw [hd', Function.update_self]
      · rw [Function.update_of_ne hd']
        exact h d' hd' hfree
  · cases hstep
    by_cases hd' : d' = d
    · exact absurd (hd' ▸ hfree) hcount
    · exact h d' hd' hfree

theorem DmlSystem.FreeUnwaited.step_iff (h : s.FreeUnwaited) {a : DmlAction δ ν n}
    (hstep : s.step a = some t) : t.FreeUnwaited ↔ RegistersHeld (s, a, t) := by
  have hother : (∀ p, a ≠ .register p) → t.FreeUnwaited →
      (t.FreeUnwaited ↔ RegistersHeld (s, a, t)) := fun ha ht =>
    iff_of_true ht fun p _ hp => absurd hp (ha p)
  have hset : ∀ d db d', d' ≠ d → ((s.setLocks d db).locks d').lockcount = 0 →
      s.waiters.head d' = none := by
    intro d db d' hd' hfree
    simp only [DmlSystem.setLocks, Function.update_of_ne hd'] at hfree
    exact h d' hfree
  cases a with
  | change d db =>
    refine hother (by simp) ?_
    simp only [DmlSystem.step, Option.ite_none_right_eq_some, Option.some.injEq] at hstep
    obtain ⟨hcount, rfl⟩ := hstep
    intro d' hfree
    by_cases hd' : d' = d
    · subst hd'
      simp only [DmlSystem.setLocks, Function.update_self] at hfree
      exact h d' (hcount hfree)
    · exact hset d db d' hd' hfree
  | release d db =>
    refine hother (by simp) ?_
    simp only [DmlSystem.step, Option.ite_none_right_eq_some] at hstep
    exact .unlock (hset d db) hstep.2
  | test p d acquired =>
    refine hother (by simp) ?_
    simp only [DmlSystem.step] at hstep
    split at hstep
    · cases hstep
      split_ifs <;> exact h
    · cases hstep
  | register p =>
    simp only [DmlSystem.step] at hstep
    split at hstep
    · next d hpc =>
      obtain ⟨w, hadd, rfl⟩ := Option.map_eq_some_iff.mp hstep
      obtain ⟨hd, hkeep⟩ := Waiters.head_addwaiter hadd
      constructor
      · rintro ht p' d' hp' hpc' hfree
        obtain rfl := DmlAction.register.inj hp'
        obtain rfl := DmlPc.blocked.inj (hpc.symm.trans hpc')
        exact hd (ht d hfree)
      · intro hheld d' hfree
        by_cases hd' : d' = d
        · exact absurd (hd' ▸ hfree) (hheld p d rfl hpc)
        · exact (hkeep d' hd').trans (h d' hfree)
    · cases hstep
  | look p acquired =>
    refine hother (by simp) ?_
    simp only [DmlSystem.step] at hstep
    split at hstep
    · cases hstep
      split_ifs <;> exact h
    · cases hstep
  | stop p =>
    refine hother (by simp) ?_
    cases hstep
    exact h

def DmlSystem.start (locks : δ → LocksDb ν) : DmlSystem δ ν n :=
  ⟨locks, ⟨fun _ => none, fun _ => none⟩, fun _ => .idle⟩

/-- Nobody waits on a free lock along a run exactly if no process registers after the lock that it
has found was released. -/
theorem freeUnwaited_iff (locks : δ → LocksDb ν) (as : List (DmlAction δ ν n)) :
    (∀ x ∈ trace DmlSystem.step (DmlSystem.start locks) as, x.2.2.FreeUnwaited) ↔
      ∀ x ∈ trace DmlSystem.step (DmlSystem.start locks) as, RegistersHeld x := by
  have hstart : (DmlSystem.start locks : DmlSystem δ ν n).FreeUnwaited := fun _ _ => rfl
  exact forall_trace_iff (I := DmlSystem.FreeUnwaited) (P := fun x => x.2.2.FreeUnwaited)
    (Q := RegistersHeld) (fun _ _ _ h hstep => h.step_iff hstep)
    (fun _ _ _ _ _ ht => ht) hstart as

def peerLock : LocksDb ℕ :=
  { LocksDb.unlocked ℕ 2 with lockcount := 1, lockHolder := some 1, lockType := .write }

def lateRegistration : List (DmlAction Unit ℕ 1) :=
  [.test 0 () false, .release () (LocksDb.unlocked ℕ 2), .register 0]

theorem head_lateRegistration :
    (run DmlSystem.step (fun _ _ => True) (.start fun _ => peerLock) lateRegistration).map
      (fun s => ((s.locks ()).lockcount, s.waiters.head ())) = some (0, some 0) :=
  rfl

end Pgactive.Locks
