import Pgactive.Transition
import Pgactive.BroadcastLog
import Mathlib.Data.Fintype.Pi

/-!
# The logical join of a node

The dump has what the target has committed or replayed when the slot on it is made. The catchup
forwards what comes afterwards, up to a position of the target's WAL. Then the new node replays each
peer through a slot that was made before the catchup ended, from where the catchup has advanced the
origin to. In between the global DDL lock is acquired on the target, unless
`pgactive.skip_ddl_replication` is set.
-/

namespace Pgactive.Replica

open BroadcastLog

variable {ν : Type}

/-- What a node replicates. The answers to lock requests are those to the target. -/
inductive Entry
  | transaction
  | confirmLock
deriving DecidableEq

/-- A record in the WAL of the target. -/
inductive WalRecord (ν : Type)
  /-- The commit of an own transaction or of a replayed one, by its number at the origin. -/
  | commit (origin : ν) (index : ℕ)
  | other

def WalRecord.committed : WalRecord ν → Option (ν × ℕ)
  | .commit p k => some (p, k)
  | .other => none

def commits (wal : List (WalRecord ν)) : List (ν × ℕ) := wal.filterMap WalRecord.committed

/-- How far `pgactive_init_replica` has come. -/
inductive Phase
  /-- Status `i`. -/
  | beginningInit
  /-- The slot on the target exists, and `pgactive_init_make_other_slots` makes the others. -/
  | makingSlots
  /-- The target waits for the answers to its lock request, `acquire_confirmed` so far. -/
  | lockRequested (confirmed : ℕ)
  /-- The call of `pgactive_acquire_global_lock` has returned. -/
  | lockReturned
  /-- The catchup worker replays up to this position of the WAL of the target. -/
  | catchup (stopLsn : ℕ)
  /-- Status `o`. -/
  | creatingOutboundSlots
  | applying
deriving DecidableEq

def Phase.confirm : Phase → Phase
  | .lockRequested n => .lockRequested (n + 1)
  | phase => phase

def Phase.requesting : Phase → Bool
  | .lockRequested _ => true
  | _ => false

/-- How a transaction comes to the new node. -/
inductive Way
  | dump
  | catchup
  | slot
deriving DecidableEq

/-- The nodes with a role in the join, and the setting that all nodes share. -/
structure Setup (ν : Type) where
  target : ν
  joining : ν
  skipDdlReplication : Bool
  ne : target ≠ joining

def Setup.IsPeer (g : Setup ν) (p : ν) : Prop := p ≠ g.target ∧ p ≠ g.joining

/-- The state of the group during a join. -/
structure System (ν : Type) where
  /-- What each node replicates of its own, with the positions of the target and, in its own
  slots, of the new node. -/
  net : Net ν Entry
  wal : List (WalRecord ν)
  /-- The lock requests of the target that a node has not answered. -/
  asked : ν → ℕ
  /-- How far the join has come. -/
  phase : Phase
  slot : ν → Bool
  /-- The positions of the replication origins of the new node. -/
  origin : ν → ℕ
  walPos : ℕ
  /-- What has been committed on the new node, oldest first. -/
  reflected : List (Way × ν × ℕ)

/-- How often a transaction has been committed on the new node. -/
def System.reflections [DecidableEq ν] (s : System ν) (p : ν) (k : ℕ) : ℕ :=
  (s.reflected.map Prod.snd).count (p, k)

/-- A group without any transaction, before the join. -/
def System.start : System ν :=
  ⟨Net.empty, [], fun _ => 0, .beginningInit, fun _ => false, fun _ => 0, 0, []⟩

/-- A step of the group. -/
inductive Action (ν : Type)
  | commit (p : ν)
  | otherRecord
  /-- A session of the target requests the lock and gives up. -/
  | abandonedRequest
  /-- A peer answers a lock request of the target. -/
  | confirmLock (p : ν)
  /-- The target replays what comes next from a peer. -/
  | replay (p : ν)
  /-- `pgactive_establish_connection_and_slot` on the target, and the dump. -/
  | establishSlot
  /-- `pgactive_init_make_other_slots`, one slot. -/
  | makeOtherSlot (p : ν)
  /-- `pgactive_ddl_lock_remote` calls `pgactive_acquire_global_lock` on the target. -/
  | acquireGlobalLock
  | lockAcquired
  | getRemoteLsn
  /-- The catchup worker takes the next record. -/
  | catchup
  | maintainDbWorkers
  /-- The apply worker for a node replays what comes next from it. -/
  | apply (p : ν)

section

variable [DecidableEq ν]

instance (g : Setup ν) (p : ν) : Decidable (g.IsPeer p) := inferInstanceAs (Decidable (_ ∧ _))

variable (g : Setup ν) (s : System ν)

/-- A commit on the target, also that of `perform_pointless_transaction`, goes to its WAL. The
new node is read-only. -/
def System.commit (p : ν) : Option (System ν) :=
  if p = g.joining then none
  else if p = g.target then
    some { s with
      net := s.net.append p [.transaction]
      wal := s.wal ++ [.commit p (s.net.log p).length] }
  else some { s with net := s.net.append p [.transaction] }

def System.abandonedRequest : Option (System ν) :=
  if s.phase.requesting then none else some { s with asked := fun p => s.asked p + 1 }

def System.confirmLock (p : ν) : Option (System ν) :=
  if g.IsPeer p ∧ 0 < s.asked p then
    some { s with
      net := s.net.append p [.confirmLock]
      asked := Function.update s.asked p (s.asked p - 1) }
  else none

def System.replay (p : ν) : Option (System ν) :=
  if g.IsPeer p then
    match s.net.next g.target p with
    | some .transaction => some { s with
        net := s.net.advance g.target p
        wal := s.wal ++ [.commit p (s.net.pos g.target p)] }
    | some .confirmLock => some { s with
        net := s.net.advance g.target p
        phase := s.phase.confirm }
    | none => none
  else none

def System.establishSlot : Option (System ν) :=
  if s.phase = .beginningInit then
    some { s with
      net := s.net.seek g.joining g.target (s.net.log g.target).length
      slot := Function.update s.slot g.target true
      walPos := s.wal.length
      reflected := (commits s.wal).map (Prod.mk .dump)
      phase := .makingSlots }
  else none

def System.makeOtherSlot (p : ν) : Option (System ν) :=
  if s.phase = .makingSlots ∧ p ≠ g.joining ∧ s.slot p = false then
    some { s with
      net := s.net.seek g.joining p (s.net.log p).length
      slot := Function.update s.slot p true }
  else none

def System.getRemoteLsn : Option (System ν) :=
  if s.phase = .lockReturned then some { s with phase := .catchup s.wal.length } else none

/-- The replay of one record in catchup mode. After a commit, `process_remote_commit` advances
the replication origin of the node that the transaction is from, and stops once the end of the
commit has reached `replay_stop_lsn`. -/
def System.catchup : Option (System ν) :=
  match s.phase, s.wal[s.walPos]? with
  | .catchup stopLsn, some (.commit p k) => some { s with
      walPos := s.walPos + 1
      origin := Function.update s.origin p (max (s.origin p) (k + 1))
      reflected := s.reflected ++ [(.catchup, p, k)]
      phase := if stopLsn ≤ s.walPos + 1 then .creatingOutboundSlots else .catchup stopLsn }
  | .catchup _, some .other => some { s with walPos := s.walPos + 1 }
  | _, _ => none

/-- Each apply worker starts at the position of the replication origin, or where its slot was
made if that is later. -/
def System.maintainDbWorkers : Option (System ν) :=
  if s.phase = .creatingOutboundSlots then
    some { s with
      net := ⟨s.net.log, Function.update s.net.pos g.joining fun p =>
        max (s.net.pos g.joining p) (s.origin p)⟩
      phase := .applying }
  else none

def System.apply (p : ν) : Option (System ν) :=
  if s.phase = .applying ∧ p ≠ g.joining then
    match s.net.next g.joining p with
    | some .transaction => some { s with
        net := s.net.advance g.joining p
        reflected := s.reflected ++ [(.slot, p, s.net.pos g.joining p)] }
    | some .confirmLock => some { s with net := s.net.advance g.joining p }
    | none => none
  else none

variable {g : Setup ν} {s s' : System ν} {p : ν}

theorem System.commit_cases (h : s.commit g p = some s') :
    p ≠ g.joining ∧ s' = { s with
      net := s.net.append p [.transaction]
      wal := s.wal ++ if p = g.target then [.commit p (s.net.log p).length] else [] } := by
  unfold commit at h
  split_ifs at h with hj ht
  · exact ⟨hj, by rw [if_pos ht]; exact (Option.some.inj h).symm⟩
  · exact ⟨hj, by rw [if_neg ht, List.append_nil]; exact (Option.some.inj h).symm⟩

theorem System.replay_cases (h : s.replay g p = some s') :
    g.IsPeer p ∧
      (s.net.next g.target p = some .transaction ∧ s' = { s with
        net := s.net.advance g.target p
        wal := s.wal ++ [.commit p (s.net.pos g.target p)] } ∨
      s.net.next g.target p = some .confirmLock ∧ s' = { s with
        net := s.net.advance g.target p
        phase := s.phase.confirm }) := by
  unfold replay at h
  split_ifs at h with hp
  refine ⟨hp, ?_⟩
  split at h
  · next hnext => exact .inl ⟨hnext, (Option.some.inj h).symm⟩
  · next hnext => exact .inr ⟨hnext, (Option.some.inj h).symm⟩
  · cases h

theorem System.catchup_cases (h : s.catchup = some s') :
    ∃ stopLsn, s.phase = .catchup stopLsn ∧
      ((∃ p k, s.wal[s.walPos]? = some (.commit p k) ∧ s' = { s with
        walPos := s.walPos + 1
        origin := Function.update s.origin p (max (s.origin p) (k + 1))
        reflected := s.reflected ++ [(.catchup, p, k)]
        phase := if stopLsn ≤ s.walPos + 1 then .creatingOutboundSlots else .catchup stopLsn }) ∨
      s.wal[s.walPos]? = some .other ∧ s' = { s with walPos := s.walPos + 1 }) := by
  unfold catchup at h
  split at h
  · next stopLsn p k hphase hrecord =>
    exact ⟨stopLsn, hphase, .inl ⟨p, k, hrecord, (Option.some.inj h).symm⟩⟩
  · next stopLsn hphase hrecord =>
    exact ⟨stopLsn, hphase, .inr ⟨hrecord, (Option.some.inj h).symm⟩⟩
  · cases h

theorem System.apply_cases (h : s.apply g p = some s') :
    s.phase = .applying ∧ p ≠ g.joining ∧
      (s.net.next g.joining p = some .transaction ∧ s' = { s with
        net := s.net.advance g.joining p
        reflected := s.reflected ++ [(.slot, p, s.net.pos g.joining p)] } ∨
      s.net.next g.joining p = some .confirmLock ∧
        s' = { s with net := s.net.advance g.joining p }) := by
  unfold apply at h
  split_ifs at h with hguard
  refine ⟨hguard.1, hguard.2, ?_⟩
  split at h
  · next hnext => exact .inl ⟨hnext, (Option.some.inj h).symm⟩
  · next hnext => exact .inr ⟨hnext, (Option.some.inj h).symm⟩
  · cases h

variable [Fintype ν]

/-- The nodes whose answers the target waits for. -/
def Setup.peers (g : Setup ν) : Finset ν := Finset.univ.filter g.IsPeer

def System.acquireGlobalLock (g : Setup ν) (s : System ν) : Option (System ν) :=
  if s.phase = .makingSlots ∧ ∀ p, p ≠ g.joining → s.slot p = true then
    if g.skipDdlReplication then some { s with phase := .lockReturned }
    else some { s with phase := .lockRequested 0, asked := fun p => s.asked p + 1 }
  else none

def System.lockAcquired (g : Setup ν) (s : System ν) : Option (System ν) :=
  match s.phase with
  | .lockRequested n =>
    if g.peers.card ≤ n then some { s with phase := .lockReturned } else none
  | _ => none

theorem System.acquireGlobalLock_cases (h : s.acquireGlobalLock g = some s') :
    s.phase = .makingSlots ∧ (∀ p, p ≠ g.joining → s.slot p = true) ∧
      (g.skipDdlReplication = true ∧ s' = { s with phase := .lockReturned } ∨
      g.skipDdlReplication = false ∧
        s' = { s with phase := .lockRequested 0, asked := fun p => s.asked p + 1 }) := by
  unfold acquireGlobalLock at h
  split_ifs at h with hguard hskip
  · exact ⟨hguard.1, hguard.2, .inl ⟨hskip, (Option.some.inj h).symm⟩⟩
  · exact ⟨hguard.1, hguard.2, .inr ⟨by simpa using hskip, (Option.some.inj h).symm⟩⟩

theorem System.lockAcquired_cases (h : s.lockAcquired g = some s') :
    ∃ n, s.phase = .lockRequested n ∧ g.peers.card ≤ n ∧
      s' = { s with phase := .lockReturned } := by
  unfold lockAcquired at h
  split at h
  · next n hphase =>
    split_ifs at h with hcard
    exact ⟨n, hphase, hcard, (Option.some.inj h).symm⟩
  · cases h

def System.step (g : Setup ν) (s : System ν) : Action ν → Option (System ν)
  | .commit p => s.commit g p
  | .otherRecord => some { s with wal := s.wal ++ [.other] }
  | .abandonedRequest => s.abandonedRequest
  | .confirmLock p => s.confirmLock g p
  | .replay p => s.replay g p
  | .establishSlot => s.establishSlot g
  | .makeOtherSlot p => s.makeOtherSlot g p
  | .acquireGlobalLock => s.acquireGlobalLock g
  | .lockAcquired => s.lockAcquired g
  | .getRemoteLsn => s.getRemoteLsn
  | .catchup => s.catchup
  | .maintainDbWorkers => s.maintainDbWorkers g
  | .apply p => s.apply g p

end

end Pgactive.Replica
