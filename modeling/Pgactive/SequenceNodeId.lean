import Pgactive.Snowflake
import Pgactive.Transition

/-!
# The node sequence id in global sequence values

A session reads the sequence id of the local node through two caches: the node cache, which an
invalidation message clears, and the static variable of `global_seq_get_nodeid`, which nothing
clears. Meanwhile the node may be removed and joined again with another one.
-/

namespace Pgactive.Snowflake

open FallibleState Transition

variable {ν : Type}

/-- What a session sees, and what it keeps. -/
structure Backend (ν : Type) where
  /-- `pgactive_nodes`: whether a node has a row, and its `node_seq_id`. -/
  nodes : ν → Option (Option ℤ)
  myNodeid : ν
  /-- `seq_id` of the valid entries of the node cache. -/
  nodeCache : ν → Option ℤ
  /-- The variables of `pgactive_seq.c`. -/
  seq : Session

/-- What happens while a session is connected. -/
inductive Event (ν : Type)
  /-- `pgactive_nodes` or the identifier of the local node change: a sequence id is assigned, or the
  node is detached, removed or joined again. -/
  | change (nodes : ν → Option (Option ℤ)) (myNodeid : ν)
  /-- The session gets an invalidation message for `pgactive_nodes`. -/
  | invalidate
  /-- Another function looks up the local node. -/
  | lookup
  /-- The session calls `pgactive_snowflake_id_nextval_oid`. -/
  | nextval (c : Call)

/-- The `node_seq_id` that the local node has. -/
def Backend.held (b : Backend ν) : Option ℤ := (b.nodes b.myNodeid).join

def Backend.kept (dboid : UInt32) (b : Backend ν) : Option ℤ :=
  if b.seq.seqNodeidDboid = dboid then some b.seq.seqNodeid else b.nodeCache b.myNodeid

variable {dboid : UInt32} {b b' : Backend ν} {c : Call} {r : Int64}

variable [DecidableEq ν]

def Backend.nodecacheLookup (b : Backend ν) : Option ℤ × Backend ν :=
  match b.nodeCache b.myNodeid with
  | some seqId => (some seqId, b)
  | none =>
    match b.nodes b.myNodeid with
    | none => (none, b)
    | some nodeSeqId =>
      let seqId := nodeSeqId.getD (-1)
      (some seqId, { b with nodeCache := Function.update b.nodeCache b.myNodeid (some seqId) })

def Backend.localNodeSeqId (b : Backend ν) : ℤ := b.nodecacheLookup.1.getD (-1)

variable (dboid) in
def Backend.call (b : Backend ν) (c : Call) : Call :=
  { c with myDatabaseId := dboid, localNodeSeqId := b.localNodeSeqId }

variable (dboid) in
def Backend.nextval (b : Backend ν) (c : Call) : Except SeqError Int64 :=
  (snowflakeIdNextvalOid (b.call dboid c) b.seq).1

variable (dboid) in
/-- What an event does; the session is connected to the database `dboid`. -/
def Backend.step (b : Backend ν) : Event ν → Option (Backend ν)
  | .change nodes myNodeid => some { b with nodes := nodes, myNodeid := myNodeid }
  | .invalidate => some { b with nodeCache := fun _ => none }
  | .lookup => some b.nodecacheLookup.2
  | .nextval c =>
    -- the node cache is looked at only if the variable is not set
    let after := if b.seq.seqNodeidDboid ≠ dboid then b.nodecacheLookup.2 else b
    some { after with seq := (snowflakeIdNextvalOid (b.call dboid c) b.seq).2 }

def embedded (r : Int64) : ℤ := ((r.toBitVec.toNat / 2 ^ sequenceBits) % 2 ^ nodeidBits : ℕ)

theorem embedded_compose {t n q : ℤ} (ht : 0 ≤ t ∧ t ≤ maxTimestamp) (hn : 0 ≤ n ∧ n ≤ maxNodeId)
    (hq : 0 ≤ q ∧ q < maxSeqId) : embedded (compose t n q) = n := by
  have hsum := compose_eq_sum ht hn hq
  unfold maxNodeId nodeidBits at hn
  unfold maxSeqId sequenceBits at hq
  unfold embedded sequenceBits nodeidBits
  omega

theorem Backend.localNodeSeqId_eq (b : Backend ν) :
    b.localNodeSeqId = (b.nodeCache b.myNodeid).getD (b.held.getD (-1)) := by
  unfold localNodeSeqId nodecacheLookup held
  cases b.nodeCache b.myNodeid with
  | some seqId => rfl
  | none =>
    cases b.nodes b.myNodeid with
    | none => rfl
    | some nodeSeqId => rfl

theorem Backend.nodeid_call (b : Backend ν) (c : Call) :
    b.seq.nodeid (b.call dboid c) = (b.kept dboid).getD (b.held.getD (-1)) := by
  unfold Session.nodeid kept
  rw [call]
  dsimp only
  split_ifs with hkept
  · rfl
  · exact b.localNodeSeqId_eq

theorem Backend.embedded_nextval (h : b.nextval dboid c = .ok r) :
    embedded r = (b.kept dboid).getD (b.held.getD (-1)) ∧ 0 ≤ embedded r := by
  obtain ⟨hn, ht, hq, rfl⟩ := (snowflakeIdNextvalOid_eq_ok_iff b.seq (b.call dboid c) r).mp h
  rw [embedded_compose ht hn ⟨hq, Call.sequence_lt _⟩]
  exact ⟨b.nodeid_call c, hn.1⟩

/-- The event is a call that returns a result with the sequence id of the local node. -/
def EmbedsHeld (dboid : UInt32) (x : Backend ν × Event ν × Backend ν) : Prop :=
  ∀ c r, x.2.1 = .nextval c → x.1.nextval dboid c = .ok r → x.1.held = some (embedded r)

def KeptIsHeld (dboid : UInt32) (x : Backend ν × Event ν × Backend ν) : Prop :=
  ∀ c r, x.2.1 = .nextval c → x.1.nextval dboid c = .ok r →
    ∀ seqId, x.1.kept dboid = some seqId → x.1.held = some seqId

theorem embedsHeld_iff (x : Backend ν × Event ν × Backend ν) :
    EmbedsHeld dboid x ↔ KeptIsHeld dboid x := by
  refine forall₄_congr fun c r _ hok => ?_
  obtain ⟨hembedded, hnonneg⟩ := Backend.embedded_nextval hok
  cases hkept : x.1.kept dboid with
  | some seqId =>
    rw [hkept] at hembedded
    simp [hembedded]
  | none =>
    rw [hkept, Option.getD_none] at hembedded
    cases hheld : x.1.held with
    | none =>
      rw [hheld] at hembedded
      simp only [Option.getD_none] at hembedded
      omega
    | some seqId =>
      rw [hheld] at hembedded
      simp [hembedded]

section

variable (hset : b.seq.seqNodeidDboid = dboid)
include hset

/-! ### A session keeps its sequence id -/

theorem Backend.seq_of_step {e : Event ν} (hstep : b.step dboid e = some b') : b'.seq = b.seq := by
  cases e with
  | change | invalidate =>
    cases hstep
    rfl
  | lookup =>
    cases hstep
    unfold nodecacheLookup
    split
    · rfl
    · split <;> rfl
  | nextval c =>
    cases hstep
    have hkept : b.seq.seqNodeidDboid = (b.call dboid c).myDatabaseId := hset
    have hget : globalSeqGetNodeid (b.call dboid c) b.seq = _ :=
      bind_of_ok (x := MonadState.get) rfl _
    rw [if_neg (not_not.mpr hkept)] at hget
    simp only [snowflakeIdNextvalOid, bind_of_ok hget]
    split_ifs <;> rfl

theorem Backend.seq_of_trace (events : List (Event ν)) :
    ∀ x ∈ trace (Backend.step dboid) b events, x.1.seq = b.seq := by
  induction events generalizing b with
  | nil => simp [trace]
  | cons e events ih =>
    cases hstep : b.step dboid e with
    | none => simp [trace_cons_of_none hstep]
    | some b' =>
      have hseq := seq_of_step hset hstep
      rw [forall_mem_trace_cons hstep]
      exact ⟨rfl, hseq ▸ ih (hseq ▸ hset)⟩

/-- From its first accepted call on, a session gets right results exactly as long as the node holds
the sequence id that this call has read. -/
theorem nextval_embeds_first (events : List (Event ν)) :
    (∀ x ∈ trace (Backend.step dboid) b events, EmbedsHeld dboid x) ↔
      ∀ x ∈ trace (Backend.step dboid) b events, ∀ c r, x.2.1 = .nextval c →
        x.1.nextval dboid c = .ok r → x.1.held = some b.seq.seqNodeid := by
  refine forall₂_congr fun x hx => (embedsHeld_iff x).trans (forall₄_congr fun c r _ _ => ?_)
  have hkept : x.1.kept dboid = some b.seq.seqNodeid := by
    rw [Backend.kept, Backend.seq_of_trace hset events x hx, if_pos hset]
  simp [hkept]

end

/-- For every session and every history of the local node: each result that the session gets has the
sequence id that the node holds at the time of the call, exactly if at each call that is accepted a
sequence id that the session has kept is still the one of the node. -/
theorem nextval_embeds_held (dboid : UInt32) (b : Backend ν) (events : List (Event ν)) :
    (∀ x ∈ trace (Backend.step dboid) b events, EmbedsHeld dboid x) ↔
      ∀ x ∈ trace (Backend.step dboid) b events, KeptIsHeld dboid x :=
  forall₂_congr fun x _ => embedsHeld_iff x

def newBackend : Backend Unit where
  nodes _ := none
  myNodeid := ()
  nodeCache _ := none
  seq := .initial

/-- The node joins with the sequence id 1, and the session calls the function. Then the node is
detached and removed, and joins again with the sequence id 2. -/
def rejoined : List (Event Unit) :=
  [.change (fun _ => some (some 1)) (), .nextval (firstCall 0), .change (fun _ => none) (),
    .change (fun _ => some (some 2)) (), .invalidate]

/-- The session goes on with the sequence id 1. -/
theorem nextval_embeds_old :
    ((trace (Backend.step 16384) newBackend rejoined).getLast?.map fun x =>
      (x.2.2.held, (x.2.2.nextval 16384 (firstCall 0)).toOption.map embedded)) =
      some (some 2, some 1) ∧
    ¬∀ x ∈ trace (Backend.step 16384) newBackend (rejoined ++ [.nextval (firstCall 0)]),
      EmbedsHeld 16384 x := by
  refine ⟨by decide, fun h => ?_⟩
  have hheld := h _ (List.mem_of_getLast? rfl) (firstCall 0) 16384 rfl (by decide)
  exact absurd hheld (by decide)

end Pgactive.Snowflake
