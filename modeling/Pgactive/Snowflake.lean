import Mathlib.Tactic.Ring
import Pgactive.FallibleState

/-!
# Global sequence values

`pgactive_snowflake_id_nextval_oid` puts the milliseconds since an epoch, the sequence id of the
local node and the next value of a local sequence into one 64-bit integer. The session keeps the
node's sequence id once it has been read (`global_seq_get_nodeid`).
-/

namespace Pgactive.Snowflake

open FallibleState

def timestampBits : ℕ := 40

def nodeidBits : ℕ := 10

def sequenceBits : ℕ := 14

def maxTimestamp : ℤ := 2 ^ timestampBits - 1

def maxNodeId : ℤ := 2 ^ nodeidBits - 1

def maxSeqId : ℤ := 2 ^ sequenceBits - 1

def seqTsEpoch : ℤ := 529111339634

/-- Errors of a call. -/
inductive SeqError
  /-- "node sequence ID not allocated". -/
  | notAllocated
  /-- "node sequence ID out of range 0 .. 1023". -/
  | seqIdOutOfRange
  /-- "cannot generate sequence, timestamp out of range". -/
  | timestampOutOfRange
  /-- "nodeid must be in range 0 .. 1023". -/
  | nodeidOutOfRange
  /-- "sequence produced negative value". -/
  | negativeValue
deriving DecidableEq

/-- The static variables of a session. -/
structure Session where
  seqNodeid : ℤ
  seqNodeidDboid : UInt32
deriving DecidableEq

/-- The variables of a new session; no database has the invalid oid. -/
def Session.initial : Session := ⟨-1, 0⟩

/-- What a call reads. -/
structure Call where
  myDatabaseId : UInt32
  /-- `pgactive_local_node_seq_id`, `-1` if there is none. -/
  localNodeSeqId : ℤ
  /-- `GetCurrentTimestamp`, in microseconds. -/
  currentTimestamp : Int64
  /-- The timestamp that the call with two arguments gives instead. -/
  overrideTimestamp : Option Int64
  /-- What `nextval_oid` returns. -/
  nextval : Int64

/-- Milliseconds since the epoch; nothing here leaves the range of 64 bits. -/
def Call.timestamp (c : Call) : ℤ :=
  (c.overrideTimestamp.getD c.currentTimestamp).toInt.tdiv 1000 - seqTsEpoch

def Call.sequence (c : Call) : ℤ := c.nextval.toInt.tmod maxSeqId

def globalSeqReadNodeid (c : Call) : Fallible SeqError Session ℤ :=
  if c.localNodeSeqId = -1 then throw .notAllocated
  else if c.localNodeSeqId < 0 ∨ maxNodeId < c.localNodeSeqId then throw .seqIdOutOfRange
  else pure c.localNodeSeqId

def globalSeqGetNodeid (c : Call) : Fallible SeqError Session ℤ := do
  let s ← get
  if s.seqNodeidDboid ≠ c.myDatabaseId then do
    let nodeid ← globalSeqReadNodeid c
    set (⟨nodeid, c.myDatabaseId⟩ : Session)
    pure nodeid
  else pure s.seqNodeid

/-- The three fields in one integer. A timestamp of forty bits reaches into the sign. -/
def compose (timestamp nodeid sequence : ℤ) : Int64 :=
  Int64.ofInt timestamp <<< 24 ||| Int64.ofInt nodeid <<< 14 ||| Int64.ofInt sequence

def snowflakeIdNextvalOid (c : Call) : Fallible SeqError Session Int64 := do
  let nodeid ← globalSeqGetNodeid c
  if c.timestamp < 0 ∨ maxTimestamp < c.timestamp then throw .timestampOutOfRange
  else if nodeid < 0 ∨ maxNodeId < nodeid then throw .nodeidOutOfRange
  else if c.sequence < 0 then throw .negativeValue
  else pure (compose c.timestamp nodeid c.sequence)

/-- The node sequence id that a call works with: the one kept for this database, or else the one
that the node has. -/
def Session.nodeid (s : Session) (c : Call) : ℤ :=
  if s.seqNodeidDboid = c.myDatabaseId then s.seqNodeid else c.localNodeSeqId

def Call.TimestampInRange (c : Call) : Prop := 0 ≤ c.timestamp ∧ c.timestamp ≤ maxTimestamp

def Session.NodeidInRange (s : Session) (c : Call) : Prop := 0 ≤ s.nodeid c ∧ s.nodeid c ≤ maxNodeId

/-! ### Which calls are accepted -/

variable {s s₁ s₂ : Session} {c c₁ c₂ : Call}

theorem globalSeqGetNodeid_cases (s : Session) (c : Call) :
    (∃ s', globalSeqGetNodeid c s = (.ok (s.nodeid c), s')) ∨
      ¬s.NodeidInRange c ∧ ∃ e s', globalSeqGetNodeid c s = (.error e, s') := by
  have hget : globalSeqGetNodeid c s = _ := bind_of_ok (x := MonadState.get) rfl _
  by_cases hkept : s.seqNodeidDboid = c.myDatabaseId
  · rw [if_neg (not_not.mpr hkept)] at hget
    have hid : s.nodeid c = s.seqNodeid := if_pos hkept
    exact .inl ⟨s, hid ▸ hget⟩
  · rw [if_pos hkept] at hget
    have hid : s.nodeid c = c.localNodeSeqId := if_neg hkept
    unfold Session.NodeidInRange
    rw [hid]
    by_cases hnone : c.localNodeSeqId = -1
    · have hread : globalSeqReadNodeid c s = (.error .notAllocated, s) := by
        rw [globalSeqReadNodeid, if_pos hnone]
        rfl
      exact .inr ⟨by omega, _, _, hget.trans (bind_of_error hread _)⟩
    · by_cases hrange : c.localNodeSeqId < 0 ∨ maxNodeId < c.localNodeSeqId
      · have hread : globalSeqReadNodeid c s = (.error .seqIdOutOfRange, s) := by
          rw [globalSeqReadNodeid, if_neg hnone, if_pos hrange]
          rfl
        exact .inr ⟨by omega, _, _, hget.trans (bind_of_error hread _)⟩
      · have hread : globalSeqReadNodeid c s = (.ok c.localNodeSeqId, s) := by
          rw [globalSeqReadNodeid, if_neg hnone, if_neg hrange]
          rfl
        exact .inl ⟨_, hget.trans (bind_of_ok hread _)⟩

theorem snowflakeIdNextvalOid_eq_ok_iff (s : Session) (c : Call) (r : Int64) :
    (snowflakeIdNextvalOid c s).1 = .ok r ↔ s.NodeidInRange c ∧ c.TimestampInRange ∧
      0 ≤ c.sequence ∧ compose c.timestamp (s.nodeid c) c.sequence = r := by
  unfold snowflakeIdNextvalOid
  obtain ⟨s', hget⟩ | ⟨hrange, e, s', hget⟩ := globalSeqGetNodeid_cases s c
  · have hpure : ((pure (compose c.timestamp (s.nodeid c) c.sequence) :
        Fallible SeqError Session Int64) s').1 = .ok r ↔
          compose c.timestamp (s.nodeid c) c.sequence = r :=
      ⟨Except.ok.inj, congrArg Except.ok⟩
    rw [bind_of_ok hget, ite_throw_eq_ok_iff, ite_throw_eq_ok_iff, ite_throw_eq_ok_iff, hpure]
    unfold Session.NodeidInRange Call.TimestampInRange
    simp only [not_or, not_lt]
    tauto
  · rw [bind_of_error hget]
    exact ⟨(nomatch ·), fun h => absurd h.1 hrange⟩

theorem snowflakeIdNextvalOid_error_iff (s : Session) (c : Call) :
    (∃ e, (snowflakeIdNextvalOid c s).1 = .error e) ↔
      ¬(s.NodeidInRange c ∧ c.TimestampInRange ∧ 0 ≤ c.sequence) := by
  have hok := snowflakeIdNextvalOid_eq_ok_iff s c
  cases hrun : (snowflakeIdNextvalOid c s).1 with
  | error e =>
    refine ⟨fun _ hin => ?_, fun _ => ⟨e, rfl⟩⟩
    have := (hok _).mpr ⟨hin.1, hin.2.1, hin.2.2, rfl⟩
    rw [hrun] at this
    cases this
  | ok r =>
    obtain ⟨hn, ht, hq, -⟩ := (hok r).mp hrun
    simp [hn, ht, hq]

/-! ### Fields of the result -/

theorem compose_toNat {timestamp nodeid sequence : ℕ} (ht : timestamp < 2 ^ timestampBits)
    (hn : nodeid < 2 ^ nodeidBits) (hs : sequence < 2 ^ sequenceBits) :
    (compose timestamp nodeid sequence).toBitVec.toNat =
      timestamp * 2 ^ 24 + nodeid * 2 ^ 14 + sequence := by
  unfold timestampBits nodeidBits sequenceBits at *
  have hlow : nodeid * 2 ^ 14 + sequence < 2 ^ 24 := by omega
  have hbits : (compose timestamp nodeid sequence).toBitVec =
      BitVec.ofNat 64 timestamp <<< 24 ||| BitVec.ofNat 64 nodeid <<< 14 |||
        BitVec.ofNat 64 sequence := rfl
  have hseq : nodeid <<< 14 ||| sequence = nodeid * 2 ^ 14 + sequence := by
    rw [← Nat.shiftLeft_add_eq_or_of_lt hs, Nat.shiftLeft_eq]
  have hshift : timestamp <<< 24 < 2 ^ 64 ∧ nodeid <<< 14 < 2 ^ 64 := by
    simp only [Nat.shiftLeft_eq]
    omega
  rw [hbits]
  simp only [BitVec.toNat_or, BitVec.toNat_shiftLeft, BitVec.toNat_ofNat]
  rw [Nat.mod_eq_of_lt (a := timestamp) (by omega), Nat.mod_eq_of_lt (a := nodeid) (by omega),
    Nat.mod_eq_of_lt (a := sequence) (by omega), Nat.mod_eq_of_lt hshift.1,
    Nat.mod_eq_of_lt hshift.2, Nat.or_assoc, hseq, ← Nat.shiftLeft_add_eq_or_of_lt hlow,
    Nat.shiftLeft_eq, Nat.add_assoc]

theorem compose_eq_sum {t n q : ℤ} (ht : 0 ≤ t ∧ t ≤ maxTimestamp) (hn : 0 ≤ n ∧ n ≤ maxNodeId)
    (hq : 0 ≤ q ∧ q < maxSeqId) :
    ((compose t n q).toBitVec.toNat : ℤ) = t * 2 ^ 24 + n * 2 ^ 14 + q := by
  unfold maxTimestamp timestampBits at ht
  unfold maxNodeId nodeidBits at hn
  unfold maxSeqId sequenceBits at hq
  lift t to ℕ using ht.1
  lift n to ℕ using hn.1
  lift q to ℕ using hq.1
  rw [compose_toNat (show t < 2 ^ 40 by omega) (show n < 2 ^ 10 by omega)
    (show q < 2 ^ 14 by omega)]
  push_cast
  rfl

theorem compose_inj {t t' n n' q q' : ℤ} (ht : 0 ≤ t ∧ t ≤ maxTimestamp)
    (ht' : 0 ≤ t' ∧ t' ≤ maxTimestamp) (hn : 0 ≤ n ∧ n ≤ maxNodeId) (hn' : 0 ≤ n' ∧ n' ≤ maxNodeId)
    (hq : 0 ≤ q ∧ q < maxSeqId) (hq' : 0 ≤ q' ∧ q' < maxSeqId)
    (h : compose t n q = compose t' n' q') : t = t' ∧ n = n' ∧ q = q' := by
  have hsum := compose_eq_sum ht hn hq
  rw [h, compose_eq_sum ht' hn' hq'] at hsum
  unfold maxNodeId nodeidBits at hn hn'
  unfold maxSeqId sequenceBits at hq hq'
  omega

/-! ### Remainders of the sequence -/

theorem Call.sequence_lt (c : Call) : c.sequence < maxSeqId :=
  Int.tmod_lt_of_pos _ (by decide)

theorem Call.nextval_eq_of_sequence_eq (h : c₁.sequence = c₂.sequence)
    (hnear : |c₁.nextval.toInt - c₂.nextval.toInt| < maxSeqId) :
    c₁.nextval.toInt = c₂.nextval.toInt := by
  have h₁ := Int.mul_tdiv_add_tmod c₁.nextval.toInt maxSeqId
  have h₂ := Int.mul_tdiv_add_tmod c₂.nextval.toInt maxSeqId
  have hdvd : maxSeqId ∣ c₁.nextval.toInt - c₂.nextval.toInt :=
    ⟨c₁.nextval.toInt.tdiv maxSeqId - c₂.nextval.toInt.tdiv maxSeqId, by
      unfold sequence at h
      rw [mul_sub]
      omega⟩
  have hzero := Int.eq_zero_of_abs_lt_dvd hdvd hnear
  omega

theorem Call.sequence_nonneg_iff_of_neg (h : c.nextval.toInt < 0) :
    0 ≤ c.sequence ↔ maxSeqId ∣ c.nextval.toInt := by
  have hle : c.sequence ≤ 0 := by
    have hneg := Int.tmod_nonneg maxSeqId (Int.neg_nonneg.mpr h.le)
    rw [Int.neg_tmod] at hneg
    unfold sequence
    omega
  rw [Int.dvd_iff_tmod_eq_zero]
  exact ⟨fun hge => le_antisymm hle hge, fun hzero => hzero.ge⟩

/-- Two calls that return the same integer agree in all three fields, so that calls with different
node sequence ids, different milliseconds, or nearby sequence values return different ones. A call
with a negative sequence value is refused unless the value is a multiple of `MAX_SEQ_ID` and the
other two fields are in range. -/
theorem snowflakeIdNextvalOid_unique (s₁ s₂ : Session) (c₁ c₂ : Call) :
    (∀ r, (snowflakeIdNextvalOid c₁ s₁).1 = .ok r → (snowflakeIdNextvalOid c₂ s₂).1 = .ok r →
      c₁.timestamp = c₂.timestamp ∧ s₁.nodeid c₁ = s₂.nodeid c₂ ∧ c₁.sequence = c₂.sequence) ∧
    (∀ r₁ r₂, (snowflakeIdNextvalOid c₁ s₁).1 = .ok r₁ →
      (snowflakeIdNextvalOid c₂ s₂).1 = .ok r₂ →
      (s₁.nodeid c₁ ≠ s₂.nodeid c₂ ∨ c₁.timestamp ≠ c₂.timestamp ∨
        c₁.nextval ≠ c₂.nextval ∧ |c₁.nextval.toInt - c₂.nextval.toInt| < maxSeqId) → r₁ ≠ r₂) ∧
    ((c₁.nextval < 0 → ∃ e, (snowflakeIdNextvalOid c₁ s₁).1 = .error e) ↔
      ¬(c₁.nextval < 0 ∧ maxSeqId ∣ c₁.nextval.toInt ∧ c₁.TimestampInRange ∧
        s₁.NodeidInRange c₁)) := by
  have hsame : ∀ r, (snowflakeIdNextvalOid c₁ s₁).1 = .ok r →
      (snowflakeIdNextvalOid c₂ s₂).1 = .ok r →
      c₁.timestamp = c₂.timestamp ∧ s₁.nodeid c₁ = s₂.nodeid c₂ ∧ c₁.sequence = c₂.sequence := by
    intro r h₁ h₂
    obtain ⟨hn₁, ht₁, hq₁, hr₁⟩ := (snowflakeIdNextvalOid_eq_ok_iff s₁ c₁ r).mp h₁
    obtain ⟨hn₂, ht₂, hq₂, hr₂⟩ := (snowflakeIdNextvalOid_eq_ok_iff s₂ c₂ r).mp h₂
    exact compose_inj ht₁ ht₂ hn₁ hn₂ ⟨hq₁, c₁.sequence_lt⟩ ⟨hq₂, c₂.sequence_lt⟩
      (hr₁.trans hr₂.symm)
  refine ⟨hsame, ?_, ?_⟩
  · rintro r₁ r₂ h₁ h₂ hdiff rfl
    obtain ⟨ht, hn, hq⟩ := hsame r₁ h₁ h₂
    obtain hdiff | hdiff | ⟨hdiff, hnear⟩ := hdiff
    · exact hdiff hn
    · exact hdiff ht
    · exact hdiff (Int64.toInt_inj.mp (Call.nextval_eq_of_sequence_eq hq hnear))
  · have hneg : c₁.nextval < 0 ↔ c₁.nextval.toInt < 0 := Int64.lt_iff_toInt_lt
    rw [snowflakeIdNextvalOid_error_iff, hneg]
    by_cases h : c₁.nextval.toInt < 0
    · rw [Call.sequence_nonneg_iff_of_neg h]
      tauto
    · tauto

def firstCall (nextval : Int64) : Call where
  myDatabaseId := 16384
  localNodeSeqId := 1
  currentTimestamp := 529111339634000
  overrideTimestamp := none
  nextval := nextval

/-- A negative value of the sequence that is a multiple of `MAX_SEQ_ID` is accepted, and gives
the same integer as zero. -/
theorem snowflakeIdNextvalOid_neg_accepted :
    (firstCall (-16383)).nextval < 0 ∧
      (snowflakeIdNextvalOid (firstCall (-16383)) .initial).1 = .ok 16384 ∧
      (snowflakeIdNextvalOid (firstCall 0) .initial).1 = .ok 16384 := by
  decide

/-! ### Order of the results -/

def signTimestamp : ℤ := 2 ^ (timestampBits - 1)

variable {r : Int64}

theorem compose_toInt {t n q : ℤ} (ht : 0 ≤ t ∧ t ≤ maxTimestamp) (hn : 0 ≤ n ∧ n ≤ maxNodeId)
    (hq : 0 ≤ q ∧ q < maxSeqId) :
    (compose t n q).toInt =
      if t < signTimestamp then t * 2 ^ 24 + n * 2 ^ 14 + q
      else t * 2 ^ 24 + n * 2 ^ 14 + q - 2 ^ 64 := by
  have hsum := compose_eq_sum ht hn hq
  have hint : (compose t n q).toInt = (compose t n q).toBitVec.toInt := rfl
  unfold maxNodeId nodeidBits at hn
  unfold maxSeqId sequenceBits at hq
  unfold signTimestamp timestampBits
  rw [hint, BitVec.toInt_eq_toNat_cond]
  split_ifs <;> omega

theorem toInt_of_accepted (h : (snowflakeIdNextvalOid c s).1 = .ok r) :
    ∃ rest : ℤ, 0 ≤ rest ∧ rest < 2 ^ 24 ∧ r.toInt =
      if c.timestamp < signTimestamp then c.timestamp * 2 ^ 24 + rest
      else c.timestamp * 2 ^ 24 + rest - 2 ^ 64 := by
  obtain ⟨hn, ht, hq, rfl⟩ := (snowflakeIdNextvalOid_eq_ok_iff s c r).mp h
  have hseq := c.sequence_lt
  rw [compose_toInt ht hn ⟨hq, hseq⟩]
  unfold Session.NodeidInRange maxNodeId nodeidBits at hn
  unfold maxSeqId sequenceBits at hseq
  refine ⟨s.nodeid c * 2 ^ 14 + c.sequence, by omega, by omega, ?_⟩
  split_ifs <;> omega

theorem nonneg_iff_of_accepted (h : (snowflakeIdNextvalOid c s).1 = .ok r) :
    0 ≤ r ↔ c.timestamp < signTimestamp := by
  obtain ⟨-, ht, -, -⟩ := (snowflakeIdNextvalOid_eq_ok_iff s c r).mp h
  obtain ⟨rest, hrest, hlt, hr⟩ := toInt_of_accepted h
  rw [Int64.le_iff_toInt_le, hr]
  unfold Call.TimestampInRange maxTimestamp timestampBits at ht
  unfold signTimestamp timestampBits
  change 0 ≤ _ ↔ _
  split_ifs <;> omega

theorem lt_of_timestamp_lt {r₁ r₂ : Int64} (h₁ : (snowflakeIdNextvalOid c₁ s₁).1 = .ok r₁)
    (h₂ : (snowflakeIdNextvalOid c₂ s₂).1 = .ok r₂) (hsign : c₂.timestamp < signTimestamp)
    (hlt : c₁.timestamp < c₂.timestamp) : r₁ < r₂ := by
  obtain ⟨rest₁, hrest₁, hlt₁, hr₁⟩ := toInt_of_accepted h₁
  obtain ⟨rest₂, hrest₂, hlt₂, hr₂⟩ := toInt_of_accepted h₂
  rw [Int64.lt_iff_toInt_lt, hr₁, hr₂, if_pos hsign, if_pos (hlt.trans hsign)]
  omega

/-- For all accepted calls: the results are not negative, and of two calls the one with the later
millisecond has the greater result, exactly if the milliseconds leave the sign free. -/
theorem snowflakeIdNextvalOid_ordered (s₁ s₂ : Session) (c₁ c₂ : Call) (r₁ r₂ : Int64)
    (h₁ : (snowflakeIdNextvalOid c₁ s₁).1 = .ok r₁)
    (h₂ : (snowflakeIdNextvalOid c₂ s₂).1 = .ok r₂) :
    (0 ≤ r₁ ∧ 0 ≤ r₂ ∧ (c₁.timestamp < c₂.timestamp → r₁ < r₂) ∧
      (c₂.timestamp < c₁.timestamp → r₂ < r₁)) ↔
    c₁.timestamp < signTimestamp ∧ c₂.timestamp < signTimestamp := by
  rw [nonneg_iff_of_accepted h₁, nonneg_iff_of_accepted h₂, ← and_assoc]
  refine and_iff_left_of_imp ?_
  rintro ⟨hsign₁, hsign₂⟩
  exact ⟨lt_of_timestamp_lt h₁ h₂ hsign₂, lt_of_timestamp_lt h₂ h₁ hsign₁⟩

def callAt (timestamp : Int64) : Call where
  myDatabaseId := 16384
  localNodeSeqId := 1
  currentTimestamp := 0
  overrideTimestamp := some ((529111339634 + timestamp) * 1000)
  nextval := 5

theorem snowflakeIdNextvalOid_ordered_next :
    (0 : Int64) ≤ 16389 ∧ (0 : Int64) ≤ 16793605 ∧
      ((callAt 0).timestamp < (callAt 1).timestamp → (16389 : Int64) < 16793605) ∧
      ((callAt 1).timestamp < (callAt 0).timestamp → (16793605 : Int64) < 16389) :=
  (snowflakeIdNextvalOid_ordered .initial .initial (callAt 0) (callAt 1) 16389 16793605
    (by decide) (by decide)).mpr (by decide)

/-- The millisecond from which on results are negative, and less than all before. -/
theorem snowflakeIdNextvalOid_negative :
    (callAt 549755813888).TimestampInRange ∧
      (snowflakeIdNextvalOid (callAt 549755813888) .initial).1 = .ok (-9223372036854759419) ∧
      (snowflakeIdNextvalOid (callAt 549755813887) .initial).1 = .ok 9223372036838014981 := by
  refine ⟨⟨by decide, by decide⟩, by decide, by decide⟩

end Pgactive.Snowflake
