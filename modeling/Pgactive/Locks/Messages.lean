import Pgactive.Stream.RoundTrip
import Pgactive.Locks.Peer

/-!
# Bytes of the lock messages

A header with the type and the sender (`pgactive_prepare_message`), followed by what the type calls
for. The output plugin carries it in an envelope, and `pgactive_process_remote_message` takes both
apart. Peers of an older version leave out the lock type.
-/

namespace Pgactive.Locks

open ByteReader Pgactive.Stream

def acquireLockType : UInt32 := 1

def LockMessage.messageType {ν : Type} : LockMessage ν → UInt32
  | .start => 0
  | .acquireLock _ => acquireLockType
  | .releaseLock _ => 2
  | .confirmLock _ _ => 3
  | .declineLock _ _ => 4
  | .requestReplayConfirm _ => 5
  | .replayConfirm _ => 6

def prepareMessage (me : NodeId) (messageType : UInt32) : List UInt8 :=
  beBytes 4 messageType.toNat ++ sendNodeid me true

def LockMessage.payload : LockMessage NodeId → List UInt8
  | .start => []
  | .acquireLock lockType => beBytes 4 lockType.level
  -- locks are node-wide, so no node name
  | .releaseLock lock => sendNodeid lock false
  | .confirmLock lock lockType => sendNodeid lock false ++ beBytes 4 lockType.level
  | .declineLock lock lockType => sendNodeid lock false ++ beBytes 4 lockType.level
  | .requestReplayConfirm lsn => beBytes 8 lsn
  | .replayConfirm lsn => beBytes 8 lsn

/-- The bytes that `me` hands to `pgactive_send_message`. -/
def LockMessage.bytes (me : NodeId) (m : LockMessage NodeId) : List UInt8 :=
  prepareMessage me m.messageType ++ m.payload

def LockMessage.Sendable {ν : Type} : LockMessage ν → Prop
  | .requestReplayConfirm lsn => lsn < 2 ^ 64
  | .replayConfirm lsn => lsn < 2 ^ 64
  | _ => True

def LockType.ofLevel : ℕ → Option LockType
  | 0 => some .nolock
  | 1 => some .ddl
  | 2 => some .write
  | _ => none

def getmsgLockType : Reader WireError LockType := do
  let value ← getmsgint4
  match LockType.ofLevel value.toNat with
  | some lockType => return lockType
  | none => throw .undefinedLockType

def lockTypeOrOldProto : Reader WireError LockType := fun message =>
  if message.isEmpty then .ok (.write, message) else getmsgLockType message

def readLockMessage (messageType : UInt32) : Reader WireError (LockMessage NodeId) :=
  if messageType = 0 then pure .start
  else if messageType = acquireLockType then .acquireLock <$> lockTypeOrOldProto
  else if messageType = 2 then .releaseLock <$> getmsgNodeid false
  else if messageType = 3 then do
    let peer ← getmsgNodeid false
    .confirmLock peer <$> lockTypeOrOldProto
  else if messageType = 4 then do
    let peer ← getmsgNodeid false
    .declineLock peer <$> lockTypeOrOldProto
  else if messageType = 5 then (fun lsn => .requestReplayConfirm lsn.toNat) <$> getmsgint64
  else if messageType = 6 then (fun lsn => .replayConfirm lsn.toNat) <$> getmsgint64
  else throw .unhandledMessageType

/-- `pgactive_process_remote_message` once the envelope is off: the sender that the header
names and the message. -/
def decodeMessage : Reader WireError (NodeId × LockMessage NodeId) := do
  let messageType ← getmsgint4
  let origin ← getmsgNodeid true
  let m ← readLockMessage messageType
  return (origin, m)

/-- `pgactive_locks_process_message`: call the handler of the type, and what it leaves of the
message. -/
def LockNode.processMessageBytes (me : NodeId) (n : LockNode NodeId) (message : List UInt8) :
    Except WireError (Option (LockNode NodeId × List (LockMessage NodeId)) × List UInt8) :=
  (decodeMessage message).map fun ((origin, m), left) => (n.processMessage me origin m, left)

@[simp] theorem LockType.ofLevel_level (lockType : LockType) :
    ofLevel lockType.level = some lockType := by cases lockType <;> rfl

theorem reads_getmsgLockType (lockType : LockType) :
    Reads getmsgLockType (beBytes 4 lockType.level) lockType := by
  have hlt : lockType.level < 2 ^ 31 := by cases lockType <;> decide
  refine (reads_length hlt).bind_nil ?_
  rw [toNat_ofNat_of_lt hlt, LockType.ofLevel_level]
  exact .pure lockType

theorem readsAll_lockType (lockType : LockType) :
    ReadsAll lockTypeOrOldProto (beBytes 4 lockType.level) lockType := by
  have hread := (reads_getmsgLockType lockType).readsAll
  unfold ReadsAll lockTypeOrOldProto
  rw [if_neg (by simp [beBytes]), hread]

theorem reads_lsn {lsn : ℕ} (h : lsn < 2 ^ 64) :
    Reads getmsgint64 (beBytes 8 lsn) (UInt64.ofNat lsn) := by
  have hread := reads_getmsgint64 (UInt64.ofNat lsn)
  rwa [UInt64.toNat_ofNat_of_lt' h] at hread

variable {m : LockMessage NodeId}

theorem readsAll_payload (hm : m.Sendable) :
    ReadsAll (readLockMessage m.messageType) m.payload m := by
  cases m with
  | start => exact (Reads.pure _).readsAll
  | acquireLock lockType => exact (readsAll_lockType lockType).map _
  | releaseLock lock => exact ((reads_getmsgNodeid lock false).map _).readsAll
  | confirmLock lock lockType =>
    exact (reads_getmsgNodeid lock false).bind_all ((readsAll_lockType lockType).map _)
  | declineLock lock lockType =>
    exact (reads_getmsgNodeid lock false).bind_all ((readsAll_lockType lockType).map _)
  | requestReplayConfirm lsn =>
    have hread := ((reads_lsn hm).map
      fun lsn => (LockMessage.requestReplayConfirm lsn.toNat : LockMessage NodeId)).readsAll
    rwa [UInt64.toNat_ofNat_of_lt' hm] at hread
  | replayConfirm lsn =>
    have hread := ((reads_lsn hm).map
      fun lsn => (LockMessage.replayConfirm lsn.toNat : LockMessage NodeId)).readsAll
    rwa [UInt64.toNat_ofNat_of_lt' hm] at hread

theorem decodeMessage_prepareMessage (sender : NodeId) {messageType : UInt32}
    {payload : List UInt8} (h : ReadsAll (readLockMessage messageType) payload m) :
    decodeMessage (prepareMessage sender messageType ++ payload) = .ok ((sender, m), []) := by
  have hrest : ReadsAll (readLockMessage messageType >>= fun m => return (sender, m)) payload
      (sender, m) := h.map fun m => (sender, m)
  unfold prepareMessage
  rw [List.append_assoc]
  exact (reads_getmsgint4 _).bind_all ((reads_getmsgNodeid sender true).bind_all hrest)

theorem decodeMessage_bytes (sender : NodeId) (hm : m.Sendable) :
    decodeMessage (m.bytes sender) = .ok ((sender, m), []) :=
  decodeMessage_prepareMessage sender (readsAll_payload hm)

theorem bytes_length_lt (sender : NodeId) (m : LockMessage NodeId) :
    (m.bytes sender).length < 100 := by
  cases m <;> simp [LockMessage.bytes, prepareMessage, LockMessage.payload, sendNodeid]

/-- Every lock message, carried by the output plugin, reaches the handler of its type with
the sender, node, lock type and position that it was built from, and nothing of it is left. An
acquire message of an older peer, which ends after the header, asks for a write lock. -/
theorem lockMessage_round_trip (rcv : Receiver) (me sender : NodeId) (n : LockNode NodeId)
    (transactional : Bool) (lsn : UInt64) :
    (∀ m : LockMessage NodeId, m.Sendable →
      ∃ bs, pgDecodeMessage transactional lsn logicalMsgTag (m.bytes sender) = .ok (some bs) ∧
        processRemoteAction rcv bs = .ok (.message ⟨transactional, lsn, m.bytes sender⟩, []) ∧
        decodeMessage (m.bytes sender) = .ok ((sender, m), []) ∧
        n.processMessageBytes me (m.bytes sender) = .ok (n.processMessage me sender m, [])) ∧
    decodeMessage (prepareMessage sender acquireLockType) =
      .ok ((sender, .acquireLock .write), []) ∧
    n.processMessageBytes me (prepareMessage sender acquireLockType) =
      .ok (n.processMessage me sender (.acquireLock .write), []) := by
  have hold : decodeMessage (prepareMessage sender acquireLockType) =
      .ok ((sender, .acquireLock .write), []) := by
    have hend : ReadsAll (readLockMessage acquireLockType) [] (.acquireLock .write) := rfl
    have h := decodeMessage_prepareMessage sender hend
    rwa [List.append_nil] at h
  refine ⟨?_, hold, ?_⟩
  · intro m hm
    have hdecode := decodeMessage_bytes sender hm
    have hlen := bytes_length_lt sender m
    have hfits : (messageBytes transactional lsn (m.bytes sender)).length < maxAllocSize := by
      simp only [messageBytes, sized, List.length_cons, List.length_append, beBytes_length,
        maxAllocSize]
      omega
    refine ⟨messageBytes transactional lsn (m.bytes sender), ?_, ?_, hdecode, ?_⟩
    · rw [pgDecodeMessage, if_pos rfl, outputPluginWrite_ok hfits]
      rfl
    · exact (reads_messageBytes rcv transactional lsn (by omega)).readsAll
    · rw [LockNode.processMessageBytes, hdecode]
      rfl
  · rw [LockNode.processMessageBytes, hold]
    rfl

/-- Of the messages that a run sends, a confirmation and a replay request. -/
theorem confirmation_round_trip :
    (decodeMessage ((LockMessage.confirmLock ⟨2, 1, 5⟩ .ddl).bytes ⟨1, 1, 5⟩) =
      .ok ((⟨1, 1, 5⟩, .confirmLock ⟨2, 1, 5⟩ .ddl), [])) ∧
    decodeMessage ((LockMessage.requestReplayConfirm 48).bytes ⟨1, 1, 5⟩) =
      .ok ((⟨1, 1, 5⟩, .requestReplayConfirm 48), []) := by
  have h := (lockMessage_round_trip everyKindReceiver ⟨2, 1, 5⟩ ⟨1, 1, 5⟩ (.unlocked NodeId 1) true
    64).1
  obtain ⟨-, -, -, hconfirm, -⟩ := h (.confirmLock ⟨2, 1, 5⟩ .ddl) trivial
  obtain ⟨-, -, -, hrequest, -⟩ := h (.requestReplayConfirm 48) (show 48 < 2 ^ 64 by decide)
  exact ⟨hconfirm, hrequest⟩

end Pgactive.Locks
