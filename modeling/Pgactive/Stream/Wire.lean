import Pgactive.ByteReader
import Pgactive.Replication

/-!
# Bytes of the change stream

How the output plugin lays out transactions and row changes (`pg_decode_change`, `write_rel` and
`write_tuple`), and how the apply worker takes them apart (`pgactive_process_remote_action` and what
it calls). A value is its string of bytes in memory. Which transfer format a column uses is decided
in `Pgactive.writeTuple`.
-/

namespace Pgactive.Stream

open ByteReader

abbrev Value := List UInt8

/-- A C string without its terminating zero byte. -/
structure CString where
  bytes : List UInt8
  noNul : ∀ b ∈ bytes, b ≠ 0
deriving DecidableEq

theorem noNul_nil : ∀ b ∈ ([] : List UInt8), b ≠ 0 := by simp

def CString.empty : CString := ⟨[], noNul_nil⟩

/-- `NameData`: a catalog name is a C string of at most 63 bytes. -/
structure Name extends CString where
  /-- Room for the terminator in `NAMEDATALEN` bytes. -/
  short : bytes.length < 64
deriving DecidableEq

def cString (buf : List UInt8) : List UInt8 := buf.takeWhile (· ≠ 0)

def CString.terminated (s : CString) : List UInt8 := s.bytes ++ [0]

structure NodeId where
  sysid : UInt64
  timeline : UInt32
  dboid : UInt32
deriving DecidableEq

abbrev RepOriginId := UInt16

/-- The output, input, send and receive functions of the column types. -/
structure TypeIO where
  output : Attribute → Value → CString
  /-- `typinput`; `none` is an error it raises. -/
  input : Attribute → List UInt8 → Option Value
  /-- `typsend`. -/
  send : Attribute → Value → List UInt8
  /-- `typreceive`: the value and the number of bytes it has consumed. -/
  receive : Attribute → List UInt8 → Option (Value × ℕ)

/-- The receiver's input undoes the sender's output, and its receive undoes send and
consumes all of it. -/
structure TypeIO.Inverts (receiver sender : TypeIO) : Prop where
  input_output : ∀ att v, receiver.input att (sender.output att v).bytes = some v
  receive_send : ∀ att v,
    receiver.receive att (sender.send att v) = some (v, (sender.send att v).length)

/-- Errors raised while a message is written or read. -/
inductive WireError
  /-- "insufficient data left in message" of the `pq_getmsg` functions. -/
  | insufficientData
  /-- "out of memory: cannot enlarge string buffer". -/
  | cannotEnlargeBuffer
  /-- "unsupported byval length" of `store_att_byval` and `fetch_att`. -/
  | unsupportedByvalLength
  | tuple (e : TupleError)
  /-- "expected TUPLE". -/
  | expectedTuple
  /-- A number of columns that is negative as a C integer, which the source does not check for. -/
  | negativeColumnCount
  /-- "unknown column type". -/
  | unknownColumnType
  /-- "incorrect binary data format". -/
  | incorrectBinaryFormat
  /-- An error of the type's own input or receive function. -/
  | invalidRepresentation
  | undefinedTable
  /-- "unexpected relkind". -/
  | unexpectedRelkind
  /-- "expected new tuple", "expected action" and so on. -/
  | unexpectedAction
  /-- "unknown action of type". -/
  | unknownAction
  /-- "commit flags are currently unused". -/
  | commitFlagsSet
  /-- "replication loop in catchup mode". -/
  | replicationLoop
  | undefinedOrigin
  /-- "expected zero-length node name". -/
  | nonemptyNodeName
  /-- "unhandled pgactiveMessageType". -/
  | unhandledMessageType
  /-- A lock type outside the enumeration, which the source does not check for. -/
  | undefinedLockType
deriving DecidableEq

def getmsgbyte : Reader WireError UInt8 := readByte .insufficientData

def getmsgint2 : Reader WireError UInt16 := readU16 .insufficientData

def getmsgint4 : Reader WireError UInt32 := readU32 .insufficientData

def getmsgint64 : Reader WireError UInt64 := readU64 .insufficientData

/-- `pq_getmsgbytes`. The length is a signed integer and must not be negative. -/
def getmsgbytes (len : UInt32) : Reader WireError (List UInt8) :=
  if len.toNat < 2 ^ 31 then takeBytes .insufficientData len.toNat else throw .insufficientData

def sendNodeid (node : NodeId) (includeEmptyNodename : Bool) : List UInt8 :=
  beBytes 8 node.sysid.toNat ++ (beBytes 4 node.timeline.toNat ++ (beBytes 4 node.dboid.toNat ++
    if includeEmptyNodename then beBytes 4 0 else []))

def getmsgNodeid (expectEmptyNodename : Bool) : Reader WireError NodeId := do
  let sysid ← getmsgint64
  let timeline ← getmsgint4
  let dboid ← getmsgint4
  if expectEmptyNodename then
    let namelen ← getmsgint4
    if namelen ≠ 0 then throw .nonemptyNodeName
  return ⟨sysid, timeline, dboid⟩

def writeRel (nspname relname : Name) : List UInt8 :=
  beBytes 2 (nspname.bytes.length + 1) ++ (nspname.terminated ++
    (beBytes 2 (relname.bytes.length + 1) ++ relname.terminated))

/-- The lengths that `store_att_byval` and `fetch_att` know. -/
def byvalLengths : List ℕ := [1, 2, 4, 8]

/-- How many bytes of a value in internal binary format `write_tuple` sends. -/
def binaryLength (att : Attribute) (d : Value) : Except WireError ℕ :=
  if att.attbyval then
    if att.attlen.toNat ∈ byvalLengths then .ok att.attlen.toNat else .error .unsupportedByvalLength
  -- fixed length pass-by-reference type
  else if 0 < att.attlen then .ok att.attlen.toNat
  -- varlena type; an indirect datum is sent inline
  else .ok d.length

def sized (bs : List UInt8) : List UInt8 := beBytes 4 bs.length ++ bs

def columnBytes (io : TypeIO) (att : Attribute) : ColumnData Value → Except WireError (List UInt8)
  | .null => .ok ['n'.toUInt8]
  | .unchanged => .ok ['u'.toUInt8]
  | .data .binary d =>
    (binaryLength att d).map fun len => 'b'.toUInt8 :: (beBytes 4 len ++ d.take len)
  | .data .sendrecv d => .ok ('s'.toUInt8 :: sized (io.send att d))
  | .data .text d => .ok ('t'.toUInt8 :: sized (io.output att d).terminated)

def columnsBytes (io : TypeIO) : List Attribute → List (ColumnData Value) →
    Except WireError (List UInt8)
  | att :: desc, c :: cols => do
    let bs ← columnBytes io att c
    let rest ← columnsBytes io desc cols
    return bs ++ rest
  | _, _ => .ok []

def tupleBytes (data : OutputData) (io : TypeIO) (desc : List Attribute) (t : List (Datum Value)) :
    Except WireError (List UInt8) := do
  let cols ← (writeTuple data desc t).mapError .tuple
  let bs ← columnsBytes io desc cols
  return 'T'.toUInt8 :: (beBytes 4 desc.length ++ bs)

/-- A nullable column of type `int4`. -/
def int4Column : Attribute := ⟨false, false, true, 4, 23, ⟨'b', 0, 2406⟩⟩

/-- A relation as both sides know it. -/
structure Table where
  nspname : Name
  relname : Name
  desc : List Attribute

def changeBytes (data : OutputData) (io : TypeIO) (rel : Table) :
    Change Value → Except WireError (List UInt8)
  | .insert new => do
    let bs ← tupleBytes data io rel.desc new
    return 'I'.toUInt8 :: (writeRel rel.nspname rel.relname ++ ('N'.toUInt8 :: bs))
  | .update (some old) new => do
    let key ← tupleBytes data io rel.desc old
    let bs ← tupleBytes data io rel.desc new
    return 'U'.toUInt8 :: (writeRel rel.nspname rel.relname ++
      ('K'.toUInt8 :: (key ++ ('N'.toUInt8 :: bs))))
  | .update none new => do
    let bs ← tupleBytes data io rel.desc new
    return 'U'.toUInt8 :: (writeRel rel.nspname rel.relname ++ ('N'.toUInt8 :: bs))
  | .delete (some old) => do
    let key ← tupleBytes data io rel.desc old
    return 'D'.toUInt8 :: (writeRel rel.nspname rel.relname ++ ('K'.toUInt8 :: key))
  | .delete none =>
    .ok ('D'.toUInt8 :: (writeRel rel.nspname rel.relname ++ ['E'.toUInt8]))

/-- A decoded transaction, as far as its BEGIN and COMMIT messages need it. -/
structure Txn where
  xid : UInt32
  /-- Replication origin, in the numbering of the sending node. -/
  originId : RepOriginId
  originLsn : UInt64
  finalLsn : UInt64
  endLsn : UInt64
  commitTime : Int64
deriving DecidableEq

def transactionHasOrigin : UInt32 := 1

/-- The BEGIN message. `origin` is present when changesets are forwarded. -/
def beginBytes (origin : Option NodeId) (txn : Txn) : List UInt8 :=
  let flags : UInt32 := if origin.isSome then transactionHasOrigin else 0
  'B'.toUInt8 :: (beBytes 4 flags.toNat ++ (beBytes 8 txn.endLsn.toNat ++
    (beBytes 8 txn.commitTime.toUInt64.toNat ++ (beBytes 4 txn.xid.toNat ++
      match origin with
      | some node => sendNodeid node false ++ beBytes 8 txn.originLsn.toNat
      | none => []))))

/-- The COMMIT message of `pg_decode_commit_txn`. -/
def commitBytes (txn : Txn) : List UInt8 :=
  'C'.toUInt8 :: (beBytes 4 0 ++ (beBytes 8 txn.finalLsn.toNat ++ (beBytes 8 txn.endLsn.toNat ++
    beBytes 8 txn.commitTime.toUInt64.toNat)))

/-- `pgactive_LOGICAL_MSG_PREFIX`, which marks the logical messages of this extension. -/
def logicalMsgTag : String := "pgactive"

/-- The envelope of a logical message in `pg_decode_message`. -/
def messageBytes (transactional : Bool) (lsn : UInt64) (message : List UInt8) : List UInt8 :=
  'M'.toUInt8 :: ((if transactional then 1 else 0) :: (beBytes 8 lsn.toNat ++ sized message))

def maxAllocSize : ℕ := 0x3fffffff

def outputPluginWrite (message : Except WireError (List UInt8)) : Except WireError (List UInt8) :=
  match message with
  | .ok bs => if bs.length < maxAllocSize then .ok bs else .error .cannotEnlargeBuffer
  | .error e => .error e

/-- What the apply worker consults while it reads a message. -/
structure Receiver where
  me : NodeId
  /-- `replorigin_by_name` on the name made from a node identifier. -/
  origins : NodeId → Option RepOriginId
  /-- `RangeVarGetRelidExtended`: the columns, and whether the relation is an ordinary table. -/
  lookup : List UInt8 → List UInt8 → Option (List Attribute × Bool)
  /-- `pgactive.discard_mismatched_row_attributes`. -/
  discardMismatched : Bool
  io : TypeIO

def readRel (rcv : Receiver) :
    Reader WireError (List UInt8 × List UInt8 × List Attribute × Bool) := do
  let nspnamelen ← getmsgint2
  let schemaname ← getmsgbytes nspnamelen.toUInt32
  let relnamelen ← getmsgint2
  let relname ← getmsgbytes relnamelen.toUInt32
  match rcv.lookup (cString schemaname) (cString relname) with
  | some (desc, ordinary) => return (cString schemaname, cString relname, desc, ordinary)
  | none => throw .undefinedTable

def readBinary (att : Attribute) : Reader WireError Value := do
  let len ← getmsgint4
  let data ← getmsgbytes len
  if att.attbyval ∧ len.toNat ∉ byvalLengths then throw .unsupportedByvalLength else return data

def readSend (io : TypeIO) (att : Attribute) : Reader WireError Value := do
  let len ← getmsgint4
  let buf ← getmsgbytes len
  match io.receive att buf with
  | some (v, cursor) => if buf.length ≠ cursor then throw .incorrectBinaryFormat else return v
  | none => throw .invalidRepresentation

def readText (io : TypeIO) (att : Attribute) : Reader WireError Value := do
  let len ← getmsgint4
  let data ← getmsgbytes len
  match io.input att (cString data) with
  | some v => return v
  | none => throw .invalidRepresentation

def readKind (io : TypeIO) (att : Attribute) (kind : UInt8) :
    Reader WireError (TuplePart Value) :=
  if kind = 'n'.toUInt8 then pure ⟨none, true⟩
  else if kind = 'u'.toUInt8 then pure ⟨none, false⟩
  else if kind = 'b'.toUInt8 then (fun v => ⟨some v, true⟩) <$> readBinary att
  else if kind = 's'.toUInt8 then (fun v => ⟨some v, true⟩) <$> readSend io att
  else if kind = 't'.toUInt8 then (fun v => ⟨some v, true⟩) <$> readText io att
  else throw .unknownColumnType

def readColumnBytes (io : TypeIO) (att : Attribute) : Reader WireError (TuplePart Value) := do
  let kind ← getmsgbyte
  let part ← readKind io att kind
  if att.attisdropped ∧ part.value.isSome then throw (.tuple .dataForDroppedColumn)
  else return part

/-- The last loop of `read_tuple_parts`: of a surplus column only the kind is read. -/
def skipSurplus (discardMismatched : Bool) : ℕ → Reader WireError Unit
  | 0 => pure ()
  | n + 1 => do
    let kind ← getmsgbyte
    if kind ≠ 'n'.toUInt8 ∧ ¬discardMismatched then throw (.tuple .differentColumnCount)
    skipSurplus discardMismatched n

/-- The loops of `read_tuple_parts`, with the number of remote columns still to come. -/
def readColumns (rcv : Receiver) : List Attribute → ℕ → Reader WireError (List (TuplePart Value))
  | [], surplus => do
    skipSurplus rcv.discardMismatched surplus
    return []
  | att :: desc, 0 =>
    if ¬att.attisdropped ∧ att.attnotnull then throw (.tuple .differentColumnCount)
    else (⟨none, true⟩ :: ·) <$> readColumns rcv desc 0
  | att :: desc, rnatts + 1 => do
    let part ← readColumnBytes rcv.io att
    (part :: ·) <$> readColumns rcv desc rnatts

/-- `read_tuple_parts`. With a negative number of columns the source writes in front of its
arrays, which this list of parts cannot show. -/
def readTupleBytes (rcv : Receiver) (desc : List Attribute) :
    Reader WireError (List (TuplePart Value)) := do
  let action ← getmsgbyte
  if action ≠ 'T'.toUInt8 then throw .expectedTuple
  let rnatts ← getmsgint4
  if 2 ^ 31 ≤ rnatts.toNat then throw .negativeColumnCount
  readColumns rcv desc rnatts.toNat

/-- What `process_remote_begin` stores. -/
structure RemoteBegin where
  /-- `replorigin_session_origin_lsn`. -/
  commitAfterendLsn : UInt64
  /-- `replorigin_session_origin_timestamp`. -/
  committime : Int64
  /-- `replication_origin_xid`. -/
  remoteXid : UInt32
  /-- `remote_origin` and `remote_origin_lsn`, if the message has them. -/
  remoteOrigin : Option (NodeId × UInt64)
  /-- `remote_origin_id`, or the error that is raised once the message is read. -/
  remoteOriginId : Except WireError RepOriginId

/-- The end of `process_remote_begin`: the local identifier of a forwarded origin. -/
def Receiver.resolveOrigin (rcv : Receiver) :
    Option (NodeId × UInt64) → Except WireError RepOriginId
  | none => .ok 0
  | some (node, _) =>
    if node = rcv.me then .error .replicationLoop
    else
      match rcv.origins node with
      | some id => .ok id
      | none => .error .undefinedOrigin

def processRemoteBegin (rcv : Receiver) : Reader WireError RemoteBegin := do
  let flags ← getmsgint4
  let commitAfterendLsn ← getmsgint64
  let committime ← getmsgint64
  let remoteXid ← getmsgint4
  let origin ←
    if flags &&& transactionHasOrigin ≠ 0 then do
      let node ← getmsgNodeid false
      let lsn ← getmsgint64
      pure (some (node, lsn))
    else pure none
  return ⟨commitAfterendLsn, committime.toInt64, remoteXid, origin, rcv.resolveOrigin origin⟩

/-- What `process_remote_commit` reads. -/
structure RemoteCommit where
  commitLsn : UInt64
  commitAfterendLsn : UInt64
  committime : Int64

def processRemoteCommit : Reader WireError RemoteCommit := do
  let flags ← getmsgint4
  if flags ≠ 0 then throw .commitFlagsSet
  let commitLsn ← getmsgint64
  let commitAfterendLsn ← getmsgint64
  let committime ← getmsgint64
  return ⟨commitLsn, commitAfterendLsn, committime.toInt64⟩

/-- A row change as the apply worker has read it. -/
structure RemoteChange where
  nspname : List UInt8
  relname : List UInt8
  old : Option (List (TuplePart Value))
  new : Option (List (TuplePart Value))

def readInsert (rcv : Receiver) : Reader WireError RemoteChange := do
  let (nspname, relname, desc, ordinary) ← readRel rcv
  let action ← getmsgbyte
  if action ≠ 'N'.toUInt8 then throw .unexpectedAction
  let new ← readTupleBytes rcv desc
  if !ordinary then throw .unexpectedRelkind
  return ⟨nspname, relname, none, some new⟩

def readUpdate (rcv : Receiver) : Reader WireError RemoteChange := do
  let (nspname, relname, desc, ordinary) ← readRel rcv
  let action ← getmsgbyte
  if action = 'K'.toUInt8 then
    let old ← readTupleBytes rcv desc
    let action ← getmsgbyte
    if action ≠ 'N'.toUInt8 then throw .unexpectedAction
    if !ordinary then throw .unexpectedRelkind
    let new ← readTupleBytes rcv desc
    return ⟨nspname, relname, some old, some new⟩
  else
    if action ≠ 'N'.toUInt8 then throw .unexpectedAction
    if !ordinary then throw .unexpectedRelkind
    let new ← readTupleBytes rcv desc
    return ⟨nspname, relname, none, some new⟩

/-- The reading part of `process_remote_delete`. Without a key the change is dropped with
the warning "got delete without pkey". -/
def readDelete (rcv : Receiver) : Reader WireError RemoteChange := do
  let (nspname, relname, desc, ordinary) ← readRel rcv
  let action ← getmsgbyte
  if action = 'E'.toUInt8 then return ⟨nspname, relname, none, none⟩
  else
    if action ≠ 'K'.toUInt8 then throw .unexpectedAction
    let old ← readTupleBytes rcv desc
    if !ordinary then throw .unexpectedRelkind
    return ⟨nspname, relname, some old, none⟩

/-- The envelope of a logical message, as `pgactive_process_remote_message` unwraps it. -/
structure RemoteMessage where
  transactional : Bool
  lsn : UInt64
  payload : List UInt8
deriving DecidableEq

def readMessage : Reader WireError RemoteMessage := do
  let transactional ← getmsgbyte
  let lsn ← getmsgint64
  let len ← getmsgint4
  let payload ← getmsgbytes len
  return ⟨transactional ≠ 0, lsn, payload⟩

/-- A record of the stream, as the apply worker has read it. -/
inductive RemoteAction
  | begin (b : RemoteBegin)
  | commit (c : RemoteCommit)
  | insert (c : RemoteChange)
  | update (c : RemoteChange)
  | delete (c : RemoteChange)
  | message (m : RemoteMessage)

/-- `pgactive_process_remote_action` up to the work on the record. -/
def processRemoteAction (rcv : Receiver) : Reader WireError RemoteAction := do
  let action ← getmsgbyte
  if action = 'B'.toUInt8 then .begin <$> processRemoteBegin rcv
  else if action = 'C'.toUInt8 then .commit <$> processRemoteCommit
  else if action = 'I'.toUInt8 then .insert <$> readInsert rcv
  else if action = 'U'.toUInt8 then .update <$> readUpdate rcv
  else if action = 'D'.toUInt8 then .delete <$> readDelete rcv
  else if action = 'M'.toUInt8 then .message <$> readMessage
  else throw .unknownAction

end Pgactive.Stream
