import Pgactive.Stream.Output

/-!
# Reading back the change stream

Every message that the output plugin emits is taken apart into the fields it was made from, down to
its last byte. Reading the bytes of a column item of `Pgactive.writeTuple` is reading the item.
-/

namespace Pgactive.Stream

open ByteReader FallibleState

/-! ### Integers, strings and names -/

theorem reads_getmsgint4 (x : UInt32) : Reads getmsgint4 (beBytes 4 x.toNat) x :=
  reads_readU32 _ x

theorem reads_getmsgint64 (x : UInt64) : Reads getmsgint64 (beBytes 8 x.toNat) x :=
  reads_readU64 _ x

variable {n : ℕ}

theorem toNat_ofNat_of_lt (h : n < 2 ^ 31) : (UInt32.ofNat n).toNat = n :=
  UInt32.toNat_ofNat_of_lt' (by
    change n < 2 ^ 32
    omega)

theorem reads_length (h : n < 2 ^ 31) : Reads getmsgint4 (beBytes 4 n) (UInt32.ofNat n) := by
  have hread := reads_getmsgint4 (UInt32.ofNat n)
  rwa [toNat_ofNat_of_lt h] at hread

variable {bs : List UInt8}

theorem reads_getmsgbytes {len : UInt32} (hlen : len.toNat = bs.length) (h : bs.length < 2 ^ 31) :
    Reads (getmsgbytes len) bs bs := by
  unfold getmsgbytes
  rw [hlen, if_pos h]
  exact reads_takeBytes _ bs

theorem reads_sized {α : Type} {f : UInt32 → List UInt8 → Reader WireError α} {a : α}
    (h : bs.length < 2 ^ 31) (hf : Reads (f (UInt32.ofNat bs.length) bs) [] a) :
    Reads (getmsgint4 >>= fun len => getmsgbytes len >>= fun data => f len data) (sized bs) a := by
  exact (reads_length h).bind ((reads_getmsgbytes (toNat_ofNat_of_lt h) h).bind_nil hf)

theorem cString_terminated (s : CString) : cString s.terminated = s.bytes := by
  have h : ∀ b ∈ s.bytes, decide (b ≠ 0) = true := by simpa using s.noNul
  rw [cString, CString.terminated, List.takeWhile_append_of_pos h]
  simp

theorem terminated_length (s : CString) : s.terminated.length = s.bytes.length + 1 := by
  simp [CString.terminated]

theorem reads_getmsgNodeid (node : NodeId) (name : Bool) :
    Reads (getmsgNodeid name) (sendNodeid node name) node := by
  unfold getmsgNodeid sendNodeid
  refine (reads_getmsgint64 _).bind ((reads_getmsgint4 _).bind ((reads_getmsgint4 _).bind ?_))
  cases name with
  | false => exact .pure _
  | true =>
    exact (reads_getmsgint4 0).bind_nil (.pure node)

theorem reads_name {α : Type} {f : List UInt8 → Reader WireError α} (name : Name) {a : α}
    (hf : Reads (f name.terminated) bs a) :
    Reads (getmsgint2 >>= fun len => getmsgbytes len.toUInt32 >>= f)
      (beBytes 2 (name.bytes.length + 1) ++ (name.terminated ++ bs)) a := by
  have hshort := name.short
  have hlen : (UInt16.ofNat (name.bytes.length + 1)).toNat = name.bytes.length + 1 :=
    UInt16.toNat_ofNat_of_lt' (by
      change _ < 2 ^ 16
      omega)
  have hread := reads_readU16 WireError.insufficientData (UInt16.ofNat (name.bytes.length + 1))
  rw [hlen] at hread
  refine hread.bind ((reads_getmsgbytes ?_ ?_).bind hf)
  · rw [UInt16.toNat_toUInt32, hlen, terminated_length]
  · rw [terminated_length]
    omega

variable {rel : Table}

theorem reads_writeRel {rcv : Receiver} {ordinary : Bool}
    (hrel : rcv.lookup rel.nspname.bytes rel.relname.bytes = some (rel.desc, ordinary)) :
    Reads (readRel rcv) (writeRel rel.nspname rel.relname)
      (rel.nspname.bytes, rel.relname.bytes, rel.desc, ordinary) := by
  refine reads_name rel.nspname ?_
  rw [← List.append_nil rel.relname.terminated]
  refine reads_name rel.relname ?_
  simp only [cString_terminated, hrel]
  exact .pure _

/-! ### Columns and tuples -/

def FitsAttribute (att : Attribute) (d : Value) : Prop :=
  0 < att.attlen → d.length = att.attlen.toNat

/-- A heap tuple of a relation: one entry for each column, of the length of its type. A
dropped column may still hold a value. -/
def HeapTuple (desc : List Attribute) (t : List (Datum Value)) : Prop :=
  List.Forall₂ (fun att v => ∀ d, v.value = some d → FitsAttribute att d) desc t

variable {rcv : Receiver} {io : TypeIO} {att : Attribute}

variable {d : Value}

theorem reads_readBinary (hlen : d.length < 2 ^ 31)
    (hbyval : att.attbyval = true → d.length ∈ byvalLengths) :
    Reads (readBinary att) (sized d) d := by
  refine reads_sized hlen ?_
  rw [toNat_ofNat_of_lt hlen, if_neg (by tauto)]
  exact .pure d

theorem reads_readSend (hio : rcv.io.Inverts io) (hlen : (io.send att d).length < 2 ^ 31) :
    Reads (readSend rcv.io att) (sized (io.send att d)) d := by
  refine reads_sized hlen ?_
  simp only [hio.receive_send, ne_eq, not_true_eq_false, if_false]
  exact .pure d

theorem reads_readText (hio : rcv.io.Inverts io)
    (hlen : (io.output att d).terminated.length < 2 ^ 31) :
    Reads (readText rcv.io att) (sized (io.output att d).terminated) d := by
  refine reads_sized hlen ?_
  simp only [cString_terminated, hio.input_output]
  exact .pure d

theorem reads_readColumnBytes {kind : UInt8} {part : TuplePart Value}
    (hkind : Reads (readKind io att kind) bs part)
    (hdrop : ¬(att.attisdropped = true ∧ part.value.isSome = true)) :
    Reads (readColumnBytes io att) (kind :: bs) part := by
  refine reads_readByte_bind _ (hkind.bind_nil ?_)
  rw [if_neg hdrop]
  exact .pure part

theorem binaryLength_eq {len : ℕ} (hfit : FitsAttribute att d) (h : binaryLength att d = .ok len) :
    len = d.length ∧ (att.attbyval = true → d.length ∈ byvalLengths) := by
  unfold binaryLength at h
  split at h
  · split at h
    · next hmem =>
      cases h
      have hpos : 0 < att.attlen := by
        simp only [byvalLengths, List.mem_cons, List.not_mem_nil, or_false] at hmem
        omega
      exact ⟨(hfit hpos).symm, fun _ => hfit hpos ▸ hmem⟩
    · cases h
  · next hbyval =>
    refine ⟨?_, fun h => absurd h hbyval⟩
    split at h
    · next hpos =>
      cases h
      exact (hfit hpos).symm
    · cases h
      rfl

theorem columnBytes_binary_eq (hb : columnBytes io att (.data .binary d) = .ok bs) :
    ∃ len, binaryLength att d = .ok len ∧ bs = 'b'.toUInt8 :: (beBytes 4 len ++ d.take len) := by
  obtain ⟨len, hn, hbs⟩ := except_map_eq_ok.mp hb
  exact ⟨len, hn, hbs.symm⟩

theorem reads_readKind_data (hio : rcv.io.Inverts io) {f : Transfer} (hfit : FitsAttribute att d)
    (hb : columnBytes io att (.data f d) = .ok bs) (hlen : bs.length < 2 ^ 31) :
    ∃ kind rest, bs = kind :: rest ∧ Reads (readKind rcv.io att kind) rest ⟨some d, true⟩ := by
  cases f with
  | binary =>
    obtain ⟨len, hn, rfl⟩ := columnBytes_binary_eq hb
    obtain ⟨rfl, hbyval⟩ := binaryLength_eq hfit hn
    rw [List.take_length] at hlen ⊢
    simp only [List.length_cons, List.length_append] at hlen
    exact ⟨_, _, rfl, (reads_readBinary (by omega) hbyval).map _⟩
  | sendrecv =>
    cases hb
    simp only [sized, List.length_cons, List.length_append] at hlen
    exact ⟨_, _, rfl, (reads_readSend hio (by omega)).map _⟩
  | text =>
    cases hb
    simp only [sized, List.length_cons, List.length_append] at hlen
    exact ⟨_, _, rfl, (reads_readText hio (by omega)).map _⟩

variable {c : ColumnData Value}

theorem reads_columnBytes (hio : rcv.io.Inverts io) {part : TuplePart Value}
    (hfit : ∀ f d, c = .data f d → FitsAttribute att d) (hb : columnBytes io att c = .ok bs)
    (hlen : bs.length < 2 ^ 31) (hread : readColumn att c = .ok part) :
    Reads (readColumnBytes rcv.io att) bs part := by
  cases c with
  | null =>
    cases hb
    cases hread
    exact reads_readColumnBytes (.pure _) (by simp)
  | unchanged =>
    cases hb
    cases hread
    exact reads_readColumnBytes (.pure _) (by simp)
  | data f d =>
    obtain ⟨kind, rest, rfl, hkind⟩ := reads_readKind_data hio (hfit f d rfl) hb hlen
    cases hdrop : att.attisdropped with
    | true => simp [readColumn, hdrop] at hread
    | false =>
      simp only [readColumn, hdrop, Bool.false_eq_true, if_false, Except.ok.injEq] at hread
      subst hread
      exact reads_readColumnBytes hkind (by simp [hdrop])

theorem columnBytes_length_pos (hb : columnBytes io att c = .ok bs) : 0 < bs.length := by
  obtain _ | _ | ⟨_ | _ | _, d⟩ := c
  case data.binary =>
    obtain ⟨len, -, rfl⟩ := columnBytes_binary_eq hb
    simp
  all_goals
    cases hb
    simp

variable {desc : List Attribute} {cols : List (ColumnData Value)}

theorem columnsBytes_cons (h : columnsBytes io (att :: desc) (c :: cols) = .ok bs) :
    ∃ as cs, columnBytes io att c = .ok as ∧ columnsBytes io desc cols = .ok cs ∧
      bs = as ++ cs := by
  obtain ⟨as, hc, h⟩ := except_bind_eq_ok.mp h
  obtain ⟨cs, hcs, h⟩ := except_bind_eq_ok.mp h
  cases h
  exact ⟨as, cs, hc, hcs, rfl⟩

theorem length_le_columnsBytes (hsame : desc.length = cols.length)
    (h : columnsBytes io desc cols = .ok bs) : desc.length ≤ bs.length := by
  induction desc generalizing cols bs with
  | nil => simp
  | cons att desc ih =>
    obtain _ | ⟨c, cols⟩ := cols
    · simp at hsame
    obtain ⟨as, cs, hc, hcs, rfl⟩ := columnsBytes_cons h
    have hpos := columnBytes_length_pos hc
    have hrest := ih (by simpa using hsame) hcs
    simp only [List.length_cons, List.length_append]
    omega

theorem reads_columnsBytes (hio : rcv.io.Inverts io) {parts : List (TuplePart Value)}
    (hfit : List.Forall₂ (fun att c => ∀ f d, c = .data f d → FitsAttribute att d) desc cols)
    (hb : columnsBytes io desc cols = .ok bs) (hlen : bs.length < 2 ^ 31)
    (hread : readTupleParts rcv.discardMismatched desc cols = .ok parts) :
    Reads (readColumns rcv desc desc.length) bs parts := by
  induction hfit generalizing bs parts with
  | nil =>
    cases hb
    simp only [readTupleParts] at hread
    split at hread
    · cases hread
      exact .pure _
    · cases hread
  | @cons att c desc cols hc _ ih =>
    obtain ⟨as, cs, has, hcs, rfl⟩ := columnsBytes_cons hb
    rw [List.length_append] at hlen
    unfold readTupleParts at hread
    cases hpart : readColumn att c with
    | error e => simp [hpart] at hread
    | ok part =>
      cases hparts : readTupleParts rcv.discardMismatched desc cols with
      | error e => simp [hpart, hparts] at hread
      | ok rest =>
        simp only [hpart, hparts, Except.ok.injEq] at hread
        subst hread
        have hfirst := reads_columnBytes hio hc has (by omega) hpart
        exact hfirst.bind ((ih hcs (by omega) hparts).map _)

variable {data : OutputData} {t : List (Datum Value)}

theorem HeapTuple.items_fit (ht : HeapTuple desc t) (hw : writeTuple data desc t = .ok cols) :
    List.Forall₂ (fun att c => ∀ f d, c = .data f d → FitsAttribute att d) desc cols := by
  induction ht generalizing cols with
  | nil =>
    cases hw
    exact .nil
  | cons hv _ ih =>
    obtain ⟨c, cs, hc, hcs, rfl⟩ := writeTuple_cons hw
    refine .cons ?_ (ih hcs)
    rintro f d rfl
    exact hv d (value_of_writeColumn hc)

theorem tupleBytes_eq_ok (hw : tupleBytes data io desc t = .ok bs) :
    ∃ cols cs, writeTuple data desc t = .ok cols ∧ columnsBytes io desc cols = .ok cs ∧
      bs = 'T'.toUInt8 :: (beBytes 4 desc.length ++ cs) := by
  obtain ⟨cols, hcols, hw⟩ := except_bind_eq_ok.mp hw
  obtain ⟨cs, hcs, hw⟩ := except_bind_eq_ok.mp hw
  cases hw
  exact ⟨cols, cs, except_mapError_eq_ok.mp hcols, hcs, rfl⟩

theorem readTupleBytes_header (hn : n < 2 ^ 31) (input : List UInt8) :
    readTupleBytes rcv desc ('T'.toUInt8 :: (beBytes 4 n ++ input)) =
      readColumns rcv desc n input := by
  have hcount := (reads_length hn).bind_apply (fun rnatts => do
    if 2 ^ 31 ≤ rnatts.toNat then throw .negativeColumnCount
    readColumns rcv desc rnatts.toNat) input
  rw [toNat_ofNat_of_lt hn, if_neg (by omega)] at hcount
  exact hcount

theorem reads_tupleBytes (hio : rcv.io.Inverts io) (ht : HeapTuple desc t)
    (hw : tupleBytes data io desc t = .ok bs) (hlen : bs.length < 2 ^ 31) :
    Reads (readTupleBytes rcv desc) bs (List.zipWith sentPart desc t) := by
  obtain ⟨cols, cs, hcols, hcs, rfl⟩ := tupleBytes_eq_ok hw
  have hfit := ht.items_fit hcols
  have hcount := length_le_columnsBytes hfit.length_eq hcs
  simp only [List.length_cons, List.length_append] at hlen
  intro rest
  rw [List.cons_append, List.append_assoc, readTupleBytes_header (by omega)]
  exact reads_columnsBytes hio hfit hcs (by omega)
    (readTupleParts_eq_sentPart ht.length_eq hcols) rest

/-! ### Messages -/

/-- The record that the receiver is to obtain from a change of `rel`. -/
def decodedChange (rel : Table) : Change Value → RemoteAction
  | .insert new =>
    .insert ⟨rel.nspname.bytes, rel.relname.bytes, none, some (List.zipWith sentPart rel.desc new)⟩
  | .update old new =>
    .update ⟨rel.nspname.bytes, rel.relname.bytes, old.map (List.zipWith sentPart rel.desc),
      some (List.zipWith sentPart rel.desc new)⟩
  | .delete old =>
    .delete ⟨rel.nspname.bytes, rel.relname.bytes, old.map (List.zipWith sentPart rel.desc), none⟩

def ChangeOf (desc : List Attribute) : Change Value → Prop
  | .insert new => HeapTuple desc new
  | .update old new => (∀ t ∈ old, HeapTuple desc t) ∧ HeapTuple desc new
  | .delete old => ∀ t ∈ old, HeapTuple desc t

variable {change : Change Value}

theorem reads_changeBytes (hio : rcv.io.Inverts io)
    (hrel : rcv.lookup rel.nspname.bytes rel.relname.bytes = some (rel.desc, true))
    (hchange : ChangeOf rel.desc change) (hw : changeBytes data io rel change = .ok bs)
    (hlen : bs.length < 2 ^ 31) :
    Reads (processRemoteAction rcv) bs (decodedChange rel change) := by
  cases change with
  | insert new =>
    obtain ⟨as, has, hbs⟩ := except_bind_eq_ok.mp hw
    cases hbs
    simp only [List.length_cons, List.length_append] at hlen
    refine reads_readByte_bind _ (Reads.map ?_ _)
    refine (reads_writeRel hrel).bind (reads_readByte_bind _ ?_)
    exact (reads_tupleBytes hio hchange has (by omega)).bind_nil (.pure _)
  | update old new =>
    obtain ⟨hold, hnew⟩ := hchange
    cases old with
    | none =>
      obtain ⟨as, has, hbs⟩ := except_bind_eq_ok.mp hw
      cases hbs
      simp only [List.length_cons, List.length_append] at hlen
      refine reads_readByte_bind _ (Reads.map ?_ _)
      refine (reads_writeRel hrel).bind (reads_readByte_bind _ ?_)
      exact (reads_tupleBytes hio hnew has (by omega)).bind_nil (.pure _)
    | some old =>
      obtain ⟨key, hkey, hw⟩ := except_bind_eq_ok.mp hw
      obtain ⟨as, has, hbs⟩ := except_bind_eq_ok.mp hw
      cases hbs
      simp only [List.length_cons, List.length_append] at hlen
      refine reads_readByte_bind _ (Reads.map ?_ _)
      refine (reads_writeRel hrel).bind (reads_readByte_bind _ ?_)
      refine (reads_tupleBytes hio (hold old rfl) hkey (by omega)).bind
        (reads_readByte_bind _ ?_)
      exact (reads_tupleBytes hio hnew has (by omega)).bind_nil (.pure _)
  | delete old =>
    cases old with
    | none =>
      cases hw
      refine reads_readByte_bind _ (Reads.map ?_ _)
      refine (reads_writeRel hrel).bind (reads_readByte_bind _ ?_)
      exact .pure _
    | some old =>
      obtain ⟨key, hkey, hbs⟩ := except_bind_eq_ok.mp hw
      cases hbs
      simp only [List.length_cons, List.length_append] at hlen
      refine reads_readByte_bind _ (Reads.map ?_ _)
      refine (reads_writeRel hrel).bind (reads_readByte_bind _ ?_)
      exact (reads_tupleBytes hio (hchange old rfl) hkey (by omega)).bind_nil (.pure _)

/-- What the receiver in the model of the rows reads from its message. -/
def receivedMessage (discard : Bool) (rel : Table) :
    ChangeMessage Value → Except TupleError RemoteAction
  | .insert new => do
    let new ← readTupleParts discard rel.desc new
    return .insert ⟨rel.nspname.bytes, rel.relname.bytes, none, some new⟩
  | .update old new => do
    let old ← old.mapM (readTupleParts discard rel.desc)
    let new ← readTupleParts discard rel.desc new
    return .update ⟨rel.nspname.bytes, rel.relname.bytes, old, some new⟩
  | .delete old => do
    let old ← old.mapM (readTupleParts discard rel.desc)
    return .delete ⟨rel.nspname.bytes, rel.relname.bytes, old, none⟩

/-- A change of which bytes are written has a message in the model of the rows, and there the
receiver reads the same from it as here from the bytes. -/
theorem exists_message (hchange : ChangeOf rel.desc change)
    (hw : changeBytes data io rel change = .ok bs) (discard : Bool) :
    ∃ msg, Pgactive.pgDecodeChange data rel.desc change = .ok msg ∧
      receivedMessage discard rel msg = .ok (decodedChange rel change) := by
  have hwrite {t : List (Datum Value)} {as : List UInt8} (ht : HeapTuple rel.desc t)
      (has : tupleBytes data io rel.desc t = .ok as) : ∃ cols,
        writeTuple data rel.desc t = .ok cols ∧
          readTupleParts discard rel.desc cols = .ok (List.zipWith sentPart rel.desc t) := by
    obtain ⟨cols, -, hcols, -⟩ := tupleBytes_eq_ok has
    exact ⟨cols, hcols, readTupleParts_eq_sentPart ht.length_eq hcols⟩
  rcases change with new | ⟨_ | old, new⟩ | _ | old
  · obtain ⟨as, has, -⟩ := except_bind_eq_ok.mp hw
    obtain ⟨cols, hcols, hread⟩ := hwrite hchange has
    simp only [Pgactive.pgDecodeChange, hcols]
    exact ⟨_, rfl, by rw [receivedMessage, hread]; rfl⟩
  · obtain ⟨as, has, -⟩ := except_bind_eq_ok.mp hw
    obtain ⟨cols, hcols, hread⟩ := hwrite hchange.2 has
    simp only [Pgactive.pgDecodeChange, hcols]
    exact ⟨_, rfl, by rw [receivedMessage, hread]; rfl⟩
  · obtain ⟨key, hkey, hw⟩ := except_bind_eq_ok.mp hw
    obtain ⟨as, has, -⟩ := except_bind_eq_ok.mp hw
    obtain ⟨keyCols, hkeyCols, hkeyRead⟩ := hwrite (hchange.1 old rfl) hkey
    obtain ⟨cols, hcols, hread⟩ := hwrite hchange.2 has
    simp only [Pgactive.pgDecodeChange, writeOldTuple, hkeyCols, hcols]
    exact ⟨_, rfl, by simp only [receivedMessage, Option.mapM_some, hkeyRead, hread]; rfl⟩
  · exact ⟨.delete none, rfl, rfl⟩
  · obtain ⟨key, hkey, -⟩ := except_bind_eq_ok.mp hw
    obtain ⟨cols, hcols, hread⟩ := hwrite (hchange old rfl) hkey
    simp only [Pgactive.pgDecodeChange, writeOldTuple, hcols]
    exact ⟨_, rfl, by simp only [receivedMessage, Option.mapM_some, hread]; rfl⟩

def decodedBegin (rcv : Receiver) (origin : Option NodeId) (txn : Txn) : RemoteBegin :=
  ⟨txn.endLsn, txn.commitTime, txn.xid, origin.map (·, txn.originLsn),
    rcv.resolveOrigin (origin.map (·, txn.originLsn))⟩

theorem reads_beginBytes (rcv : Receiver) (origin : Option NodeId) (txn : Txn) :
    Reads (processRemoteAction rcv) (beginBytes origin txn)
      (.begin (decodedBegin rcv origin txn)) := by
  refine reads_readByte_bind _ (Reads.map ?_ _)
  refine (reads_getmsgint4 _).bind ((reads_getmsgint64 _).bind ((reads_getmsgint64 _).bind
    ((reads_getmsgint4 _).bind ?_)))
  cases origin with
  | none => exact .pure _
  | some node =>
    have hflag : transactionHasOrigin &&& transactionHasOrigin ≠ 0 := by decide
    simp only [Option.isSome_some, if_true, if_pos hflag]
    refine (reads_getmsgNodeid node false).bind ?_
    refine (reads_getmsgint64 _).bind_nil ?_
    exact .pure _

theorem reads_commitBytes (rcv : Receiver) (txn : Txn) :
    Reads (processRemoteAction rcv) (commitBytes txn)
      (.commit ⟨txn.finalLsn, txn.endLsn, txn.commitTime⟩) := by
  refine reads_readByte_bind _ (Reads.map ?_ _)
  refine (reads_getmsgint4 0).bind ((reads_getmsgint64 _).bind ((reads_getmsgint64 _).bind ?_))
  exact (reads_getmsgint64 _).bind_nil (.pure _)

theorem reads_messageBytes (rcv : Receiver) (transactional : Bool) (lsn : UInt64)
    {message : List UInt8} (hlen : message.length < 2 ^ 31) :
    Reads (processRemoteAction rcv) (messageBytes transactional lsn message)
      (.message ⟨transactional, lsn, message⟩) := by
  refine reads_readByte_bind _ (Reads.map ?_ _)
  refine reads_readByte_bind _ ((reads_getmsgint64 _).bind (reads_sized hlen ?_))
  cases transactional with
  | false => exact .pure _
  | true => exact .pure _

/-! ### What is written can be read -/

def Walsender.sentOrigin (ws : Walsender) (txn : Txn) : Option NodeId :=
  if ws.data.forwardChangesets then (ws.fetchSysidViaNodeId txn.originId).toOption else none

variable {ws : Walsender} {txn : Txn}

theorem pgDecodeBeginTxn_eq (h : pgDecodeBeginTxn ws txn = .ok (some bs)) :
    bs = beginBytes (ws.sentOrigin txn) txn := by
  unfold pgDecodeBeginTxn at h
  split at h
  · split at h
    · next hfwd =>
      obtain ⟨origin, horigin, h⟩ := except_bind_eq_ok.mp h
      rw [outputPluginWrite_ok (beginBytes_length_lt (some origin) txn)] at h
      cases h
      simp [Walsender.sentOrigin, hfwd, horigin, Except.toOption]
    · next hfwd =>
      rw [outputPluginWrite_ok (beginBytes_length_lt none txn)] at h
      cases h
      simp [Walsender.sentOrigin, hfwd]
  · cases h

theorem pgDecodeCommitTxn_eq (h : pgDecodeCommitTxn ws txn = .ok (some bs)) :
    bs = commitBytes txn := by
  unfold pgDecodeCommitTxn at h
  split at h
  · rw [outputPluginWrite_ok (commitBytes_length_lt txn)] at h
    cases h
    rfl
  · cases h

theorem pgDecodeChange_eq {rel : LocalRelation}
    (h : pgDecodeChange ws txn rel change = .ok (some bs)) :
    changeBytes ws.data.toOutputData ws.io rel.toTable change = .ok bs ∧
      bs.length < maxAllocSize := by
  unfold pgDecodeChange at h
  split at h
  · split at h
    · obtain ⟨out, hout, heq⟩ := except_map_eq_ok.mp h
      cases heq
      exact outputPluginWrite_eq_ok hout
    · cases h
  · cases h

/-- Whatever the output plugin emits for BEGIN, for a row change and for COMMIT, under any
negotiated options, the apply worker decodes to the fields it was made from and leaves no
byte of it. The changes are those of a table that both nodes have with the same columns. -/
theorem stream_round_trip (ws : Walsender) (rcv : Receiver) (hio : rcv.io.Inverts ws.io) :
    (∀ txn bs, pgDecodeBeginTxn ws txn = .ok (some bs) →
      processRemoteAction rcv bs =
        .ok (.begin (decodedBegin rcv (ws.sentOrigin txn) txn), [])) ∧
    (∀ txn (rel : LocalRelation) change bs,
      rcv.lookup rel.nspname.bytes rel.relname.bytes = some (rel.desc, true) →
      ChangeOf rel.desc change → pgDecodeChange ws txn rel change = .ok (some bs) →
      processRemoteAction rcv bs = .ok (decodedChange rel.toTable change, [])) ∧
    (∀ txn bs, pgDecodeCommitTxn ws txn = .ok (some bs) →
      processRemoteAction rcv bs =
        .ok (.commit ⟨txn.finalLsn, txn.endLsn, txn.commitTime⟩, [])) := by
  refine ⟨?_, ?_, ?_⟩
  · intro txn bs h
    rw [pgDecodeBeginTxn_eq h]
    exact (reads_beginBytes rcv _ txn).readsAll
  · intro txn rel change bs hrel hchange h
    obtain ⟨hw, hlen⟩ := pgDecodeChange_eq h
    have hlimit : bs.length < 2 ^ 31 := by
      unfold maxAllocSize at hlen
      omega
    exact (reads_changeBytes hio hrel hchange hw hlimit).readsAll
  · intro txn bs h
    rw [pgDecodeCommitTxn_eq h]
    exact (reads_commitBytes rcv txn).readsAll

/-! ### A table with a column of every kind -/

/-- Text format of the sample: two characters for each byte. -/
def hexOut (v : Value) : List UInt8 :=
  v.flatMap fun b => [UInt8.ofNat (b.toNat / 16 + 1), UInt8.ofNat (b.toNat % 16 + 1)]

def hexIn : List UInt8 → Value
  | x :: y :: rest => UInt8.ofNat ((x.toNat - 1) * 16 + (y.toNat - 1)) :: hexIn rest
  | _ => []

theorem hexOut_noNul (v : Value) : ∀ c ∈ hexOut v, c ≠ 0 := by
  intro c hc hzero
  obtain ⟨b, -, hb⟩ := List.mem_flatMap.mp hc
  have hlt := b.toNat_lt
  have hnat : c.toNat = 0 := by rw [hzero]; rfl
  simp only [List.mem_cons, List.not_mem_nil, or_false] at hb
  rcases hb with rfl | rfl
  · rw [UInt8.toNat_ofNat'] at hnat
    omega
  · rw [UInt8.toNat_ofNat'] at hnat
    omega

theorem hexIn_hexOut (v : Value) : hexIn (hexOut v) = v := by
  induction v with
  | nil => rfl
  | cons b v ih =>
    have hlt := b.toNat_lt
    have hhigh : (UInt8.ofNat (b.toNat / 16 + 1)).toNat = b.toNat / 16 + 1 := by
      rw [UInt8.toNat_ofNat']
      omega
    have hlow : (UInt8.ofNat (b.toNat % 16 + 1)).toNat = b.toNat % 16 + 1 := by
      rw [UInt8.toNat_ofNat']
      omega
    have hbyte : (b.toNat / 16 + 1 - 1) * 16 + (b.toNat % 16 + 1 - 1) = b.toNat := by omega
    change UInt8.ofNat (((UInt8.ofNat (b.toNat / 16 + 1)).toNat - 1) * 16 +
      ((UInt8.ofNat (b.toNat % 16 + 1)).toNat - 1)) :: hexIn (hexOut v) = b :: v
    rw [hhigh, hlow, hbyte, UInt8.ofNat_toNat, ih]

def hexIO : TypeIO where
  output := fun _ v => ⟨hexOut v, hexOut_noNul v⟩
  input := fun _ bs => some (hexIn bs)
  send := fun _ v => v
  receive := fun _ bs => some (bs, bs.length)

theorem hexIO_inverts : hexIO.Inverts hexIO where
  input_output := fun _ v => congrArg some (hexIn_hexOut v)
  receive_send := fun _ _ => rfl

/-- The columns: a four byte integer, a variable length string, a dropped column, one of an
extension type with a receive function, one without, and a nullable string. -/
def everyKindDesc : List Attribute :=
  [⟨false, true, true, 4, 23, ⟨'b', 0, 2406⟩⟩, ⟨false, false, false, -1, 25, ⟨'b', 0, 2414⟩⟩,
    ⟨true, false, true, 4, 23, ⟨'b', 0, 2406⟩⟩, ⟨false, false, false, -1, 20000, ⟨'b', 0, 20001⟩⟩,
    ⟨false, false, false, -1, 20010, ⟨'b', 0, 0⟩⟩, ⟨false, false, false, -1, 25, ⟨'b', 0, 2414⟩⟩]

theorem everyKind_noNul : ∀ b ∈ [(116 : UInt8)], b ≠ 0 := by simp

theorem everyKind_short : [(116 : UInt8)].length < 64 := by decide

def everyKindName : Name := ⟨⟨[116], everyKind_noNul⟩, everyKind_short⟩

def everyKindRel : LocalRelation := ⟨⟨everyKindName, everyKindName, everyKindDesc⟩, 30000, 2200⟩

def everyKindUpdate : Change Value :=
  .update (some [.inline [1, 0, 0, 0], .null, .null, .null, .null, .null])
    [.inline [2, 0, 0, 0], .external [9, 9], .inline [5, 0, 0, 0], .inline [7], .inline [0, 255],
      .null]

def everyKindWalsender : Walsender where
  me := ⟨1, 1, 5⟩
  originNode := fun _ => some ⟨3, 1, 5⟩
  data := ⟨⟨false, true, true⟩, true, 0, 0, 0, 1, fun _ _ => true⟩
  io := hexIO

def everyKindReceiver : Receiver where
  me := ⟨2, 1, 5⟩
  origins := fun _ => some 4
  lookup := fun _ _ => some (everyKindDesc, true)
  discardMismatched := false
  io := hexIO

/-- A transaction that came from the third node. -/
def everyKindTxn : Txn := ⟨7, 2, 33, 40, 48, 1000⟩

/-- The sample update is emitted, and decoded as it was emitted. -/
theorem everyKind_round_trip :
    ∃ bs, pgDecodeChange everyKindWalsender everyKindTxn everyKindRel everyKindUpdate =
        .ok (some bs) ∧
      processRemoteAction everyKindReceiver bs =
        .ok (decodedChange everyKindRel.toTable everyKindUpdate, []) := by
  have hchange : ChangeOf everyKindRel.desc everyKindUpdate := by
    simp [ChangeOf, HeapTuple, everyKindUpdate, everyKindRel, everyKindDesc, FitsAttribute,
      Datum.value]
  have hemit : ∃ bs, pgDecodeChange everyKindWalsender everyKindTxn everyKindRel
      everyKindUpdate = .ok (some bs) := ⟨_, rfl⟩
  obtain ⟨bs, hbs⟩ := hemit
  exact ⟨bs, hbs, (stream_round_trip everyKindWalsender everyKindReceiver hexIO_inverts).2.1
    everyKindTxn everyKindRel everyKindUpdate bs rfl hchange hbs⟩

end Pgactive.Stream
