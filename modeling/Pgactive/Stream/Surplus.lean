import Pgactive.Stream.RoundTrip

/-!
# Tuples of another width

A tuple may arrive at a table with fewer or more columns. What `read_tuple_parts` leaves of the
message is decided column by column: a shared one is consumed whole or refused, a missing one
consumes nothing, and of a surplus one only the byte of its kind is consumed.
-/

namespace Pgactive.Stream

open ByteReader

/-- The type functions of the local column take a value that was sent from column `ratt`. -/
def acceptsValue (rio io : TypeIO) (ratt latt : Attribute) : Transfer → Value → Bool
  | .binary, d => !latt.attbyval || decide (d.length ∈ byvalLengths)
  | .sendrecv, d =>
    (rio.receive latt (io.send ratt d)).any fun r => r.2 = (io.send ratt d).length
  | .text, d => (rio.input latt (io.output ratt d).bytes).isSome

def acceptsColumn (rio io : TypeIO) (ratt latt : Attribute) : ColumnData Value → Bool
  | .data f d => !latt.attisdropped && acceptsValue rio io ratt latt f d
  | _ => true

def acceptsShared (rio io : TypeIO) : List Attribute → List Attribute →
    List (ColumnData Value) → Bool
  | ratt :: rdesc, latt :: desc, c :: cols =>
    acceptsColumn rio io ratt latt c && acceptsShared rio io rdesc desc cols
  | _, _, _ => true

def carriesValue : ColumnData Value → Bool
  | .data _ _ => true
  | _ => false

variable {rcv : Receiver} {rio io : TypeIO} {ratt latt : Attribute}

/-! ### Shared columns -/

variable {bs : List UInt8}

theorem sized_apply {α : Type} {f : UInt32 → List UInt8 → Reader WireError α}
    (h : bs.length < 2 ^ 31) (rest : List UInt8) :
    (getmsgint4 >>= fun len => getmsgbytes len >>= fun data => f len data) (sized bs ++ rest) =
      f (UInt32.ofNat bs.length) bs rest := by
  rw [sized, List.append_assoc, (reads_length h).bind_apply,
    (reads_getmsgbytes (toNat_ofNat_of_lt h) h).bind_apply]

variable {d : Value}

theorem readBinary_sized (latt : Attribute) (h : d.length < 2 ^ 31) (rest : List UInt8) :
    readBinary latt (sized d ++ rest) =
      if latt.attbyval ∧ d.length ∉ byvalLengths then .error .unsupportedByvalLength
      else .ok (d, rest) := by
  unfold readBinary
  rw [sized_apply h, toNat_ofNat_of_lt h]
  split <;> rfl

theorem readSend_sized (rio : TypeIO) (latt : Attribute) (h : bs.length < 2 ^ 31)
    (rest : List UInt8) :
    readSend rio latt (sized bs ++ rest) =
      match rio.receive latt bs with
      | some (v, cursor) =>
        if bs.length ≠ cursor then .error .incorrectBinaryFormat else .ok (v, rest)
      | none => .error .invalidRepresentation := by
  unfold readSend
  rw [sized_apply h]
  cases rio.receive latt bs with
  | none => rfl
  | some r =>
    dsimp only
    split <;> rfl

theorem readText_sized (rio : TypeIO) (latt : Attribute) {s : CString}
    (h : s.terminated.length < 2 ^ 31) (rest : List UInt8) :
    readText rio latt (sized s.terminated ++ rest) =
      match rio.input latt s.bytes with
      | some v => .ok (v, rest)
      | none => .error .invalidRepresentation := by
  unfold readText
  rw [sized_apply h, cString_terminated]
  cases rio.input latt s.bytes <;> rfl

def Decides {α : Type} (accepted : Bool) (p : Reader WireError α) (bs : List UInt8) : Prop :=
  (accepted = true → ∃ a, Reads p bs a) ∧ (accepted = false → Refuses p bs)

theorem decides_readBinary (h : d.length < 2 ^ 31) :
    Decides (acceptsValue rio io ratt latt .binary d) (readBinary latt) (sized d) := by
  refine ⟨fun hacc => ⟨d, fun rest => ?_⟩, fun hacc rest => ⟨.unsupportedByvalLength, ?_⟩⟩
  · rw [readBinary_sized latt h, if_neg (by simpa [acceptsValue, imp_iff_not_or] using hacc)]
  · rw [readBinary_sized latt h, if_pos (by simpa [acceptsValue] using hacc)]

theorem decides_readSend (h : (io.send ratt d).length < 2 ^ 31) :
    Decides (acceptsValue rio io ratt latt .sendrecv d) (readSend rio latt)
      (sized (io.send ratt d)) := by
  have hread := readSend_sized rio latt h
  cases hr : rio.receive latt (io.send ratt d) with
  | none =>
    exact ⟨fun hacc => by simp [acceptsValue, hr] at hacc,
      fun _ rest => ⟨.invalidRepresentation, by rw [hread, hr]⟩⟩
  | some r =>
    refine ⟨fun hacc => ⟨r.1, fun rest => ?_⟩, fun hacc rest => ⟨.incorrectBinaryFormat, ?_⟩⟩
    · have hcursor : r.2 = (io.send ratt d).length := by simpa [acceptsValue, hr] using hacc
      simp [hread, hr, hcursor]
    · have hcursor : (io.send ratt d).length ≠ r.2 := by
        simpa [acceptsValue, hr, eq_comm] using hacc
      simp only [hread, hr, if_pos hcursor]

theorem decides_readText (h : (io.output ratt d).terminated.length < 2 ^ 31) :
    Decides (acceptsValue rio io ratt latt .text d) (readText rio latt)
      (sized (io.output ratt d).terminated) := by
  have hread := readText_sized rio latt h
  refine ⟨fun hacc => ?_, fun hacc rest => ⟨.invalidRepresentation, ?_⟩⟩
  · obtain ⟨v, hv⟩ := Option.isSome_iff_exists.mp hacc
    exact ⟨v, fun rest => by simp only [hread, hv]⟩
  · have hnone : rio.input latt (io.output ratt d).bytes = none := by
      simpa [acceptsValue] using hacc
    simp only [hread, hnone]

theorem columnBytes_data (rio : TypeIO) (latt : Attribute) {f : Transfer}
    (hfit : FitsAttribute ratt d) (hb : columnBytes io ratt (.data f d) = .ok bs)
    (hlen : bs.length < 2 ^ 31) :
    ∃ kind body p, bs = kind :: body ∧
      readKind rio latt kind = (fun v => ⟨some v, true⟩) <$> p ∧
        Decides (acceptsValue rio io ratt latt f d) p body := by
  cases f with
  | binary =>
    obtain ⟨len, hn, rfl⟩ := columnBytes_binary_eq hb
    obtain ⟨rfl, -⟩ := binaryLength_eq hfit hn
    rw [List.take_length] at hlen ⊢
    simp only [List.length_cons, List.length_append] at hlen
    exact ⟨_, _, readBinary latt, rfl, rfl, decides_readBinary (by omega)⟩
  | sendrecv =>
    cases hb
    simp only [sized, List.length_cons, List.length_append] at hlen
    exact ⟨_, _, readSend rio latt, rfl, rfl, decides_readSend (by omega)⟩
  | text =>
    cases hb
    simp only [sized, List.length_cons, List.length_append] at hlen
    exact ⟨_, _, readText rio latt, rfl, rfl, decides_readText (by omega)⟩

variable {c : ColumnData Value}

theorem decides_readColumnBytes (rio : TypeIO) (latt : Attribute)
    (hfit : ∀ f d, c = .data f d → FitsAttribute ratt d) (hb : columnBytes io ratt c = .ok bs)
    (hlen : bs.length < 2 ^ 31) :
    Decides (acceptsColumn rio io ratt latt c) (readColumnBytes rio latt) bs := by
  cases c with
  | null =>
    cases hb
    exact ⟨fun _ => ⟨_, reads_readColumnBytes (.pure _) (by simp)⟩, by simp [acceptsColumn]⟩
  | unchanged =>
    cases hb
    exact ⟨fun _ => ⟨_, reads_readColumnBytes (.pure _) (by simp)⟩, by simp [acceptsColumn]⟩
  | data f d =>
    obtain ⟨kind, body, p, rfl, hkind, haccept, hrefuse⟩ :=
      columnBytes_data rio latt (hfit f d rfl) hb hlen
    refine ⟨fun hacc => ?_, fun hacc => ?_⟩
    · simp only [acceptsColumn, Bool.and_eq_true, Bool.not_eq_true'] at hacc
      obtain ⟨v, hv⟩ := haccept hacc.2
      exact ⟨_, reads_readColumnBytes (hkind ▸ hv.map _) (by simp [hacc.1])⟩
    · have hbody : Refuses (readKind rio latt kind >>= fun part =>
          if latt.attisdropped ∧ part.value.isSome then throw (.tuple .dataForDroppedColumn)
          else return part) body := by
        rw [hkind]
        cases hval : acceptsValue rio io ratt latt f d with
        | false => exact ((hrefuse hval).map _).bind _
        | true =>
          obtain ⟨v, hv⟩ := haccept hval
          have hdrop : latt.attisdropped = true := by simpa [acceptsColumn, hval] using hacc
          intro rest
          rw [(hv.map _).bind_apply, if_pos ⟨hdrop, rfl⟩]
          exact ⟨_, rfl⟩
      exact hbody

/-! ### Surplus columns -/

theorem columnBytes_length_eq_one_iff (hb : columnBytes io ratt c = .ok bs) :
    bs.length = 1 ↔ carriesValue c = false := by
  obtain _ | _ | ⟨_ | _ | _, d⟩ := c
  case data.binary =>
    obtain ⟨len, -, rfl⟩ := columnBytes_binary_eq hb
    simp [carriesValue]
  all_goals
    cases hb
    simp [carriesValue, sized]

theorem columnBytes_null {kind : UInt8} {body : List UInt8}
    (hb : columnBytes io ratt c = .ok (kind :: body)) (hkind : kind = 'n'.toUInt8) : body = [] := by
  obtain _ | _ | ⟨_ | _ | _, d⟩ := c
  case null =>
    cases hb
    rfl
  case data.binary =>
    obtain ⟨len, -, hbs⟩ := columnBytes_binary_eq hb
    exact absurd ((List.cons.inj hbs).1.symm.trans hkind) (by decide)
  all_goals
    simp only [columnBytes, Except.ok.injEq, List.cons.injEq] at hb
    exact absurd (hb.1.trans hkind) (by decide)

variable {rdesc : List Attribute} {cols : List (ColumnData Value)}

theorem columnsBytes_length_eq_iff (hsame : rdesc.length = cols.length)
    (hb : columnsBytes io rdesc cols = .ok bs) :
    bs.length = cols.length ↔ ∀ c ∈ cols, carriesValue c = false := by
  induction rdesc generalizing cols bs with
  | nil =>
    obtain rfl := List.length_eq_zero_iff.mp hsame.symm
    cases hb
    simp
  | cons ratt rdesc ih =>
    obtain _ | ⟨c, cols⟩ := cols
    · simp at hsame
    have hsame' : rdesc.length = cols.length := by simpa using hsame
    obtain ⟨as, cs, hc, hcs, rfl⟩ := columnsBytes_cons hb
    have hpos := columnBytes_length_pos hc
    have hle := length_le_columnsBytes hsame' hcs
    have hone := columnBytes_length_eq_one_iff hc
    rw [List.forall_mem_cons, ← ih hsame' hcs, ← hone, List.length_append, List.length_cons]
    omega

theorem skipSurplus_cons (discard : Bool) (n : ℕ) (kind : UInt8) (input : List UInt8) :
    skipSurplus discard (n + 1) (kind :: input) =
      if kind ≠ 'n'.toUInt8 ∧ ¬discard then .error (.tuple .differentColumnCount)
      else skipSurplus discard n input := by
  by_cases h : kind ≠ 'n'.toUInt8 ∧ ¬discard
  · rw [if_pos h]
    exact congrFun (if_pos h) input
  · rw [if_neg h]
    exact congrFun (if_neg h) input

theorem skipSurplus_true {n : ℕ} {input : List UInt8} (h : n ≤ input.length) :
    skipSurplus true n input = .ok ((), input.drop n) := by
  induction n generalizing input with
  | zero => rfl
  | succ n ih =>
    obtain _ | ⟨b, input⟩ := input
    · simp at h
    rw [skipSurplus_cons, if_neg (by simp), ih (by simpa using h), List.drop_succ_cons]

theorem skipSurplus_false_leaves (hsame : rdesc.length = cols.length)
    (hb : columnsBytes io rdesc cols = .ok bs) (rest : List UInt8) :
    Leaves (skipSurplus false cols.length) (bs ++ rest) rest := by
  induction rdesc generalizing cols bs with
  | nil =>
    obtain rfl := List.length_eq_zero_iff.mp hsame.symm
    cases hb
    exact (Reads.pure ()).leaves rest
  | cons ratt rdesc ih =>
    obtain _ | ⟨c, cols⟩ := cols
    · simp at hsame
    obtain ⟨as, cs, hc, hcs, rfl⟩ := columnsBytes_cons hb
    obtain _ | ⟨kind, body⟩ := as
    · simpa using columnBytes_length_pos hc
    have hstep := skipSurplus_cons false cols.length kind (body ++ cs ++ rest)
    rw [List.length_cons, List.cons_append, List.cons_append]
    unfold Leaves
    rw [hstep]
    by_cases hnull : kind = 'n'.toUInt8
    · obtain rfl := columnBytes_null hc hnull
      rw [if_neg (by simp [hnull])]
      exact ih (by simpa using hsame) hcs
    · rw [if_pos (by simp [hnull])]
      rintro a left ⟨⟩

theorem skipSurplus_leaves_iff (discard : Bool) (hsame : rdesc.length = cols.length)
    (hb : columnsBytes io rdesc cols = .ok bs) (rest : List UInt8) :
    Leaves (skipSurplus discard cols.length) (bs ++ rest) rest ↔
      discard = false ∨ ∀ c ∈ cols, carriesValue c = false := by
  cases discard with
  | false => simp [skipSurplus_false_leaves hsame hb rest]
  | true =>
    have hle := length_le_columnsBytes hsame hb
    have hlen : cols.length ≤ (bs ++ rest).length := by
      rw [List.length_append]
      omega
    have hdrop : (bs ++ rest).drop cols.length = rest ↔ bs.length = cols.length := by
      constructor
      · intro h
        have := congrArg List.length h
        rw [List.length_drop, List.length_append] at this
        omega
      · intro h
        rw [← h, List.drop_left]
    simp only [Leaves, skipSurplus_true hlen, ← columnsBytes_length_eq_iff hsame hb, ← hdrop]
    simp

/-! ### Whole tuples -/

theorem readColumns_zero_leaves (desc : List Attribute) (rest : List UInt8) :
    Leaves (readColumns rcv desc 0) rest rest := by
  induction desc with
  | nil => exact (Reads.pure []).leaves rest
  | cons latt desc ih =>
    unfold readColumns
    split
    · rintro a left ⟨⟩
    · exact leaves_map_iff.mpr ih

theorem readColumns_leaves_iff
    (hfit : List.Forall₂ (fun att c => ∀ f d, c = .data f d → FitsAttribute att d) rdesc cols)
    (desc : List Attribute) (hb : columnsBytes io rdesc cols = .ok bs) (hlen : bs.length < 2 ^ 31)
    (rest : List UInt8) :
    Leaves (readColumns rcv desc cols.length) (bs ++ rest) rest ↔
      rcv.discardMismatched = false ∨ (∀ c ∈ cols.drop desc.length, carriesValue c = false) ∨
        acceptsShared rcv.io io rdesc desc cols = false := by
  induction desc generalizing rdesc cols bs with
  | nil =>
    have hshared : acceptsShared rcv.io io rdesc [] cols = true := by
      cases rdesc <;> rfl
    have hskip := skipSurplus_leaves_iff rcv.discardMismatched hfit.length_eq hb rest
    simp only [List.length_nil, List.drop_zero, hshared, Bool.true_eq_false, or_false, ← hskip]
    exact leaves_map_iff (f := fun _ => [])
  | cons latt desc ih =>
    cases hfit with
    | nil =>
      cases hb
      simp [readColumns_zero_leaves]
    | @cons ratt c rdesc cols hc hfit =>
      obtain ⟨as, cs, has, hcs, rfl⟩ := columnsBytes_cons hb
      rw [List.length_append] at hlen
      obtain ⟨haccept, hrefuse⟩ := decides_readColumnBytes rcv.io latt hc has
        (by omega)
      rw [List.length_cons, List.append_assoc, List.length_cons, List.drop_succ_cons,
        acceptsShared]
      cases hacc : acceptsColumn rcv.io io ratt latt c with
      | false =>
        have hleaves := ((hrefuse hacc).bind fun part => (part :: ·) <$> readColumns rcv desc
          cols.length).leaves (cs ++ rest) rest
        simp only [Bool.false_and, or_true, iff_true]
        exact hleaves
      | true =>
        obtain ⟨part, hpart⟩ := haccept hacc
        rw [Bool.true_and, ← ih hfit hcs (by omega)]
        exact hpart.leaves_bind_iff.trans leaves_map_iff

/-- For a tuple that `write_tuple` has sent, the receiver fails or stops at its last byte exactly
if mismatched attributes are not discarded, or no column beyond the local ones was sent with a
value, or one of the shared columns refuses what was sent. -/
theorem readTupleBytes_leaves_iff (rcv : Receiver) {data : OutputData} {rdesc : List Attribute}
    (desc : List Attribute) {t : List (Datum Value)} {cols : List (ColumnData Value)}
    {bs : List UInt8} (ht : HeapTuple rdesc t) (hcols : writeTuple data rdesc t = .ok cols)
    (hw : outputPluginWrite (tupleBytes data io rdesc t) = .ok bs) (rest : List UInt8) :
    (∀ parts left, readTupleBytes rcv desc (bs ++ rest) = .ok (parts, left) → left = rest) ↔
      rcv.discardMismatched = false ∨ (∀ c ∈ cols.drop desc.length, carriesValue c = false) ∨
        acceptsShared rcv.io io rdesc desc cols = false := by
  obtain ⟨hbytes, hlen⟩ := outputPluginWrite_eq_ok hw
  obtain ⟨cols', cs, hcols', hcs, rfl⟩ := tupleBytes_eq_ok hbytes
  obtain rfl : cols' = cols := Except.ok.inj (hcols'.symm.trans hcols)
  have hfit := ht.items_fit hcols
  have hcount := length_le_columnsBytes hfit.length_eq hcs
  have hmax : maxAllocSize < 2 ^ 31 := by decide
  simp only [List.length_cons, List.length_append] at hlen
  rw [List.cons_append, List.append_assoc, readTupleBytes_header (by omega), hfit.length_eq]
  exact readColumns_leaves_iff hfit desc hcs (by omega) rest

/-- Type functions for a stream in which every value travels as its bytes. -/
def plainIO : TypeIO where
  output := fun _ _ => .empty
  input := fun _ s => some s
  send := fun _ d => d
  receive := fun _ s => some (s, s.length)

def plainReceiver (discardMismatched : Bool) : Receiver where
  me := ⟨1, 1, 1⟩
  origins := fun _ => none
  lookup := fun _ _ => none
  discardMismatched := discardMismatched
  io := plainIO

def binaryStream : OutputData := ⟨false, true, true⟩

def oneTwo : List (Datum Value) := [.inline [1, 0, 0, 0], .inline [2, 0, 0, 0]]

theorem oneTwo_heapTuple : HeapTuple [int4Column, int4Column] oneTwo := by
  refine .cons ?_ (.cons ?_ .nil)
  · rintro d ⟨⟩ -
    rfl
  · rintro d ⟨⟩ -
    rfl

/-- The message that `write_tuple` makes of the row. -/
def oneTwoBytes : List UInt8 :=
  [84, 0, 0, 0, 2, 98, 0, 0, 0, 4, 1, 0, 0, 0, 98, 0, 0, 0, 4, 2, 0, 0, 0]

theorem readTupleBytes_leaves_oneTwo :
    Leaves (readTupleBytes (plainReceiver false) [int4Column]) (oneTwoBytes ++ [78]) [78] :=
  (readTupleBytes_leaves_iff (plainReceiver false) [int4Column] oneTwo_heapTuple
    (show writeTuple binaryStream _ oneTwo = .ok _ from rfl)
    (show outputPluginWrite (tupleBytes binaryStream plainIO _ oneTwo) = .ok oneTwoBytes from rfl)
    [78]).mpr (.inl rfl)

/-- Where mismatched attributes are discarded, a receiver with one column takes the kind of the
second column for the whole of it, and goes on with the length and the value. -/
theorem readTupleBytes_discard_oneTwo :
    outputPluginWrite (tupleBytes binaryStream plainIO [int4Column, int4Column] oneTwo) =
        .ok oneTwoBytes ∧
      readTupleBytes (plainReceiver true) [int4Column] (oneTwoBytes ++ [78]) =
        .ok ([⟨some [1, 0, 0, 0], true⟩], [0, 0, 0, 4, 2, 0, 0, 0, 78]) := by
  constructor <;> rfl

end Pgactive.Stream
