import Mathlib.Data.List.Forall2
import Mathlib.Data.Int.Notation

/-!
# Tuples on the change stream

The output plugin turns a heap tuple into one item for each column (`write_tuple`), and the apply
worker turns these into values with a null and a changed flag (`read_tuple_parts`). An out-of-line
value that the change did not touch is sent as unchanged; `heap_modify_tuple` then keeps the
receiver's own one.
-/

namespace Pgactive

variable {D : Type}

/-- The part of the type catalog that `decide_datum_transfer` consults. -/
structure TypeClass where
  /-- Kind of type, `'b'` for a base type and `'c'` for a composite one. -/
  typtype : Char
  typelem : ℕ
  /-- Binary receive function, zero if there is none. -/
  typreceive : ℕ
  deriving DecidableEq

/-- The column attributes that the tuple codec consults. -/
structure Attribute where
  attisdropped : Bool
  attnotnull : Bool
  attbyval : Bool
  /-- Length of the type, `-1` for a variable length one. -/
  attlen : ℤ
  atttypid : ℕ
  typclass : TypeClass
  deriving DecidableEq

/-- The negotiated options of a stream that influence how values are sent. -/
structure OutputData where
  /-- The two sides represent timestamps differently. -/
  intDatetimeMismatch : Bool
  /-- The receiver accepts internal binary representations. -/
  allowBinaryProtocol : Bool
  allowSendrecvProtocol : Bool
  deriving DecidableEq

/-- How a value travels: internal binary, send/receive or text format. -/
inductive Transfer
  | binary
  | sendrecv
  | text
  deriving DecidableEq

/-- A column of a decoded heap tuple. An external value stands for an on-disk
out-of-line datum that the change left as it was. -/
inductive Datum (D : Type)
  | null
  | inline (d : D)
  | external (d : D)
  deriving DecidableEq

def Datum.value : Datum D → Option D
  | .null => none
  | .inline d => some d
  | .external d => some d

/-- One column of a tuple message: kinds `n`, `u`, and `b`, `s` or `t` with a value. -/
inductive ColumnData (D : Type)
  | null
  | unchanged
  | data (format : Transfer) (d : D)
  deriving DecidableEq

/-- What `read_tuple_parts` stores for a column. A null column has no value. -/
structure TuplePart (D : Type) where
  /-- The value, `none` if the column is flagged null. -/
  value : Option D
  /-- Whether the column replaces the receiver's one. -/
  changed : Bool
  deriving DecidableEq

/-- Errors of the tuple codec. -/
inductive TupleError
  | unsupportedTupleType
  | dataForDroppedColumn
  | differentColumnCount
  deriving DecidableEq

def timestampOid : ℕ := 1114

def timestamptzOid : ℕ := 1184

def timeOid : ℕ := 1083

def firstNormalObjectId : ℕ := 16384

def decideDatumTransfer (data : OutputData) (att : Attribute) : Transfer :=
  if data.intDatetimeMismatch ∧ (att.atttypid = timestampOid ∨ att.atttypid = timestamptzOid ∨
      att.atttypid = timeOid) then .text
  else if data.allowBinaryProtocol ∧ att.typclass.typtype = 'b' ∧
      att.atttypid < firstNormalObjectId ∧ att.typclass.typelem = 0 then .binary
  else if data.allowSendrecvProtocol ∧ att.typclass.typreceive ≠ 0 ∧
      (att.atttypid < firstNormalObjectId ∨ att.typclass.typtype ≠ 'c') ∧
      (att.atttypid < firstNormalObjectId ∨ att.typclass.typelem = 0) then .sendrecv
  else .text

def writeValue (data : OutputData) (att : Attribute) (d : D) :
    Except TupleError (ColumnData D) :=
  if decideDatumTransfer data att = .binary ∧ ¬att.attbyval ∧ att.attlen ≤ 0 ∧ att.attlen ≠ -1 then
    .error .unsupportedTupleType
  else .ok (.data (decideDatumTransfer data att) d)

def writeColumn (data : OutputData) (att : Attribute) (v : Datum D) :
    Except TupleError (ColumnData D) :=
  match v with
  | .null => .ok .null
  | .external d =>
    if att.attisdropped then .ok .null
    else if att.attlen = -1 then .ok .unchanged
    else writeValue data att d
  | .inline d => if att.attisdropped then .ok .null else writeValue data att d

def writeTuple (data : OutputData) : List Attribute → List (Datum D) →
    Except TupleError (List (ColumnData D))
  | att :: desc, v :: vs =>
    match writeColumn data att v with
    | .error e => .error e
    | .ok c =>
      match writeTuple data desc vs with
      | .error e => .error e
      | .ok cs => .ok (c :: cs)
  | _, _ => .ok []

def readColumn (att : Attribute) : ColumnData D → Except TupleError (TuplePart D)
  | .null => .ok ⟨none, true⟩
  | .unchanged => .ok ⟨none, false⟩
  | .data _ d => if att.attisdropped then .error .dataForDroppedColumn else .ok ⟨some d, true⟩

/-- `read_tuple_parts`: columns missing on the remote side are padded with nulls where
the local column allows it, and surplus remote columns must be null unless mismatched
attributes are discarded. Surplus items are skipped as a whole here; that the source
steps over the kind byte only is left to a model of the bytes. -/
def readTupleParts (discardMismatched : Bool) : List Attribute → List (ColumnData D) →
    Except TupleError (List (TuplePart D))
  | [], cols =>
    if discardMismatched ∨ ∀ c ∈ cols, (c matches .null) then .ok []
    else .error .differentColumnCount
  | att :: desc, [] =>
    if ¬att.attisdropped ∧ att.attnotnull then .error .differentColumnCount
    else
      match readTupleParts discardMismatched desc [] with
      | .error e => .error e
      | .ok ps => .ok (⟨none, true⟩ :: ps)
  | att :: desc, c :: cs =>
    match readColumn att c with
    | .error e => .error e
    | .ok p =>
      match readTupleParts discardMismatched desc cs with
      | .error e => .error e
      | .ok ps => .ok (p :: ps)

def heapFormTuple (parts : List (TuplePart D)) : List (Option D) := parts.map TuplePart.value

def heapModifyTuple (old : List (Option D)) (parts : List (TuplePart D)) : List (Option D) :=
  List.zipWith (fun v p => if p.changed then p.value else v) old parts

/-- The columns that `write_tuple` sends without their value. -/
def Datum.sentUnchanged (att : Attribute) (v : Datum D) : Bool :=
  !att.attisdropped && decide (att.attlen = -1) && (v matches .external _)

/-- A tuple of the relation with descriptor `desc`: one entry for each column, and
null in the dropped ones. -/
def Conforms (desc : List Attribute) (t : List (Datum D)) : Prop :=
  List.Forall₂ (fun att v => att.attisdropped = true → v = Datum.null) desc t

/-- The column values of a stored row: one for each column, null in the dropped ones. -/
def RowOf (desc : List Attribute) (row : List (Option D)) : Prop :=
  List.Forall₂ (fun att v => att.attisdropped = true → v = none) desc row

/-- What the receiver stores for a sent column: nothing for a dropped one, the unchanged mark
for an untouched out-of-line value, and the value otherwise. -/
def sentPart (att : Attribute) (v : Datum D) : TuplePart D :=
  if att.attisdropped then ⟨none, true⟩
  else if v.sentUnchanged att then ⟨none, false⟩
  else ⟨v.value, true⟩

def transferred (desc : List Attribute) (t : List (Datum D)) : List (TuplePart D) :=
  List.zipWith (fun att v => if v.sentUnchanged att then ⟨none, false⟩ else ⟨v.value, true⟩) desc t

def AgreesOnUnchanged (desc : List Attribute) (old : List (Option D)) (t : List (Datum D)) : Prop :=
  ∀ x ∈ (desc.zip t).zip old, x.1.2.sentUnchanged x.1.1 = true → x.2 = x.1.2.value

instance [DecidableEq D] (desc : List Attribute) (old : List (Option D)) (t : List (Datum D)) :
    Decidable (AgreesOnUnchanged desc old t) :=
  inferInstanceAs (Decidable (∀ _ ∈ _, _ → _))

variable {data : OutputData} {att : Attribute} {v : Datum D}

theorem readColumn_writeColumn {c : ColumnData D} (hw : writeColumn data att v = .ok c) :
    readColumn att c = .ok (sentPart att v) := by
  have hvalue : ∀ d, att.attisdropped = false → writeValue data att d = .ok c →
      readColumn att c = .ok ⟨some d, true⟩ := by
    intro d hd hd'
    unfold writeValue at hd'
    split at hd'
    · cases hd'
    · cases hd'
      simp [readColumn, hd]
  cases hdropped : att.attisdropped with
  | true =>
    have hnull : c = .null := by cases v <;> simpa [writeColumn, hdropped] using hw.symm
    subst hnull
    simp [readColumn, sentPart, hdropped]
  | false =>
    cases v with
    | null =>
      cases hw
      simp [readColumn, sentPart, Datum.sentUnchanged, Datum.value, hdropped]
    | inline d =>
      simp only [writeColumn, hdropped, Bool.false_eq_true, if_false] at hw
      simpa [sentPart, Datum.sentUnchanged, Datum.value, hdropped] using hvalue d hdropped hw
    | external d =>
      simp only [writeColumn, hdropped, Bool.false_eq_true, if_false] at hw
      by_cases hlen : att.attlen = -1
      · simp only [hlen, if_true] at hw
        cases hw
        simp [readColumn, sentPart, Datum.sentUnchanged, hdropped, hlen]
      · simp only [hlen, if_false] at hw
        simpa [sentPart, Datum.sentUnchanged, Datum.value, hdropped, hlen] using
          hvalue d hdropped hw

theorem value_of_writeColumn {f : Transfer} {d : D}
    (hw : writeColumn data att v = .ok (.data f d)) : v.value = some d := by
  have hvalue : ∀ d', writeValue data att d' = .ok (.data f d) → d' = d := by
    intro d' hd'
    unfold writeValue at hd'
    split at hd'
    · cases hd'
    · cases hd'
      rfl
  cases v with
  | null => cases hw
  | inline d' =>
    simp only [writeColumn] at hw
    split at hw
    · cases hw
    · rw [← hvalue d' hw]
      rfl
  | external d' =>
    simp only [writeColumn] at hw
    split at hw
    · cases hw
    · split at hw
      · cases hw
      · rw [← hvalue d' hw]
        rfl

variable {desc : List Attribute} {t : List (Datum D)} {cols : List (ColumnData D)}

theorem writeTuple_cons (h : writeTuple data (att :: desc) (v :: t) = .ok cols) :
    ∃ c cs, writeColumn data att v = .ok c ∧ writeTuple data desc t = .ok cs ∧ cols = c :: cs := by
  unfold writeTuple at h
  cases hc : writeColumn data att v with
  | error e => simp [hc] at h
  | ok c =>
    cases hcs : writeTuple data desc t with
    | error e => simp [hc, hcs] at h
    | ok cs =>
      simp only [hc, hcs, Except.ok.injEq] at h
      exact ⟨c, cs, rfl, rfl, h.symm⟩

variable {discard : Bool}

theorem readTupleParts_eq_sentPart (hlen : desc.length = t.length)
    (hw : writeTuple data desc t = .ok cols) :
    readTupleParts discard desc cols = .ok (List.zipWith sentPart desc t) := by
  induction desc generalizing t cols with
  | nil =>
    cases hw
    simp [readTupleParts]
  | cons att desc ih =>
    obtain _ | ⟨v, t⟩ := t
    · simp at hlen
    obtain ⟨c, cs, hc, hcs, rfl⟩ := writeTuple_cons hw
    simp [readTupleParts, readColumn_writeColumn hc, ih (by simpa using hlen) hcs]

theorem Conforms.zipWith_sentPart (h : Conforms desc t) :
    List.zipWith sentPart desc t = transferred desc t := by
  unfold transferred
  induction h with
  | nil => rfl
  | @cons att v desc t hdrop _ ih =>
    rw [List.zipWith_cons_cons, List.zipWith_cons_cons, ih]
    congr 1
    cases hd : att.attisdropped with
    | true => simp [sentPart, hdrop hd, hd, Datum.sentUnchanged, Datum.value]
    | false => simp [sentPart, hd]

theorem readTupleParts_writeTuple (hconf : Conforms desc t)
    (hw : writeTuple data desc t = .ok cols) :
    readTupleParts discard desc cols = .ok (transferred desc t) := by
  rw [readTupleParts_eq_sentPart hconf.length_eq hw, hconf.zipWith_sentPart]

theorem heapModifyTuple_eq_value {old : List (Option D)} (hconf : Conforms desc t)
    (hlen : old.length = t.length) (hagree : AgreesOnUnchanged desc old t) :
    heapModifyTuple old (transferred desc t) = t.map Datum.value := by
  induction hconf generalizing old with
  | nil => simp [heapModifyTuple, transferred]
  | @cons att v desc t _ _ ih =>
    obtain _ | ⟨o, old⟩ := old
    · simp at hlen
    have hhead : v.sentUnchanged att = true → o = v.value :=
      hagree ((att, v), o) (by simp)
    have htail := ih (by simpa using hlen) fun x hx => hagree x (List.mem_cons_of_mem _ hx)
    cases hsent : v.sentUnchanged att with
    | true =>
      simp only [heapModifyTuple, transferred, List.zipWith_cons_cons, List.map_cons,
        hsent] at htail ⊢
      simp [htail, hhead hsent]
    | false =>
      simp only [heapModifyTuple, transferred, List.zipWith_cons_cons, List.map_cons,
        hsent] at htail ⊢
      simp [htail]

theorem Conforms.rowOf (h : Conforms desc t) : RowOf desc (t.map Datum.value) := by
  induction h with
  | nil => exact .nil
  | cons hdrop _ ih =>
    refine .cons (fun hd => ?_) ih
    rw [hdrop hd]
    rfl

theorem RowOf.heapModifyTuple {old : List (Option D)} {ps : List (TuplePart D)}
    (hold : RowOf desc old) (hps : RowOf desc (heapFormTuple ps)) :
    RowOf desc (heapModifyTuple old ps) := by
  induction hold generalizing ps with
  | nil =>
    simp only [Pgactive.heapModifyTuple, List.zipWith_nil_left]
    exact .nil
  | cons hd _ ih =>
    obtain _ | ⟨p, ps⟩ := ps
    · cases hps
    · cases hps with
      | cons hp hps =>
        refine .cons (fun hdrop => ?_) (ih hps)
        change (if p.changed then p.value else _) = none
        split
        · exact hp hdrop
        · exact hd hdrop

end Pgactive
