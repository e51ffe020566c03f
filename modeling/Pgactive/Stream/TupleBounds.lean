import Pgactive.Stream.Wire

/-!
# Where a received tuple is stored

`read_tuple_parts` fills three arrays in loops bounded by the number of columns of the message and
of the local table. Here the arrays are memory indexed by C integers, with a record of every store
of the loops, and nothing is known of the memory around the columns of the descriptor.
-/

namespace Pgactive.Stream

open ByteReader FallibleState

/-- The arrays of `pgactiveTupleData`. -/
inductive TupleArray
  | values
  | isnull
  | changed
deriving DecidableEq

/-- `pgactiveTupleData`. An index outside of an array is an address like any other. -/
structure TupleData where
  /-- Column values, `none` for garbage. -/
  values : ℤ → Option Value
  isnull : ℤ → Bool
  changed : ℤ → Bool

def maxTupleAttributeNumber : ℤ := 1664

def inArrays (i : ℤ) : Bool := 0 ≤ i && i < maxTupleAttributeNumber

def TupleData.memset (tup : TupleData) : TupleData :=
  { tup with
    isnull := fun i => inArrays i || tup.isnull i
    changed := fun i => inArrays i || tup.changed i }

/-- The state of `read_tuple_parts`. -/
structure Decoding where
  input : List UInt8
  tup : TupleData
  stores : List (TupleArray × ℤ)

/-- Steps of `read_tuple_parts`. -/
abbrev Decoder (α : Type) := Fallible WireError Decoding α

/-- The attribute at an index, as `TupleDescAttr` computes its address. -/
def tupleDescAttr (outside : ℤ → Attribute) (desc : List Attribute) (i : ℤ) : Attribute :=
  if 0 ≤ i then desc[i.toNat]?.getD (outside i) else outside i

def fetch {α : Type} (p : Reader WireError α) : Decoder α := fun s =>
  match p s.input with
  | .ok (a, rest) => (.ok a, { s with input := rest })
  | .error e => (.error e, s)

def storeValue (i : ℤ) (v : Option Value) : Decoder Unit := modify fun s =>
  { s with
    tup := { s.tup with values := Function.update s.tup.values i v }
    stores := (.values, i) :: s.stores }

def storeIsnull (i : ℤ) (b : Bool) : Decoder Unit := modify fun s =>
  { s with
    tup := { s.tup with isnull := Function.update s.tup.isnull i b }
    stores := (.isnull, i) :: s.stores }

def storeChanged (i : ℤ) (b : Bool) : Decoder Unit := modify fun s =>
  { s with
    tup := { s.tup with changed := Function.update s.tup.changed i b }
    stores := (.changed, i) :: s.stores }

def storeData (i : ℤ) (p : Reader WireError Value) : Decoder Unit := do
  storeIsnull i false
  let v ← fetch p
  storeValue i (some v)

def storeKind (io : TypeIO) (att : Attribute) (i : ℤ) (kind : UInt8) : Decoder Unit :=
  if kind = 'n'.toUInt8 then storeValue i none
  else if kind = 'u'.toUInt8 then do
    storeIsnull i true
    storeChanged i false
    storeValue i none
  else if kind = 'b'.toUInt8 then storeData i (readBinary att)
  else if kind = 's'.toUInt8 then storeData i (readSend io att)
  else if kind = 't'.toUInt8 then storeData i (readText io att)
  else throw .unknownColumnType

def storeColumn (io : TypeIO) (att : Attribute) (i : ℤ) : Decoder Unit := do
  let kind ← fetch getmsgbyte
  storeKind io att i kind
  let s ← get
  if att.attisdropped ∧ s.tup.isnull i = false then throw (.tuple .dataForDroppedColumn)

def padColumn (att : Attribute) (i : ℤ) : Decoder Unit :=
  if ¬att.attisdropped ∧ att.attnotnull then throw (.tuple .differentColumnCount)
  else do
    storeIsnull i true
    storeValue i none

def forTurns (body : ℤ → Decoder Unit) : ℕ → ℤ → Decoder Unit
  | 0, _ => pure ()
  | n + 1, i => do
    body i
    forTurns body n (i + 1)

/-- `rnatts`: the number of columns of the message is taken for a signed integer. -/
def signedCount (n : UInt32) : ℤ := n.toInt32.toInt

def storeColumns (rcv : Receiver) (outside : ℤ → Attribute) (desc : List Attribute) (rnatts : ℤ) :
    Decoder Unit := do
  forTurns (fun i => storeColumn rcv.io (tupleDescAttr outside desc i) i)
    (min (desc.length : ℤ) rnatts).toNat 0
  forTurns (fun i => padColumn (tupleDescAttr outside desc i) i) (desc.length - rnatts).toNat rnatts
  fetch (skipSurplus rcv.discardMismatched (rnatts - desc.length).toNat)

def readTuplePartsInto (rcv : Receiver) (outside : ℤ → Attribute) (desc : List Attribute) :
    Decoder Unit := do
  let action ← fetch getmsgbyte
  if action ≠ 'T'.toUInt8 then throw .expectedTuple
  else do
    modify fun s => { s with tup := s.tup.memset }
    let rnatts ← fetch getmsgint4
    storeColumns rcv outside desc (signedCount rnatts)

/-- The index of every store lies in the local table. -/
def Decoding.InBounds (natts : ℕ) (s : Decoding) : Prop := ∀ w ∈ s.stores, 0 ≤ w.2 ∧ w.2 < natts

/-- The second loop accepts the column as one that the message does not have. -/
def Pads (att : Attribute) : Prop := ¬(¬att.attisdropped ∧ att.attnotnull)

instance (att : Attribute) : Decidable (Pads att) := inferInstanceAs (Decidable (¬_))

/-- The number of columns that a message announces, if it begins like a tuple. -/
def columnCount (bs : List UInt8) : Option ℤ :=
  match bs with
  | [] => none
  | action :: rest =>
    if action = 'T'.toUInt8 then
      match getmsgint4 rest with
      | .ok (n, _) => some (signedCount n)
      | .error _ => none
    else none

/-! ### What the steps do to the stores -/

section Stores

variable {P : List (TupleArray × ℤ) → Prop} {i : ℤ}

theorem keeps_fetch {α : Type} (p : Reader WireError α) :
    Keeps (fun s : Decoding => P s.stores) (fetch p) := by
  intro s hs
  unfold fetch
  split
  · exact hs
  · exact hs

variable (hP : ∀ array l, P l → P ((array, i) :: l))
include hP

theorem keeps_storeData (p : Reader WireError Value) :
    Keeps (fun s : Decoding => P s.stores) (storeData i p) := by
  refine Keeps.bind (.modify fun s hs => hP _ _ hs) fun _ => ?_
  exact Keeps.bind (keeps_fetch p) fun _ => .modify fun s hs => hP _ _ hs

theorem keeps_storeColumn (io : TypeIO) (att : Attribute) :
    Keeps (fun s : Decoding => P s.stores) (storeColumn io att i) := by
  have hkind : ∀ kind, Keeps (fun s : Decoding => P s.stores) (storeKind io att i kind) := by
    intro kind
    unfold storeKind
    refine .ite (.modify fun s hs => hP _ _ hs) (.ite ?_ (.ite (keeps_storeData hP _)
      (.ite (keeps_storeData hP _) (.ite (keeps_storeData hP _) (.throw _)))))
    refine Keeps.bind (.modify fun s hs => hP _ _ hs) fun _ => ?_
    exact Keeps.bind (.modify fun s hs => hP _ _ hs) fun _ => .modify fun s hs => hP _ _ hs
  refine Keeps.bind (keeps_fetch _) fun kind => Keeps.bind (hkind kind) fun _ => ?_
  exact Keeps.bind .get fun s => .ite (.throw _) (.pure _)

theorem keeps_padColumn (att : Attribute) :
    Keeps (fun s : Decoding => P s.stores) (padColumn att i) := by
  refine .ite (.throw _) ?_
  exact Keeps.bind (.modify fun s hs => hP _ _ hs) fun _ => .modify fun s hs => hP _ _ hs

end Stores

variable {n : ℕ} {i : ℤ}

theorem keeps_forTurns {inv : Decoding → Prop} {body : ℤ → Decoder Unit}
    (h : ∀ j, i ≤ j → j < i + n → Keeps inv (body j)) : Keeps inv (forTurns body n i) := by
  induction n generalizing i with
  | zero => exact .pure _
  | succ n ih =>
    refine Keeps.bind (h i le_rfl (by omega)) fun _ => ih fun j hle hlt => h j (by omega) ?_
    push_cast
    omega

variable {rnatts : ℤ} (rcv : Receiver) (outside : ℤ → Attribute) (desc : List Attribute)

theorem keeps_storeColumns (hcount : 0 ≤ rnatts) :
    Keeps (Decoding.InBounds desc.length) (storeColumns rcv outside desc rnatts) := by
  have hstore : ∀ j, 0 ≤ j → j < (desc.length : ℤ) → ∀ (array : TupleArray) l,
      (∀ w ∈ l, 0 ≤ w.2 ∧ w.2 < (desc.length : ℤ)) →
      ∀ w ∈ (array, j) :: l, 0 ≤ w.2 ∧ w.2 < (desc.length : ℤ) := by
    intro j hpos hlt array l hl w hw
    obtain rfl | hw := List.mem_cons.mp hw
    · exact ⟨hpos, hlt⟩
    · exact hl w hw
  refine Keeps.bind (keeps_forTurns fun j hle hlt => ?_) fun _ =>
    Keeps.bind (keeps_forTurns fun j hle hlt => ?_) fun _ =>
      keeps_fetch (P := fun l => ∀ w ∈ l, 0 ≤ w.2 ∧ w.2 < (desc.length : ℤ)) _
  · exact keeps_storeColumn (hstore j hle (by omega)) _ _
  · exact keeps_padColumn (hstore j (by omega) (by omega)) _

theorem padColumn_of_pads {att : Attribute} (h : Pads att) (i : ℤ) (s : Decoding) :
    ∃ s', padColumn att i s = (.ok (), s') ∧ (.isnull, i) ∈ s'.stores := by
  have hrun : padColumn att i s = (storeIsnull i true >>= fun _ => storeValue i none) s := by
    unfold padColumn
    rw [if_neg h]
  exact ⟨_, hrun.trans rfl, List.mem_cons_of_mem _ List.mem_cons_self⟩

theorem forTurns_padColumn {attr : ℤ → Attribute} (h : ∀ j, i ≤ j → j < i + n → Pads (attr j))
    (s : Decoding) : ∃ s', forTurns (fun j => padColumn (attr j) j) n i s = (.ok (), s') := by
  induction n generalizing i s with
  | zero => exact ⟨s, rfl⟩
  | succ n ih =>
    obtain ⟨s₁, hbody, -⟩ := padColumn_of_pads (h i le_rfl (by omega)) i s
    have htail : ∀ j, i + 1 ≤ j → j < i + 1 + n → Pads (attr j) := by
      intro j hle hlt
      exact h j (by omega) (by push_cast; omega)
    obtain ⟨s₂, hrest⟩ := ih htail s₁
    exact ⟨s₂, (bind_of_ok hbody _).trans hrest⟩

theorem forTurns_padColumn_error {attr : ℤ → Attribute} {j : ℤ} (hle : i ≤ j) (hlt : j < i + n)
    (hpad : ¬Pads (attr j)) (s : Decoding) :
    ∃ e s', forTurns (fun j => padColumn (attr j) j) n i s = (.error e, s') := by
  induction n generalizing i s with
  | zero => omega
  | succ n ih =>
    by_cases hfirst : Pads (attr i)
    · obtain ⟨s₁, hbody, -⟩ := padColumn_of_pads hfirst i s
      have hne : i ≠ j := by
        rintro rfl
        exact hpad hfirst
      obtain ⟨e, s₂, hrest⟩ := ih (by omega : i + 1 ≤ j) (by push_cast at hlt; omega) s₁
      exact ⟨e, s₂, (bind_of_ok hbody _).trans hrest⟩
    · have hbody : padColumn (attr i) i s = (.error (.tuple .differentColumnCount), s) := by
        unfold padColumn
        rw [if_pos (not_not.mp hfirst)]
        rfl
      exact ⟨_, s, bind_of_error hbody _⟩

theorem storeColumns_of_neg (hneg : rnatts < 0) (s : Decoding) :
    storeColumns rcv outside desc rnatts s =
      forTurns (fun i => padColumn (tupleDescAttr outside desc i) i)
        (desc.length - rnatts).toNat rnatts s := by
  have hfirst : (min (desc.length : ℤ) rnatts).toNat = 0 := by omega
  have hlast : (rnatts - desc.length : ℤ).toNat = 0 := by omega
  unfold storeColumns
  rw [hfirst, hlast]
  exact congrFun (bind_pure_unit (x := forTurns _ _ _)) s

theorem readTuplePartsInto_cases (bs : List UInt8) (tup : TupleData) :
    (columnCount bs = none ∧ ∃ e s', s'.stores = [] ∧
      readTuplePartsInto rcv outside desc ⟨bs, tup, []⟩ = (.error e, s')) ∨
    ∃ n s, columnCount bs = some n ∧ s.stores = [] ∧
      readTuplePartsInto rcv outside desc ⟨bs, tup, []⟩ = storeColumns rcv outside desc n s := by
  cases bs with
  | nil => exact .inl ⟨rfl, _, _, rfl, rfl⟩
  | cons action rest =>
    have hbyte : ∀ f : UInt8 → Decoder Unit, (fetch getmsgbyte >>= f) ⟨action :: rest, tup, []⟩ =
        f action ⟨rest, tup, []⟩ := fun f => bind_of_ok rfl f
    unfold readTuplePartsInto columnCount
    rw [hbyte]
    by_cases haction : action = 'T'.toUInt8
    · have hset : ∀ f : PUnit → Decoder Unit,
          ((modify fun s => { s with tup := s.tup.memset }) >>= f) ⟨rest, tup, []⟩ =
            f ⟨⟩ ⟨rest, tup.memset, []⟩ := fun f => bind_of_ok rfl f
      simp only [haction, ne_eq, not_true_eq_false, if_false, if_true]
      rw [hset]
      cases hcount : getmsgint4 rest with
      | error e =>
        have hfetch : fetch getmsgint4 ⟨rest, tup.memset, []⟩ =
            (.error e, ⟨rest, tup.memset, []⟩) := by
          simp only [fetch, hcount]
        exact .inl ⟨rfl, e, _, rfl, bind_of_error hfetch _⟩
      | ok r =>
        have hfetch : fetch getmsgint4 ⟨rest, tup.memset, []⟩ =
            (.ok r.1, ⟨r.2, tup.memset, []⟩) := by
          simp only [fetch, hcount]
        exact .inr ⟨signedCount r.1, ⟨r.2, tup.memset, []⟩, rfl, rfl, bind_of_ok hfetch _⟩
    · simp only [haction, ne_eq, not_false_eq_true, if_true, if_false]
      exact .inl ⟨trivial, _, _, rfl, rfl⟩

theorem mem_stores_forTurns_padColumn (attr : ℤ → Attribute) {w : TupleArray × ℤ} {s : Decoding}
    (hw : w ∈ s.stores) (n : ℕ) (i : ℤ) :
    w ∈ (forTurns (fun j => padColumn (attr j) j) n i s).2.stores := by
  have hgrow : ∀ j (array : TupleArray) l, w ∈ l → w ∈ (array, j) :: l :=
    fun j array l h => List.mem_cons_of_mem (array, j) h
  have hkeeps := keeps_forTurns (n := n) (i := i)
    fun j _ _ => keeps_padColumn (P := fun l => w ∈ l) (hgrow j) (attr j)
  exact hkeeps s hw

theorem storeColumns_inBounds_iff_of_neg (hneg : rnatts < 0) {s : Decoding} (hs : s.stores = []) :
    (storeColumns rcv outside desc rnatts s).2.InBounds desc.length ↔
      ¬Pads (tupleDescAttr outside desc rnatts) := by
  obtain ⟨n, hn⟩ : ∃ n, (desc.length - rnatts : ℤ).toNat = n + 1 :=
    ⟨(desc.length - rnatts : ℤ).toNat - 1, by omega⟩
  rw [storeColumns_of_neg rcv outside desc hneg, hn]
  constructor
  · intro hin hpad
    obtain ⟨s₁, hbody, hmem⟩ := padColumn_of_pads hpad rnatts s
    have hstored := mem_stores_forTurns_padColumn (tupleDescAttr outside desc) hmem n
      (rnatts + 1)
    rw [← bind_of_ok hbody fun _ => forTurns _ n (rnatts + 1)] at hstored
    exact absurd (hin _ hstored).1 (by simpa using hneg)
  · intro hpad
    have hbody : padColumn (tupleDescAttr outside desc rnatts) rnatts s =
        (.error (.tuple .differentColumnCount), s) := by
      unfold padColumn
      rw [if_pos (not_not.mp hpad)]
      rfl
    have hrun := bind_of_error hbody
      fun _ => forTurns (fun i => padColumn (tupleDescAttr outside desc i) i) n (rnatts + 1)
    unfold forTurns
    rw [hrun]
    simp [Decoding.InBounds, hs]

theorem storeColumns_isOk_iff_of_neg (hneg : rnatts < 0) (s : Decoding) :
    (storeColumns rcv outside desc rnatts s).1 = .ok () ↔
      ∀ i, rnatts ≤ i → i < desc.length → Pads (tupleDescAttr outside desc i) := by
  rw [storeColumns_of_neg rcv outside desc hneg]
  constructor
  · intro hok i hle hlt
    by_contra hpad
    obtain ⟨e, s', hrun⟩ := forTurns_padColumn_error (n := (desc.length - rnatts : ℤ).toNat)
      hle (by omega) hpad s
    rw [hrun] at hok
    cases hok
  · intro hpad
    obtain ⟨s', hrun⟩ := forTurns_padColumn (n := (desc.length - rnatts : ℤ).toNat)
      (fun j hle hlt => hpad j hle (by omega)) s
    rw [hrun]

/-- The stores stay in the local table unless the count is negative and the column in front of
the table that it leads to can be padded; and the call fails or stays in the table unless the
count is negative and every column from there on can be padded. -/
theorem readTuplePartsInto_bounds (rcv : Receiver) (outside : ℤ → Attribute)
    (desc : List Attribute) (bs : List UInt8) (tup : TupleData) :
    ((readTuplePartsInto rcv outside desc ⟨bs, tup, []⟩).2.InBounds desc.length ↔
      ∀ n, columnCount bs = some n → n < 0 → ¬Pads (tupleDescAttr outside desc n)) ∧
    ((readTuplePartsInto rcv outside desc ⟨bs, tup, []⟩).2.InBounds desc.length ∨
        (readTuplePartsInto rcv outside desc ⟨bs, tup, []⟩).1 ≠ .ok () ↔
      ∀ n, columnCount bs = some n → n < 0 →
        ∃ i, n ≤ i ∧ i < desc.length ∧ ¬Pads (tupleDescAttr outside desc i)) := by
  obtain ⟨hnone, e, s', hs', hrun⟩ | ⟨n, s, hcount, hs, hrun⟩ :=
    readTuplePartsInto_cases rcv outside desc bs tup
  · rw [hrun]
    have hin : s'.InBounds desc.length := by simp [Decoding.InBounds, hs']
    simp [hnone, hin]
  · rw [hrun]
    have hstart : s.InBounds desc.length := by simp [Decoding.InBounds, hs]
    simp only [hcount, Option.some.injEq, forall_eq']
    by_cases hneg : n < 0
    · have hbounds := storeColumns_inBounds_iff_of_neg rcv outside desc hneg hs
      have hok := storeColumns_isOk_iff_of_neg rcv outside desc hneg s
      refine ⟨⟨fun hin _ => hbounds.mp hin, fun h => hbounds.mpr (h hneg)⟩, ?_, ?_⟩
      · rintro (hin | herr) _
        · exact ⟨n, le_rfl, by omega, hbounds.mp hin⟩
        · by_contra hall
          push Not at hall
          exact herr (hok.mpr hall)
      · intro h
        obtain ⟨i, hle, hlt, hpad⟩ := h hneg
        exact .inr fun hret => hpad (hok.mp hret i hle hlt)
    · have hin := keeps_storeColumns rcv outside desc (not_lt.mp hneg) s hstart
      simp [hneg, hin]

def zeroedAttribute : Attribute := ⟨false, false, false, 0, 0, ⟨Char.ofNat 0, 0, 0⟩⟩

def bareReceiver : Receiver where
  me := ⟨1, 1, 1⟩
  origins := fun _ => none
  lookup := fun _ _ => none
  discardMismatched := false
  io := ⟨fun _ _ => .empty, fun _ _ => none, fun _ _ => [], fun _ _ => none⟩

def minusOneColumns : List UInt8 := ['T'.toUInt8, 255, 255, 255, 255]

/-- The call returns after a store in front of the arrays. -/
theorem readTuplePartsInto_minusOne :
    (readTuplePartsInto bareReceiver (fun _ => zeroedAttribute) [int4Column]
      ⟨minusOneColumns, ⟨fun _ => none, fun _ => false, fun _ => false⟩, []⟩).1 = .ok () ∧
    (TupleArray.isnull, -1) ∈ (readTuplePartsInto bareReceiver (fun _ => zeroedAttribute)
      [int4Column]
      ⟨minusOneColumns, ⟨fun _ => none, fun _ => false, fun _ => false⟩, []⟩).2.stores := by
  constructor
  · rfl
  · decide

end Pgactive.Stream
