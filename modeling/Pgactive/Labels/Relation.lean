import Pgactive.CString
import Pgactive.Jsonb
import Pgactive.Names

/-!
# The label of a relation

The label is a JSON object with the names of the sets. The parser walks over its tokens with a level
and a flag, and accepts a key that is only the beginning of `sets`, elements that are not strings,
and containers without content behind the names. The start of such a container allocates the array
of names again.
-/

namespace Pgactive.Labels

open CString FallibleState Jsonb Names

/-! ### Names of replication sets -/

/-- The errors of `pgactive_validate_replication_set_name`. -/
inductive SetNameError
  | tooShort (name : List Char)
  | tooLong (name : List Char)
  | invalidCharacter (name : List Char)
  | reserved (name : List Char)
deriving DecidableEq

def defaultSet : List Char := ['d', 'e', 'f', 'a', 'u', 'l', 't']

def allSet : List Char := ['a', 'l', 'l']

def validChar (c : Char) : Bool :=
  ('a' ≤ c && c ≤ 'z') || ('0' ≤ c && c ≤ '9') || c = '_' || c = '-'

def validateReplicationSetName (name : List Char) (allowImplicit : Bool) :
    Except SetNameError Unit :=
  if name.length = 0 then .error (.tooShort name)
  else if nameDataLen ≤ name.length then .error (.tooLong name)
  else if ¬name.all validChar then .error (.invalidCharacter name)
  else if allowImplicit = false ∧ (name = defaultSet ∨ name = allSet) then .error (.reserved name)
  else .ok ()

def ValidSetName (name : List Char) : Prop := validateReplicationSetName name false = .ok ()

instance (name : List Char) : Decidable (ValidSetName name) :=
  inferInstanceAs (Decidable (_ = _))

/-! ### The parser -/

/-- The errors of `pgactive_parse_relation_options`. -/
inductive RelationError
  /-- "root needs to be an object" -/
  | rootNotObject
  /-- "root element needs to be an object" -/
  | rootElementNotObject
  /-- "only 'sets' allowed on root level" -/
  | onlySets
  /-- "unexpected key: %s" -/
  | unexpectedKey (k : List Char)
  /-- "unexpected element type %u" -/
  | unexpectedElementType (r : Token)
  /-- "unexpected level for set %d" -/
  | unexpectedLevel (level : ℕ)
  /-- "unexpected content: %u at level %d" -/
  | unexpectedContent (r : Token) (level : ℕ)
  | setName (e : SetNameError)
deriving DecidableEq

/-- The replication sets of a relation. -/
structure RelationSets where
  /-- `num_replication_sets`. -/
  num : ℤ
  /-- The array `replication_sets`; a cell may not have been written yet. -/
  cells : List (Option (List Char))
deriving DecidableEq

/-- The entry that `pgactive_table_open` makes. -/
def RelationSets.opened : RelationSets := ⟨-1, []⟩

def RelationSets.store (rel : RelationSets) (setname : List Char) : RelationSets :=
  ⟨rel.num + 1, rel.cells.set rel.num.toNat (some setname)⟩

def RelationSets.sorted (rel : RelationSets) : RelationSets :=
  if 0 < rel.num then
    match (rel.cells.take rel.num.toNat).mapM id with
    | some names =>
      { rel with cells := (qsort strcmp names).map some ++ rel.cells.drop rel.num.toNat }
    | none => rel
  else rel

/-- The variables of the loop, and the relation, which may be `NULL`. -/
structure RelationParse where
  level : ℕ
  parsingSets : Bool
  rel : Option RelationSets
  elems : ℕ
deriving DecidableEq

def setsKey : List Char := ['s', 'e', 't', 's']

def RelationParse.enter (p : RelationParse) (nElems : ℕ) : RelationParse :=
  { p with
    level := p.level + 1
    rel :=
      if p.parsingSets then p.rel.map ({ · with cells := List.replicate nElems none })
      else p.rel }

/-- What an element has in `val.string`. The other types share the memory of a union with it, and
there may be anything: `misread` tells what. -/
def valString (misread : ℕ → List Char) (i : ℕ) : Scalar → List Char
  | .string s => s
  | _ => misread i

def RelationParse.next (misread : ℕ → List Char) (p : RelationParse) (r : Token) :
    Except RelationError RelationParse :=
  match p.level, r with
  | 0, .beginObject nElems => if 1 < nElems then .error .onlySets else .ok (p.enter nElems)
  | 0, _ => .error .rootElementNotObject
  | 1, .key k =>
    if strncmpEq k.length k setsKey then
      .ok { p with parsingSets := true, rel := p.rel.map ({ · with num := 0 }) }
    else .error (.unexpectedKey k)
  | _, .beginArray nElems => .ok (p.enter nElems)
  | _, .beginObject nElems => .ok (p.enter nElems)
  | level + 1, .endArray => .ok { p with level := level, parsingSets := false }
  | level + 1, .endObject => .ok { p with level := level, parsingSets := false }
  | level, .elem s =>
    if p.parsingSets then
      if level ≠ 2 then .error (.unexpectedLevel level)
      else
        let setname := valString misread p.elems s
        match validateReplicationSetName setname false with
        | .error e => .error (.setName e)
        | .ok () => .ok { p with rel := p.rel.map (·.store setname), elems := p.elems + 1 }
    else .error (.unexpectedContent r level)
  | level, _ =>
    if p.parsingSets then .error (.unexpectedElementType r)
    else .error (.unexpectedContent r level)

def parseRelationOptions (misread : ℕ → List Char) (label : Option Json)
    (rel : Option RelationSets) : Except RelationError (Option RelationSets) :=
  match label with
  | none => .ok rel
  | some label =>
    match label.jsonbIn with
    | .object pairs => do
      let p ← (Json.object pairs).iterate.foldlM (RelationParse.next misread) ⟨0, false, rel, 0⟩
      pure (p.rel.map RelationSets.sorted)
    | _ => .error .rootNotObject

/-! ### Containers without content -/

mutual

def hollow : Json → Bool
  | .scalar _ => false
  | .array elems => hollowAll elems
  | .object pairs => pairs.isEmpty

def hollowAll : List Json → Bool
  | [] => true
  | j :: js => hollow j && hollowAll js

end

variable {misread : ℕ → List Char} {p p' : RelationParse}

def RelationParse.lose (p : RelationParse) : RelationParse :=
  { p with parsingSets := false, rel := p.rel.map ({ · with cells := [] }) }

theorem next_enter {l n : ℕ} (hlevel : p.level = l + 1) :
    p.next misread (.beginArray n) = .ok (p.enter n) ∧
      p.next misread (.beginObject n) = .ok (p.enter n) := by
  obtain ⟨level, parsing, rel, elems⟩ := p
  cases hlevel
  cases l <;> exact ⟨rfl, rfl⟩

variable {l : ℕ}

theorem next_leave (hlevel : p.level = l + 1) :
    p.next misread .endArray = .ok { p with level := l, parsingSets := false } ∧
      p.next misread .endObject = .ok { p with level := l, parsingSets := false } := by
  obtain ⟨level, parsing, rel, elems⟩ := p
  cases hlevel
  cases l <;> exact ⟨rfl, rfl⟩

theorem enter_level (hlevel : p.level = l + 1) (n : ℕ) : (p.enter n).level = l + 2 := by
  obtain ⟨level, parsing, rel, elems⟩ := p
  cases hlevel
  cases parsing <;> rfl

theorem next_key_ne {k : List Char} (hlevel : p.level = l + 2) :
    p.next misread (.key k) ≠ .ok p' := by
  obtain ⟨level, parsing, rel, elems⟩ := p
  cases hlevel
  cases parsing <;> rintro ⟨⟩

theorem next_elem_ne {s : Scalar} (hlevel : p.level = l + 2)
    (hidle : p.parsingSets = false ∨ l ≠ 0) : p.next misread (.elem s) ≠ .ok p' := by
  obtain ⟨level, parsing, rel, elems⟩ := p
  cases hlevel
  cases parsing with
  | false => rintro ⟨⟩
  | true =>
    have hl : l + 2 ≠ 2 := by simpa using hidle
    simp [RelationParse.next, hl]

theorem foldlM_pairs_ne {q : List Char × Json} {ps : List (List Char × Json)}
    (hlevel : p.level = l + 2) (rest : List Token) :
    (pairTokens (q :: ps) ++ rest).foldlM (RelationParse.next misread) p ≠ .ok p' := by
  exact foldlM_cons_ne_ok (fun _ => next_key_ne hlevel) _

theorem foldlM_leave (hlevel : p.level = l + 1) :
    [Token.endArray].foldlM (RelationParse.next misread) p =
        .ok { p with level := l, parsingSets := false } ∧
      [Token.endObject].foldlM (RelationParse.next misread) p =
        .ok { p with level := l, parsingSets := false } :=
  ⟨foldlM_cons_of_ok (next_leave hlevel).1 [], foldlM_cons_of_ok (next_leave hlevel).2 []⟩

theorem foldlM_empty (hlevel : p.level = l + 1) (wrap : Scalar → Token) :
    ((Json.array []).tokens wrap).foldlM (RelationParse.next misread) p =
        .ok { p.enter 0 with level := l + 1, parsingSets := false } ∧
      ((Json.object []).tokens wrap).foldlM (RelationParse.next misread) p =
        .ok { p.enter 0 with level := l + 1, parsingSets := false } := by
  have hlevel₁ : (p.enter 0).level = l + 2 := enter_level hlevel 0
  constructor
  · rw [Json.tokens, List.length_nil, foldlM_cons_of_ok (next_enter hlevel).1, elemTokens,
      List.nil_append, (foldlM_leave hlevel₁).1]
  · rw [Json.tokens, List.length_nil, foldlM_cons_of_ok (next_enter hlevel).2, pairTokens,
      List.nil_append, (foldlM_leave hlevel₁).2]

theorem foldlM_object_ne {q : List Char × Json} {ps : List (List Char × Json)}
    (hlevel : p.level = l + 1) (wrap : Scalar → Token) :
    ((Json.object (q :: ps)).tokens wrap).foldlM (RelationParse.next misread) p ≠ .ok p' := by
  rw [Json.tokens, foldlM_cons_of_ok (next_enter hlevel).2]
  exact foldlM_pairs_ne (enter_level hlevel _) _

mutual

theorem foldlM_idle (j : Json) {l : ℕ} {p p' : RelationParse} (hlevel : p.level = l + 2)
    (hidle : p.parsingSets = false) :
    (j.tokens .elem).foldlM (RelationParse.next misread) p = .ok p' ↔
      hollow j = true ∧ p = p' := by
  have henter : ∀ n, (p.enter n).parsingSets = false ∧
      ({ p.enter n with level := l + 2, parsingSets := false } : RelationParse) = p := by
    intro n
    obtain ⟨level, parsing, rel, elems⟩ := p
    cases hlevel
    cases hidle
    exact ⟨rfl, rfl⟩
  match j with
  | .scalar s =>
    exact iff_of_false (foldlM_cons_ne_ok (fun _ => next_elem_ne hlevel (.inl hidle)) _)
      (by simp [hollow])
  | .array elems =>
    obtain ⟨hidle₁, hback⟩ := henter elems.length
    have hlevel₁ : (p.enter elems.length).level = l + 3 := enter_level hlevel _
    rw [Json.tokens, foldlM_cons_of_ok (next_enter hlevel).1, foldlM_append_eq_ok, hollow]
    simp only [foldlM_idle_elems elems hlevel₁ hidle₁, and_assoc, exists_and_left, exists_eq_left']
    rw [(foldlM_leave hlevel₁).1, hback, Except.ok.injEq]
  | .object [] =>
    rw [(foldlM_empty hlevel .elem).2, (henter 0).2, Except.ok.injEq, hollow]
    simp
  | .object (q :: ps) =>
    exact iff_of_false (foldlM_object_ne hlevel .elem) (by simp [hollow])

theorem foldlM_idle_elems (js : List Json) {l : ℕ} {p p' : RelationParse}
    (hlevel : p.level = l + 2) (hidle : p.parsingSets = false) :
    (elemTokens js).foldlM (RelationParse.next misread) p = .ok p' ↔
      hollowAll js = true ∧ p = p' := by
  match js with
  | [] => simp [elemTokens, hollowAll, pure, Except.pure]
  | j :: js =>
    rw [elemTokens, foldlM_append_eq_ok, hollowAll, Bool.and_eq_true]
    simp only [foldlM_idle j hlevel hidle, and_assoc, exists_and_left, exists_eq_left']
    rw [foldlM_idle_elems js hlevel hidle]

end

theorem foldlM_container (j : Json) {l : ℕ} {p p' : RelationParse} (hlevel : p.level = l + 2)
    (hparsing : p.parsingSets = true) (hj : ∀ s, j ≠ .scalar s) :
    (j.tokens .elem).foldlM (RelationParse.next misread) p = .ok p' ↔
      hollow j = true ∧ p.lose = p' := by
  have henter : ∀ n, (p.enter n).parsingSets = true ∧
      ({ (p.enter n).lose with level := l + 2, parsingSets := false } : RelationParse) =
        p.lose := by
    intro n
    obtain ⟨level, parsing, rel, elems⟩ := p
    cases hlevel
    cases hparsing
    cases rel <;> exact ⟨rfl, rfl⟩
  -- the array of an empty container is empty
  have hempty : ({ p.enter 0 with level := l + 2, parsingSets := false } : RelationParse) =
      p.lose := by
    obtain ⟨level, parsing, rel, elems⟩ := p
    cases hlevel
    cases hparsing
    rfl
  match j with
  | .scalar s => exact absurd rfl (hj s)
  | .array [] =>
    rw [(foldlM_empty hlevel .elem).1, hempty, Except.ok.injEq, hollow]
    simp [hollowAll]
  | .array (j₀ :: js) =>
    obtain ⟨hparsing₁, hback⟩ := henter (j₀ :: js).length
    have hlevel₁ : (p.enter (j₀ :: js).length).level = l + 3 := enter_level hlevel _
    rw [Json.tokens, foldlM_cons_of_ok (next_enter hlevel).1, elemTokens, List.append_assoc,
      foldlM_append_eq_ok, hollow, hollowAll, Bool.and_eq_true]
    by_cases hscalar : ∃ s, j₀ = .scalar s
    · obtain ⟨s, rfl⟩ := hscalar
      refine iff_of_false ?_ (by simp [hollow])
      rintro ⟨p₁, hrun, -⟩
      exact foldlM_cons_ne_ok (fun _ => next_elem_ne hlevel₁ (.inr (Nat.succ_ne_zero l))) _ hrun
    · have hlevel₂ : (p.enter (j₀ :: js).length).lose.level = l + 3 := hlevel₁
      simp only [foldlM_container j₀ hlevel₁ hparsing₁ (not_exists.mp hscalar), and_assoc,
        exists_and_left, exists_eq_left', foldlM_append_eq_ok, foldlM_idle_elems js hlevel₂ rfl]
      rw [(foldlM_leave hlevel₂).1, hback, Except.ok.injEq]
  | .object [] =>
    rw [(foldlM_empty hlevel .elem).2, hempty, Except.ok.injEq, hollow]
    simp
  | .object (q :: ps) =>
    exact iff_of_false (foldlM_object_ne hlevel .elem) (by simp [hollow])

/-! ### The elements of the array -/

/-- The names at the beginning of the array, up to the first container. -/
def setNames (misread : ℕ → List Char) : ℕ → List Json → List (List Char)
  | i, .scalar s :: js => valString misread i s :: setNames misread (i + 1) js
  | _, _ => []

def behindNames : List Json → List Json
  | .scalar _ :: js => behindNames js
  | js => js

def RelationParse.storeAll (p : RelationParse) (names : List (List Char)) : RelationParse :=
  { p with
    rel := p.rel.map fun rel => names.foldl RelationSets.store rel
    elems := p.elems + names.length }

theorem storeAll_cons (p : RelationParse) (name : List Char) (names : List (List Char)) :
    p.storeAll (name :: names) =
      RelationParse.storeAll { p with rel := p.rel.map (·.store name), elems := p.elems + 1 }
        names := by
  obtain ⟨level, parsing, rel, elems⟩ := p
  unfold RelationParse.storeAll
  cases rel <;> simp <;> omega

theorem hollowAll_iff {js : List Json} : hollowAll js = true ↔ ∀ j ∈ js, hollow j = true := by
  induction js with
  | nil => simp [hollowAll]
  | cons j js ih => rw [hollowAll, Bool.and_eq_true, List.forall_mem_cons, ih]

theorem next_elem {s : Scalar} (hlevel : p.level = 2) (hparsing : p.parsingSets = true) :
    p.next misread (.elem s) = .ok p' ↔
      ValidSetName (valString misread p.elems s) ∧
        ({ p with rel := p.rel.map (·.store (valString misread p.elems s))
                  elems := p.elems + 1 } : RelationParse) = p' := by
  obtain ⟨level, parsing, rel, elems⟩ := p
  cases hlevel
  cases hparsing
  simp only [RelationParse.next, if_true, ne_eq, not_true, if_false]
  unfold ValidSetName
  cases validateReplicationSetName (valString misread elems s) false with
  | error e => simp
  | ok u => simp

theorem foldlM_elems (js : List Json) {p p' : RelationParse} (hlevel : p.level = 2)
    (hparsing : p.parsingSets = true) :
    (elemTokens js).foldlM (RelationParse.next misread) p = .ok p' ↔
      (∀ name ∈ setNames misread p.elems js, ValidSetName name) ∧
        (∀ j ∈ behindNames js, hollow j = true) ∧
        (if behindNames js = [] then p.storeAll (setNames misread p.elems js)
          else (p.storeAll (setNames misread p.elems js)).lose) = p' := by
  induction js generalizing p with
  | nil =>
    have hnone : p.storeAll [] = p := by
      obtain ⟨level, parsing, rel, elems⟩ := p
      cases rel <;> rfl
    simp [elemTokens, setNames, behindNames, hnone, pure, Except.pure]
  | cons j js ih =>
    by_cases hscalar : ∃ s, j = .scalar s
    · obtain ⟨s, rfl⟩ := hscalar
      rw [elemTokens, Json.tokens, List.singleton_append, foldlM_cons_eq_ok]
      simp only [next_elem hlevel hparsing, and_assoc, exists_and_left, exists_eq_left']
      have hrest := ih (p := { p with rel := p.rel.map (·.store (valString misread p.elems s)),
                                      elems := p.elems + 1 }) hlevel hparsing
      rw [hrest, setNames, behindNames, List.forall_mem_cons, storeAll_cons, and_assoc]
    · obtain ⟨hnames, hbehind⟩ : setNames misread p.elems (j :: js) = [] ∧
          behindNames (j :: js) = j :: js := by
        cases j with
        | scalar s => exact absurd ⟨s, rfl⟩ hscalar
        | array elems => exact ⟨rfl, rfl⟩
        | object pairs => exact ⟨rfl, rfl⟩
      have hnone : (p.storeAll []).lose = p.lose := by
        obtain ⟨level, parsing, rel, elems⟩ := p
        cases rel <;> rfl
      have hlevel₁ : p.lose.level = 0 + 2 := hlevel
      rw [hnames, hbehind, if_neg (List.cons_ne_nil _ _), hnone, List.forall_mem_cons, elemTokens,
        foldlM_append_eq_ok]
      simp only [foldlM_container j hlevel hparsing (not_exists.mp hscalar), and_assoc,
        exists_and_left, exists_eq_left', foldlM_idle_elems js hlevel₁ rfl, hollowAll_iff]
      simp

/-! ### The whole label -/

variable (names : List (List Char))

def RelationSets.of : RelationSets :=
  ⟨names.length, (qsort strcmp names).map some⟩

theorem foldl_store (names done : List (List Char)) :
    names.foldl RelationSets.store
        ⟨done.length, done.map some ++ List.replicate names.length none⟩ =
      ⟨(done ++ names).length, (done ++ names).map some⟩ := by
  induction names generalizing done with
  | nil => simp
  | cons name names ih =>
    have hstore : RelationSets.store
        ⟨done.length, done.map some ++ List.replicate (name :: names).length none⟩ name =
        ⟨(done ++ [name]).length,
          (done ++ [name]).map some ++ List.replicate names.length none⟩ := by
      unfold RelationSets.store
      simp [List.replicate_succ]
    rw [List.foldl_cons, hstore, ih]
    simp

theorem mapM_id_map_some : (names.map some).mapM id = some names := by
  induction names with
  | nil => rfl
  | cons name names ih => simp [ih]

theorem sorted_of_cells :
    RelationSets.sorted ⟨names.length, names.map some⟩ = RelationSets.of names := by
  cases names with
  | nil => rfl
  | cons name names =>
    have htake : ((name :: names).map some).take (name :: names).length =
        (name :: names).map some := List.take_of_length_le (by simp)
    have hdrop : ((name :: names).map some).drop (name :: names).length = [] :=
      List.drop_of_length_le (by simp)
    have hpos : (0 : ℤ) < (name :: names).length := by
      rw [List.length_cons]
      omega
    unfold RelationSets.sorted RelationSets.of
    rw [Int.toNat_natCast, htake, hdrop, mapM_id_map_some]
    simp

theorem foldl_store_num (rel : RelationSets) :
    (names.foldl RelationSets.store rel).num = rel.num + names.length := by
  induction names generalizing rel with
  | nil => simp
  | cons name names ih =>
    have hstore : (rel.store name).num = rel.num + 1 := rfl
    rw [List.foldl_cons, ih, hstore, List.length_cons]
    omega

theorem length_setNames {js : List Json} (h : behindNames js = []) (i : ℕ) :
    (setNames misread i js).length = js.length := by
  induction js generalizing i with
  | nil => rfl
  | cons j js ih =>
    cases j with
    | scalar s => rw [setNames, List.length_cons, List.length_cons, ih h]
    | array elems => cases h
    | object pairs => cases h

def AcceptedSets (misread : ℕ → List Char) (v : Json) : Prop :=
  v = .object [] ∨ ∃ elems, v = .array elems ∧
    (∀ name ∈ setNames misread 0 elems, ValidSetName name) ∧
      ∀ j ∈ behindNames elems, hollow j = true

def readSets (misread : ℕ → List Char) : Json → RelationSets
  | .array elems =>
    if behindNames elems = [] then .of (setNames misread 0 elems)
    else ⟨(setNames misread 0 elems).length, []⟩
  | _ => ⟨0, []⟩

theorem sorted_lost (n : ℤ) : RelationSets.sorted ⟨n, []⟩ = ⟨n, []⟩ := by
  unfold RelationSets.sorted
  split_ifs
  · rw [List.take_nil, List.drop_nil]
    rfl
  · rfl

def RelationParse.afterElems (misread : ℕ → List Char) (rel : Option RelationSets)
    (elems : List Json) : RelationParse :=
  let p : RelationParse := ⟨2, true, rel.map fun _ => ⟨0, List.replicate elems.length none⟩, 0⟩
  if behindNames elems = [] then p.storeAll (setNames misread 0 elems)
  else (p.storeAll (setNames misread 0 elems)).lose

theorem afterElems_level (rel : Option RelationSets) (elems : List Json) :
    (RelationParse.afterElems misread rel elems).level = 2 := by
  unfold RelationParse.afterElems
  split_ifs <;> rfl

theorem afterElems_sorted (rel : Option RelationSets) (elems : List Json) :
    (RelationParse.afterElems misread rel elems).rel.map RelationSets.sorted =
      rel.map fun _ => readSets misread (.array elems) := by
  unfold RelationParse.afterElems readSets
  by_cases hbehind : behindNames elems = []
  · have hstore := foldl_store (setNames misread 0 elems) []
    rw [length_setNames hbehind, List.nil_append] at hstore
    simp only [if_pos hbehind, ← sorted_of_cells, ← hstore]
    cases rel <;> rfl
  · have hnum := foldl_store_num (setNames misread 0 elems)
      ⟨0, List.replicate elems.length none⟩
    simp only [if_neg hbehind, RelationParse.storeAll, RelationParse.lose, Option.map_map]
    refine congrArg (fun f => rel.map f) (funext fun _ => ?_)
    simp only [Function.comp_apply, hnum, zero_add, sorted_lost]

theorem foldlM_elems_leave (rel : Option RelationSets) (elems : List Json) :
    (elemTokens elems ++ [Token.endArray, .endObject]).foldlM (RelationParse.next misread)
        ⟨2, true, rel.map fun _ => ⟨0, List.replicate elems.length none⟩, 0⟩ = .ok p ↔
      ((∀ name ∈ setNames misread 0 elems, ValidSetName name) ∧
        ∀ j ∈ behindNames elems, hollow j = true) ∧
      { RelationParse.afterElems misread rel elems with level := 0, parsingSets := false } = p := by
  have hleave : [Token.endArray, .endObject].foldlM (RelationParse.next misread)
      (RelationParse.afterElems misread rel elems) =
        .ok { RelationParse.afterElems misread rel elems with
          level := 0, parsingSets := false } := by
    rw [foldlM_cons_of_ok (next_leave (afterElems_level rel elems)).1, (foldlM_leave rfl).2]
  rw [foldlM_append_eq_ok]
  simp only [foldlM_elems elems (p := ⟨2, true, _, 0⟩) rfl rfl, and_assoc, exists_and_left]
  refine and_congr_right fun _ => and_congr_right fun _ => ?_
  constructor
  · rintro ⟨_, rfl, hp⟩
    exact Except.ok.inj (hleave.symm.trans hp)
  · rintro rfl
    exact ⟨_, rfl, hleave⟩

theorem foldlM_value (v : Json) (rel result : Option RelationSets) :
    (∃ p, (v.tokens .value ++ [Token.endObject]).foldlM (RelationParse.next misread)
        ⟨1, true, rel.map ({ · with num := 0 }), 0⟩ = .ok p ∧
          p.rel.map RelationSets.sorted = result) ↔
      AcceptedSets misread v ∧ (rel.map fun _ => readSets misread v) = result := by
  have henter : ∀ n, RelationParse.enter ⟨1, true, rel.map ({ · with num := 0 }), 0⟩ n =
      ⟨2, true, rel.map fun _ => ⟨0, List.replicate n none⟩, 0⟩ := by
    intro n
    cases rel <;> rfl
  unfold AcceptedSets
  match v with
  | .scalar s =>
    refine iff_of_false ?_ (by simp)
    rintro ⟨p, hrun, -⟩
    exact foldlM_cons_ne_ok (fun _ => by rintro ⟨⟩) _ hrun
  | .array elems =>
    rw [Json.tokens, List.cons_append, foldlM_cons_of_ok (next_enter rfl).1, henter,
      List.append_assoc, List.singleton_append]
    simp only [foldlM_elems_leave, and_assoc, exists_and_left, exists_eq_left', afterElems_sorted]
    simp [and_assoc]
  | .object [] =>
    have hrun : ((Json.object []).tokens .value ++ [Token.endObject]).foldlM
        (RelationParse.next misread) ⟨1, true, rel.map ({ · with num := 0 }), 0⟩ =
          .ok ⟨0, false, rel.map fun _ => ⟨0, []⟩, 0⟩ := by
      refine foldlM_append_eq_ok.mpr ⟨_, (foldlM_empty rfl .value).2, ?_⟩
      rw [henter, (foldlM_leave rfl).2]
      rfl
    simp only [hrun, Except.ok.injEq, exists_eq_left', Option.map_map]
    cases rel <;> simp [readSets, sorted_lost]
  | .object (q :: ps) =>
    refine iff_of_false ?_ (by simp)
    rintro ⟨p, hrun, -⟩
    obtain ⟨p₁, hvalue, -⟩ := foldlM_append_eq_ok.mp hrun
    exact foldlM_object_ne rfl .value hvalue

theorem parseRelationOptions_eq_ok_iff {label : Json} {rel result : Option RelationSets} :
    parseRelationOptions misread (some label) rel = .ok result ↔
      label.jsonbIn = .object [] ∧ rel.map RelationSets.sorted = result ∨
        ∃ k v, label.jsonbIn = .object [(k, v)] ∧ k <+: setsKey ∧ AcceptedSets misread v ∧
          (rel.map fun _ => readSets misread v) = result := by
  simp only [parseRelationOptions]
  match label.jsonbIn with
  | .scalar s => simp
  | .array elems => simp
  | .object pairs =>
    simp only [except_bind_eq_ok, pure, Except.pure, Except.ok.injEq]
    match pairs with
    | [] =>
      simp [Json.iterate, Json.tokens, pairTokens, RelationParse.next, RelationParse.enter, bind,
        Except.bind, pure, Except.pure]
    | [(k, v)] =>
      have hbegin : RelationParse.next misread ⟨0, false, rel, 0⟩ (.beginObject 1) =
          .ok ⟨1, false, rel, 0⟩ := rfl
      have htokens : (Json.object [(k, v)]).iterate =
          .beginObject 1 :: .key k :: (v.tokens .value ++ [.endObject]) := by
        simp [Json.iterate, Json.tokens, pairTokens]
      have hpair : (∃ k' v', Json.object [(k, v)] = .object [(k', v')] ∧ k' <+: setsKey ∧
          AcceptedSets misread v' ∧ (rel.map fun _ => readSets misread v') = result) ↔
          k <+: setsKey ∧ AcceptedSets misread v ∧
            (rel.map fun _ => readSets misread v) = result := by
        constructor
        · rintro ⟨_, _, ⟨⟩, haccepted⟩
          exact haccepted
        · intro haccepted
          exact ⟨k, v, rfl, haccepted⟩
      rw [hpair, htokens, foldlM_cons_of_ok hbegin]
      by_cases hk : k <+: setsKey
      · have hkey : RelationParse.next misread ⟨1, false, rel, 0⟩ (.key k) =
            .ok ⟨1, true, rel.map ({ · with num := 0 }), 0⟩ :=
          if_pos (strncmpEq_length_iff.mpr hk)
        rw [foldlM_cons_of_ok hkey, foldlM_value, and_iff_right hk]
        simp
      · have hkey : RelationParse.next misread ⟨1, false, rel, 0⟩ (.key k) =
            .error (.unexpectedKey k) := if_neg fun h => hk (strncmpEq_length_iff.mp h)
        simp [hk, List.foldlM_cons, hkey, bind, Except.bind]
    | p :: q :: ps =>
      simp [Json.iterate, Json.tokens, RelationParse.next, bind, Except.bind]

/-! ### What should be accepted -/

def stringArray : Json :=
  .array (names.map fun name => .scalar (.string name))

/-- The label is the empty object, or one whose only key is `sets`, with an array of valid names. -/
def RelationLabel (label : Json) (sets : Option (List (List Char))) : Prop :=
  label = .object [] ∧ sets = none ∨
    ∃ names, label.Only setsKey (stringArray names) ∧ (∀ name ∈ names, ValidSetName name) ∧
      sets = some names

def storedSets : Option (List (List Char)) → RelationSets
  | none => .opened
  | some names => .of names

def Misparsed (misread : ℕ → List Char) (label : Json) : Prop :=
  ∃ k v, label.jsonbIn = .object [(k, v)] ∧ k <+: setsKey ∧ AcceptedSets misread v ∧
    ¬(k = setsKey ∧ ∃ names, v = stringArray names)

theorem jsonbIn_eq_stringArray_iff {v : Json} {names : List (List Char)} :
    v.jsonbIn = stringArray names ↔ v = stringArray names := by
  have hscalar : ∀ (j : Json) s, j.jsonbIn = .scalar s ↔ j = .scalar s := by
    intro j s
    cases j <;> simp [Json.jsonbIn]
  have helems : ∀ elems, elemsIn elems = names.map (fun name => Json.scalar (.string name)) ↔
      elems = names.map fun name => .scalar (.string name) := by
    intro elems
    rw [elemsIn_eq_map]
    induction names generalizing elems with
    | nil => simp
    | cons name names ih =>
      cases elems with
      | nil => simp
      | cons j js => simp [ih, hscalar]
  cases v with
  | scalar s => simp [Json.jsonbIn, stringArray]
  | array elems => simp [Json.jsonbIn, stringArray, helems]
  | object pairs => simp [Json.jsonbIn, stringArray]

theorem setNames_strings (misread : ℕ → List Char) (names : List (List Char)) (i : ℕ) :
    setNames misread i (names.map fun name => .scalar (.string name)) = names ∧
      behindNames (names.map fun name => .scalar (.string name)) = [] := by
  induction names generalizing i with
  | nil => exact ⟨rfl, rfl⟩
  | cons name names ih =>
    obtain ⟨hnames, hbehind⟩ := ih (i + 1)
    rw [List.map_cons, setNames, hnames, behindNames, hbehind, valString]
    exact ⟨rfl, rfl⟩

theorem acceptedSets_strings {names : List (List Char)} :
    AcceptedSets misread (stringArray names) ↔ ∀ name ∈ names, ValidSetName name := by
  obtain ⟨hnames, hbehind⟩ := setNames_strings misread names 0
  constructor
  · rintro (hobject | ⟨_, ⟨⟩, hvalid, -⟩)
    · cases hobject
    · rwa [hnames] at hvalid
  · intro hvalid
    refine .inr ⟨_, rfl, by rwa [hnames], ?_⟩
    rw [hbehind]
    simp

theorem readSets_strings : readSets misread (stringArray names) = .of names := by
  obtain ⟨hnames, hbehind⟩ := setNames_strings misread names 0
  rw [stringArray, readSets, hnames, hbehind, if_pos rfl]

theorem relationLabel_iff {label : Json} {sets : Option (List (List Char))} :
    RelationLabel label sets ↔
      label.jsonbIn = .object [] ∧ sets = none ∨
        ∃ names, label.jsonbIn = .object [(setsKey, stringArray names)] ∧
          (∀ name ∈ names, ValidSetName name) ∧ sets = some names := by
  unfold RelationLabel
  simp only [jsonbIn_eq_empty_iff, jsonbIn_eq_single_iff, jsonbIn_eq_stringArray_iff,
    exists_eq_right]

/-- For all labels: they are accepted exactly if they are of this form, and then exactly these names
are stored, sorted, exactly if the label is not one that is misparsed. -/
theorem parseRelationOptions_right (misread : ℕ → List Char) (label : Json) :
    (∀ rel result, rel = none ∨ rel = some RelationSets.opened →
      (parseRelationOptions misread (some label) rel = .ok result ↔
        ∃ sets, RelationLabel label sets ∧ (rel.map fun _ => storedSets sets) = result)) ↔
    ¬Misparsed misread label := by
  simp only [parseRelationOptions_eq_ok_iff, relationLabel_iff]
  constructor
  · rintro hright ⟨k, v, hlabel, hprefix, haccepted, hwrong⟩
    obtain ⟨sets, hsets, -⟩ := (hright none none (.inl rfl)).mp
      (.inr ⟨k, v, hlabel, hprefix, haccepted, rfl⟩)
    rw [hlabel] at hsets
    rcases hsets with ⟨hempty, -⟩ | ⟨names, hnames, -⟩
    · cases hempty
    · cases hnames
      exact hwrong ⟨rfl, names, rfl⟩
  · intro hparsed rel result hrel
    have hopened : (rel.map RelationSets.sorted) = rel.map fun _ => storedSets none := by
      rcases hrel with rfl | rfl <;> rfl
    constructor
    · rintro (⟨hempty, rfl⟩ | ⟨k, v, hlabel, hprefix, haccepted, rfl⟩)
      · exact ⟨none, .inl ⟨hempty, rfl⟩, hopened.symm⟩
      · obtain ⟨rfl, names, rfl⟩ : k = setsKey ∧ ∃ names, v = stringArray names := by
          by_contra hwrong
          exact hparsed ⟨k, v, hlabel, hprefix, haccepted, hwrong⟩
        refine ⟨some names, .inr ⟨names, hlabel, acceptedSets_strings.mp haccepted, rfl⟩, ?_⟩
        rw [readSets_strings, storedSets]
    · rintro ⟨sets, ⟨hempty, rfl⟩ | ⟨names, hlabel, hvalid, rfl⟩, rfl⟩
      · exact .inl ⟨hempty, hopened⟩
      · refine .inr ⟨setsKey, stringArray names, hlabel, List.prefix_rfl,
          acceptedSets_strings.mpr hvalid, ?_⟩
        rw [readSets_strings, storedSets]

/-- The label `{"set": ["a"]}` has another key. With `{"sets": ["a", []]}` there is one name, but
its cell is gone; and `{"sets": [null]}` is accepted if there is a name in the memory of the
union. -/
theorem parseRelationOptions_wrong :
    (∀ misread, parseRelationOptions misread
        (some (.object [(['s', 'e', 't'], stringArray [['a']])])) (some .opened) =
      .ok (some ⟨1, [some ['a']]⟩)) ∧
    (∀ misread, parseRelationOptions misread
        (some (.object [(setsKey, .array [.scalar (.string ['a']), .array []])])) (some .opened) =
      .ok (some ⟨1, []⟩)) ∧
    parseRelationOptions (fun _ => ['s'])
        (some (.object [(setsKey, .array [.scalar .null])])) (some .opened) =
      .ok (some ⟨1, [some ['s']]⟩) := by
  refine ⟨fun misread => rfl, fun misread => rfl, by decide⟩

end Pgactive.Labels
