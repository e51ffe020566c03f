import Pgactive.CString
import Pgactive.FallibleState
import Pgactive.Jsonb

/-!
# The label of a database

The security label of a database is a JSON object that says whether replication is active in the
database. The key is compared only up to its own length, so every key that `pgactive` starts with is
taken for it.
-/

namespace Pgactive.Labels

open CString FallibleState Jsonb

/-- The errors of `pgactive_parse_database_options`. -/
inductive DatabaseError
  /-- "root needs to be an object" -/
  | rootNotObject
  /-- "root element needs to be an object" -/
  | rootElementNotObject
  /-- "only 'pgactive' allowed on root level" -/
  | onlyPgactive
  /-- "unexpected key: %s" -/
  | unexpectedKey (k : List Char)
  /-- "in wrong state when parsing key" -/
  | wrongState
  /-- "unexpected type for key 'pgactive': %u" -/
  | unexpectedType (s : Scalar)
  /-- "unexpected content: %u at level %d" -/
  | unexpectedContent (r : Token) (level : ℕ)
deriving DecidableEq

/-- The variables of the loop, and what the argument points to. -/
structure DatabaseParse where
  level : ℕ
  parsingPgactive : Bool
  /-- `is_active`, which may be `NULL`. -/
  isActive : Option Bool
deriving DecidableEq

def pgactiveKey : List Char := ['p', 'g', 'a', 'c', 't', 'i', 'v', 'e']

def DatabaseParse.next (p : DatabaseParse) (r : Token) : Except DatabaseError DatabaseParse :=
  match p.level, r with
  | 0, .beginObject nElems =>
    if 1 < nElems then .error .onlyPgactive else .ok { p with level := 1 }
  | 0, _ => .error .rootElementNotObject
  | 1, .key k =>
    if strncmpEq k.length k pgactiveKey then .ok { p with parsingPgactive := true }
    else .error (.unexpectedKey k)
  | 1, .value s =>
    if !p.parsingPgactive then .error .wrongState
    else
      match s with
      | .bool b => .ok { p with isActive := p.isActive.map fun _ => b }
      | _ => .error (.unexpectedType s)
  | level + 1, .endObject => .ok { p with level := level, parsingPgactive := false }
  | level, _ => .error (.unexpectedContent r level)

def parseDatabaseOptions (label : Option Json) (isActive : Option Bool) :
    Except DatabaseError (Option Bool) :=
  match label with
  | none => .ok isActive
  | some label =>
    match label.jsonbIn with
    | .object pairs => do
      let p ← (Json.object pairs).iterate.foldlM DatabaseParse.next ⟨0, false, isActive⟩
      pure p.isActive
    | _ => .error .rootNotObject

/-! ### What is accepted -/

variable {label : Json} {isActive result : Option Bool}

theorem foldlM_single (k : List Char) (v : Json) (isActive : Option Bool) :
    (∃ p, (Json.object [(k, v)]).iterate.foldlM DatabaseParse.next ⟨0, false, isActive⟩ = .ok p ∧
        p.isActive = result) ↔
      k <+: pgactiveKey ∧ ∃ b, v = .scalar (.bool b) ∧ result = isActive.map fun _ => b := by
  have hbegin : DatabaseParse.next ⟨0, false, isActive⟩ (.beginObject 1) =
      .ok ⟨1, false, isActive⟩ := rfl
  unfold Json.iterate
  simp only [Json.tokens, pairTokens, List.append_nil, List.length_singleton, List.cons_append,
    List.foldlM_cons]
  rw [hbegin]
  by_cases hk : k <+: pgactiveKey
  · have hkey : DatabaseParse.next ⟨1, false, isActive⟩ (.key k) = .ok ⟨1, true, isActive⟩ :=
      if_pos (strncmpEq_length_iff.mpr hk)
    rw [and_iff_right hk]
    simp only [bind, Except.bind, hkey]
    cases v with
    | scalar s =>
      cases s with
      | bool b =>
        simp [Json.tokens, DatabaseParse.next, bind, Except.bind, pure, Except.pure, eq_comm]
      | null | number text | string s =>
        simp [Json.tokens, DatabaseParse.next, bind, Except.bind]
    | array elems => simp [Json.tokens, DatabaseParse.next, bind, Except.bind]
    | object pairs => simp [Json.tokens, DatabaseParse.next, bind, Except.bind]
  · have hkey : DatabaseParse.next ⟨1, false, isActive⟩ (.key k) = .error (.unexpectedKey k) :=
      if_neg fun h => hk (strncmpEq_length_iff.mp h)
    simp [bind, Except.bind, hkey, hk]

theorem parseDatabaseOptions_eq_ok_iff :
    parseDatabaseOptions (some label) isActive = .ok result ↔
      label = .object [] ∧ result = isActive ∨
        ∃ k b, k <+: pgactiveKey ∧ label.Only k (.scalar (.bool b)) ∧
          result = isActive.map fun _ => b := by
  have hscalar : ∀ (v : Json) b, v.jsonbIn = .scalar (.bool b) ↔ v = .scalar (.bool b) := by
    intro v b
    cases v <;> simp [Json.jsonbIn]
  have honly : ∀ k b, label.jsonbIn = .object [(k, .scalar (.bool b))] ↔
      label.Only k (.scalar (.bool b)) := by
    intro k b
    simp only [jsonbIn_eq_single_iff, hscalar]
    simp
  simp only [← honly, ← jsonbIn_eq_empty_iff (j := label), parseDatabaseOptions]
  cases label.jsonbIn with
  | scalar s => simp
  | array elems => simp
  | object pairs =>
    simp only [except_bind_eq_ok, pure, Except.pure, Except.ok.injEq]
    rcases pairs with _ | ⟨⟨k, v⟩, _ | ⟨q, ps⟩⟩
    · simp [Json.iterate, Json.tokens, pairTokens, DatabaseParse.next, bind, Except.bind, pure,
        Except.pure, eq_comm]
    · rw [foldlM_single]
      constructor
      · rintro ⟨hk, b, rfl, hresult⟩
        exact .inr ⟨k, b, hk, rfl, hresult⟩
      · rintro (⟨hnil, -⟩ | ⟨k', b, hk, hpair, hresult⟩)
        · cases hnil
        · cases hpair
          exact ⟨hk, b, rfl, hresult⟩
    · simp [Json.iterate, Json.tokens, DatabaseParse.next, bind, Except.bind]

/-! ### What should be accepted -/

def DatabaseLabel (label : Json) (value : Option Bool) : Prop :=
  label = .object [] ∧ value = none ∨
    ∃ b, label.Only pgactiveKey (.scalar (.bool b)) ∧ value = some b

def assigned (isActive value : Option Bool) : Option Bool :=
  match value with
  | none => isActive
  | some b => isActive.map fun _ => b

/-- For all labels: they are accepted exactly if they are of this form, and the flag gets exactly
the value for the key, exactly if the label is not an object whose only key is a shorter word that
`pgactive` starts with, with a boolean value for it. -/
theorem parseDatabaseOptions_right (label : Json) (isActive : Option Bool) :
    (∀ result, parseDatabaseOptions (some label) isActive = .ok result ↔
      ∃ value, DatabaseLabel label value ∧ result = assigned isActive value) ↔
    ¬∃ k b, k <+: pgactiveKey ∧ k ≠ pgactiveKey ∧ label.Only k (.scalar (.bool b)) := by
  simp only [parseDatabaseOptions_eq_ok_iff]
  constructor
  · rintro hright ⟨k, b, hprefix, hne, honly⟩
    obtain ⟨value, hlabel, -⟩ := (hright _).mp (.inr ⟨k, b, hprefix, honly, rfl⟩)
    rcases hlabel with ⟨hempty, -⟩ | ⟨b', honly', -⟩
    · exact honly.ne_empty hempty
    · exact hne (honly.unique honly').1
  · intro hkey result
    constructor
    · rintro (⟨hempty, rfl⟩ | ⟨k, b, hprefix, honly, rfl⟩)
      · exact ⟨none, .inl ⟨hempty, rfl⟩, rfl⟩
      · have hk : k = pgactiveKey := by
          by_contra hne
          exact hkey ⟨k, b, hprefix, hne, honly⟩
        rw [hk] at honly
        exact ⟨some b, .inr ⟨b, honly, rfl⟩, rfl⟩
    · rintro ⟨value, ⟨hempty, rfl⟩ | ⟨b, honly, rfl⟩, rfl⟩
      · exact .inl ⟨hempty, rfl⟩
      · exact .inr ⟨pgactiveKey, b, List.prefix_rfl, honly, rfl⟩

/-- The label `{"p": true}` and the one with the empty key activate replication. -/
theorem parseDatabaseOptions_shortKey :
    parseDatabaseOptions (some (.object [(['p'], .scalar (.bool true))])) (some false) =
        .ok (some true) ∧
      parseDatabaseOptions (some (.object [([], .scalar (.bool true))])) (some false) =
        .ok (some true) ∧
      ¬∃ value, DatabaseLabel (.object [(['p'], .scalar (.bool true))]) value := by
  refine ⟨by decide, by decide, ?_⟩
  rintro ⟨value, ⟨hempty, -⟩ | ⟨b, ⟨ps, hps, hlast, -⟩, -⟩⟩
  · cases hempty
  · cases hps
    cases hlast

end Pgactive.Labels
