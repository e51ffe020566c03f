import Mathlib.Data.List.Basic

/-!
# JSON values and their iterator

A JSON text is read as a binary value that keeps the last pair of each key, and a parser walks over
it token by token. The token at the start of a container has the number of its elements or pairs.
Strings have no null characters.
-/

namespace Jsonb

/-- A value that is not a container. -/
inductive Scalar
  | null
  | bool (b : Bool)
  | number (text : List Char)
  | string (s : List Char)
deriving DecidableEq

/-- A JSON value. -/
inductive Json
  | scalar (s : Scalar)
  | array (elems : List Json)
  | object (pairs : List (List Char × Json))

/-! ### Reading -/

/-- `uniqueifyJsonbObject`: of several pairs with the same key, the last one counts. -/
def uniqueify : List (List Char × Json) → List (List Char × Json)
  | [] => []
  | p :: ps => if p.1 ∈ ps.map Prod.fst then uniqueify ps else p :: uniqueify ps

mutual

def Json.jsonbIn : Json → Json
  | .scalar s => .scalar s
  | .array elems => .array (elemsIn elems)
  | .object pairs => .object (uniqueify (pairsIn pairs))

def elemsIn : List Json → List Json
  | [] => []
  | j :: js => j.jsonbIn :: elemsIn js

def pairsIn : List (List Char × Json) → List (List Char × Json)
  | [] => []
  | (k, v) :: ps => (k, v.jsonbIn) :: pairsIn ps

end

theorem elemsIn_eq_map (elems : List Json) : elemsIn elems = elems.map Json.jsonbIn := by
  induction elems with
  | nil => rfl
  | cons j js ih => rw [elemsIn, ih, List.map_cons]

theorem pairsIn_eq_map (pairs : List (List Char × Json)) :
    pairsIn pairs = pairs.map (Prod.map id Json.jsonbIn) := by
  induction pairs with
  | nil => rfl
  | cons p ps ih => rw [pairsIn, ih, List.map_cons, Prod.map_apply, id]

theorem uniqueify_eq_nil_iff {ps : List (List Char × Json)} : uniqueify ps = [] ↔ ps = [] := by
  induction ps with
  | nil => simp [uniqueify]
  | cons p ps ih =>
    rw [uniqueify]
    split_ifs with hmem
    · rw [ih]
      refine iff_of_false ?_ id
      rintro rfl
      cases hmem
    · simp

variable {k : List Char} {v : Json}

theorem uniqueify_eq_singleton_iff {ps : List (List Char × Json)} :
    uniqueify ps = [(k, v)] ↔ ps.getLast? = some (k, v) ∧ ∀ p ∈ ps, p.1 = k := by
  induction ps with
  | nil => simp [uniqueify]
  | cons p ps ih =>
    rw [uniqueify]
    cases ps with
    | nil =>
      simp only [List.map_nil, List.not_mem_nil, if_false, uniqueify, List.cons.injEq, and_true,
        List.getLast?_singleton, Option.some.injEq, List.mem_singleton, forall_eq]
      refine ⟨fun h => ⟨h, by rw [h]⟩, fun h => h.1⟩
    | cons q qs =>
      rw [List.getLast?_cons_cons, List.forall_mem_cons]
      split_ifs with hmem
      · rw [ih]
        refine and_congr_right fun _ => (and_iff_right_of_imp fun hall => ?_).symm
        obtain ⟨r, hr, hkey⟩ := List.mem_map.mp hmem
        rw [← hkey, hall r hr]
      · refine iff_of_false ?_ ?_
        · intro h
          have hnil : uniqueify (q :: qs) = [] := (List.cons.inj h).2
          cases uniqueify_eq_nil_iff.mp hnil
        · rintro ⟨-, hkey, hall⟩
          refine hmem ?_
          rw [hkey, ← hall q List.mem_cons_self]
          exact List.mem_map_of_mem List.mem_cons_self

/-- The value is an object whose only key is `k`, and the value for it is `v`. -/
def Json.Only (j : Json) (k : List Char) (v : Json) : Prop :=
  ∃ ps, j = .object ps ∧ ps.getLast? = some (k, v) ∧ ∀ p ∈ ps, p.1 = k

variable {j : Json}

theorem Json.Only.ne_empty (h : j.Only k v) : j ≠ .object [] := by
  obtain ⟨ps, rfl, hlast, -⟩ := h
  rintro ⟨⟩
  cases hlast

theorem Json.Only.unique {w : Json} {l : List Char} (hk : j.Only k v) (hl : j.Only l w) :
    k = l ∧ v = w := by
  obtain ⟨ps, rfl, hlast, -⟩ := hk
  obtain ⟨qs, hqs, hlast', -⟩ := hl
  cases hqs
  rw [hlast, Option.some.injEq, Prod.mk.injEq] at hlast'
  exact hlast'

theorem jsonbIn_eq_empty_iff : j.jsonbIn = .object [] ↔ j = .object [] := by
  cases j with
  | scalar s => simp [Json.jsonbIn]
  | array elems => simp [Json.jsonbIn]
  | object pairs => simp [Json.jsonbIn, uniqueify_eq_nil_iff, pairsIn_eq_map]

theorem jsonbIn_eq_single_iff {w : Json} :
    j.jsonbIn = .object [(k, w)] ↔ ∃ v, j.Only k v ∧ v.jsonbIn = w := by
  unfold Json.Only
  cases j with
  | scalar s => simp [Json.jsonbIn]
  | array elems => simp [Json.jsonbIn]
  | object pairs =>
    have hlast : (pairsIn pairs).getLast? = some (k, w) ↔
        ∃ v, pairs.getLast? = some (k, v) ∧ v.jsonbIn = w := by
      rw [pairsIn_eq_map, List.getLast?_map, Option.map_eq_some_iff]
      simp [Prod.map]
    have hkeys : (∀ p ∈ pairsIn pairs, p.1 = k) ↔ ∀ p ∈ pairs, p.1 = k := by
      rw [pairsIn_eq_map, List.forall_mem_map]
      rfl
    rw [Json.jsonbIn, Json.object.injEq, uniqueify_eq_singleton_iff, hlast, hkeys]
    constructor
    · rintro ⟨⟨v, hv, hw⟩, hall⟩
      exact ⟨v, ⟨pairs, rfl, hv, hall⟩, hw⟩
    · rintro ⟨v, ⟨_, hps, hv, hall⟩, hw⟩
      cases hps
      exact ⟨⟨v, hv, hw⟩, hall⟩

/-! ### The iterator -/

/-- What `JsonbIteratorNext` returns. -/
inductive Token
  | beginArray (nElems : ℕ)
  | endArray
  | beginObject (nPairs : ℕ)
  | endObject
  | key (k : List Char)
  | elem (s : Scalar)
  | value (s : Scalar)
deriving DecidableEq

mutual

def Json.tokens : Json → (Scalar → Token) → List Token
  | .scalar s, scalar => [scalar s]
  | .array elems, _ => .beginArray elems.length :: (elemTokens elems ++ [.endArray])
  | .object pairs, _ => .beginObject pairs.length :: (pairTokens pairs ++ [.endObject])

def elemTokens : List Json → List Token
  | [] => []
  | j :: js => j.tokens .elem ++ elemTokens js

def pairTokens : List (List Char × Json) → List Token
  | [] => []
  | (k, v) :: ps => .key k :: (v.tokens .value ++ pairTokens ps)

end

def Json.iterate (j : Json) : List Token := j.tokens .elem

end Jsonb
