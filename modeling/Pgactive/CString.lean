import Mathlib.Data.List.Sort

/-!
# Comparing, matching, sorting and searching strings

The functions of the C library on strings and on arrays of them, and the patterns of SQL. A string
is the list of its characters, without the terminator. A binary search finds exactly the elements of
an array if the array is sorted by the same comparison.
-/

namespace CString

/-! ### Comparing -/

abbrev strcmp : List Char → List Char → Ordering := List.compareLex compare

def strncmpEq : ℕ → List Char → List Char → Bool
  | 0, _, _ => true
  | _ + 1, [], [] => true
  | n + 1, a :: s, b :: t => a == b && strncmpEq n s t
  | _ + 1, _, _ => false

theorem strncmpEq_length_iff {s t : List Char} :
    strncmpEq s.length s t = true ↔ s <+: t := by
  induction s generalizing t with
  | nil => simp [strncmpEq]
  | cons a s ih =>
    cases t with
    | nil => simp [strncmpEq]
    | cons b t => simp [strncmpEq, ih, List.cons_prefix_cons]

theorem strncmpEq_comm (n : ℕ) (s t : List Char) : strncmpEq n s t = strncmpEq n t s := by
  induction n generalizing s t with
  | zero => rfl
  | succ n ih =>
    cases s with
    | nil =>
      cases t with
      | nil => rfl
      | cons b t => rfl
    | cons a s =>
      cases t with
      | nil => rfl
      | cons b t => rw [strncmpEq, strncmpEq, ih, BEq.comm]

def strcasecmpEq (lower : Char → Char) (s t : List Char) : Bool := s.map lower = t.map lower

def strncasecmpEq (lower : Char → Char) (n : ℕ) (s t : List Char) : Bool :=
  strncmpEq n (s.map lower) (t.map lower)

/-! ### Tokens -/

/-- The tokens of a text behind the beginning of one. Delimiters next to each other have no token
between them. -/
def strtokFrom (delims : List Char) : List Char → List Char → List (List Char)
  | token, [] => if token.isEmpty then [] else [token]
  | token, c :: text =>
    if delims.contains c then
      if token.isEmpty then strtokFrom delims [] text else token :: strtokFrom delims [] text
    else strtokFrom delims (token ++ [c]) text

def strtok (delims text : List Char) : List (List Char) := strtokFrom delims [] text

theorem ne_nil_of_mem_strtokFrom {delims token text name : List Char}
    (h : name ∈ strtokFrom delims token text) : name ≠ [] := by
  have hcons : ∀ {token : List Char} {tokens : List (List Char)}, (name ∈ tokens → name ≠ []) →
      (name ∈ if token.isEmpty then tokens else token :: tokens) → name ≠ [] := by
    intro token tokens htokens hname
    split_ifs at hname with hempty
    · exact htokens hname
    · rcases List.mem_cons.mp hname with rfl | hname
      · exact fun hnil => hempty (List.isEmpty_iff.mpr hnil)
      · exact htokens hname
  induction text generalizing token with
  | nil => exact hcons (fun hnil => absurd hnil List.not_mem_nil) h
  | cons c text ih =>
    rw [strtokFrom] at h
    split_ifs at h with hc hempty
    · exact ih h
    · exact hcons ih (by rwa [if_neg hempty])
    · exact ih h

/-! ### Patterns -/

def like : List Char → List Char → Bool
  | [], s => s.isEmpty
  | '%' :: pattern, s => s.tails.any (like pattern)
  | '_' :: pattern, s =>
    match s with
    | [] => false
    | _ :: s => like pattern s
  | c :: pattern, s =>
    match s with
    | [] => false
    | d :: s => c == d && like pattern s

/-! ### Sorting and searching -/

variable {α : Type} {cmp : α → α → Ordering} {key : α} {base : List α}

def Sorted (cmp : α → α → Ordering) (base : List α) : Prop :=
  base.Pairwise fun a b => (cmp a b).isLE = true

instance (cmp : α → α → Ordering) (base : List α) : Decidable (Sorted cmp base) :=
  inferInstanceAs (Decidable (List.Pairwise _ _))

def qsort (cmp : α → α → Ordering) (base : List α) : List α :=
  base.insertionSort fun a b => (cmp a b).isLE = true

def bsearchLoop (cmp : α → α → Ordering) (key : α) (base : List α) : ℕ → ℕ → ℕ → Bool
  | 0, _, _ => false
  | fuel + 1, l, u =>
    if l < u then
      let idx := (l + u) / 2
      match base[idx]? with
      | none => false
      | some elem =>
        match cmp key elem with
        | .lt => bsearchLoop cmp key base fuel l idx
        | .gt => bsearchLoop cmp key base fuel (idx + 1) u
        | .eq => true
    else false

def bsearch (cmp : α → α → Ordering) (key : α) (base : List α) : Bool :=
  bsearchLoop cmp key base base.length 0 base.length

theorem mem_qsort : key ∈ qsort cmp base ↔ key ∈ base :=
  (List.perm_insertionSort _ base).mem_iff

theorem mem_of_bsearchLoop [Std.LawfulEqCmp cmp] {fuel l u : ℕ}
    (h : bsearchLoop cmp key base fuel l u = true) : key ∈ base := by
  induction fuel generalizing l u with
  | zero => cases h
  | succ fuel ih =>
    simp only [bsearchLoop] at h
    split at h
    · split at h
      · cases h
      · next elem helem =>
        split at h
        · exact ih h
        · exact ih h
        · next heq =>
          rw [Std.LawfulEqCmp.eq_of_compare heq]
          exact List.mem_of_getElem? helem
    · cases h

section Order

variable [Std.TransCmp cmp]

theorem sorted_qsort (base : List α) : Sorted cmp (qsort cmp base) := by
  have : Std.Total fun a b => (cmp a b).isLE = true := by
    refine ⟨fun a b => ?_⟩
    have hswap : cmp b a = (cmp a b).swap := Std.OrientedCmp.eq_swap
    rw [hswap]
    cases cmp a b <;> simp
  have : IsTrans α fun a b => (cmp a b).isLE = true := ⟨fun _ _ _ => Std.TransCmp.isLE_trans⟩
  exact List.pairwise_insertionSort _ base

variable [Std.LawfulEqCmp cmp]

theorem bsearchLoop_of_getElem? (hsorted : Sorted cmp base) {fuel l u k : ℕ}
    (hk : base[k]? = some key) (hl : l ≤ k) (hu : k < u) (hbound : u ≤ base.length)
    (hfuel : u - l ≤ fuel) : bsearchLoop cmp key base fuel l u = true := by
  induction fuel generalizing l u with
  | zero => omega
  | succ fuel ih =>
    have hidx : (l + u) / 2 < base.length := by omega
    have helem : base[(l + u) / 2]? = some base[(l + u) / 2] := List.getElem?_eq_getElem hidx
    simp only [bsearchLoop]
    rw [if_pos (by omega), helem]
    dsimp only
    obtain ⟨hlength, hkey⟩ := List.getElem?_eq_some_iff.mp hk
    have hself : cmp key key = .eq := Std.ReflCmp.compare_self
    cases hcmp : cmp key base[(l + u) / 2] with
    | lt =>
      -- the elements from the middle on are not less than the one there
      refine ih hl ?_ (by omega) (by omega)
      by_contra hge
      rcases Nat.lt_or_eq_of_le (Nat.not_lt.mp hge) with hlt | heq
      · have hle := List.pairwise_iff_getElem.mp hsorted _ _ hidx hlength hlt
        have hswap : cmp base[(l + u) / 2] key = (cmp key base[(l + u) / 2]).swap :=
          Std.OrientedCmp.eq_swap
        rw [hkey, hswap, hcmp] at hle
        cases hle
      · subst heq
        rw [hkey, hself] at hcmp
        cases hcmp
    | gt =>
      refine ih ?_ hu hbound (by omega)
      by_contra hle
      rcases Nat.lt_or_eq_of_le (show k ≤ (l + u) / 2 by omega) with hlt | heq
      · have hge := List.pairwise_iff_getElem.mp hsorted _ _ hlength hidx hlt
        rw [hkey, hcmp] at hge
        cases hge
      · subst heq
        rw [hkey, hself] at hcmp
        cases hcmp
    | eq => rfl

theorem bsearch_iff (hsorted : Sorted cmp base) : bsearch cmp key base = true ↔ key ∈ base := by
  refine ⟨mem_of_bsearchLoop, fun hmem => ?_⟩
  obtain ⟨k, hk⟩ := List.mem_iff_getElem?.mp hmem
  obtain ⟨hlength, -⟩ := List.getElem?_eq_some_iff.mp hk
  exact bsearchLoop_of_getElem? hsorted hk (Nat.zero_le k) hlength (Nat.le_refl _) (by omega)

end Order

end CString
