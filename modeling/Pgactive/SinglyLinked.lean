import Mathlib.Data.List.Nodup

/-!
# Singly linked lists in an array

The nodes of all lists are the entries of one array, each with a pointer to the next node. A chain
is the list of the nodes that the pointers lead through, up to the null pointer. Writing a pointer
of a chain cuts it there and goes on with what the new pointer leads to.
-/

namespace SinglyLinked

variable {ι : Type} {next : ι → Option ι} {head head' : Option ι} {l l' a b : List ι} {i : ι}

/-- The pointers lead from `head` through these nodes and end. -/
def Chain (next : ι → Option ι) : Option ι → List ι → Prop
  | head, [] => head = none
  | head, i :: rest => head = some i ∧ Chain next (next i) rest

/-- The nodes from `head` on, if there are not more than `fuel`. -/
def walk (next : ι → Option ι) : ℕ → Option ι → Option (List ι)
  | _, none => some []
  | 0, some _ => none
  | fuel + 1, some i => (walk next fuel (next i)).map (i :: ·)

theorem Chain.unique (h : Chain next head l) (h' : Chain next head l') : l = l' := by
  induction l generalizing head l' with
  | nil =>
    obtain rfl : head = none := h
    cases l' with
    | nil => rfl
    | cons j rest => cases h'.1
  | cons i l ih =>
    obtain ⟨rfl, htail⟩ := h
    cases l' with
    | nil => cases (h' : some i = none)
    | cons j rest =>
      obtain ⟨hij, htail'⟩ := h'
      cases hij
      rw [ih htail htail']

theorem Chain.tail_of_append (h : Chain next head (a ++ i :: b)) : Chain next (next i) b := by
  induction a generalizing head with
  | nil => exact h.2
  | cons j a ih => exact ih h.2

theorem Chain.nodup (h : Chain next head l) : l.Nodup := by
  induction l generalizing head with
  | nil => exact List.nodup_nil
  | cons i l ih =>
    refine List.nodup_cons.mpr ⟨fun hmem => ?_, ih h.2⟩
    -- the nodes behind both places of `i` would be the same
    obtain ⟨a, b, rfl⟩ := List.append_of_mem hmem
    have heq := congrArg List.length (h.2.unique h.2.tail_of_append)
    simp only [List.length_append, List.length_cons] at heq
    omega

theorem Chain.next_ne_self (h : Chain next head (i :: l)) : next i ≠ some i := by
  intro hself
  have hnodup := h.nodup
  cases l with
  | nil => cases hself.symm.trans (h.2 : next i = none)
  | cons j l =>
    obtain rfl := Option.some.inj (hself.symm.trans h.2.1)
    simp at hnodup

theorem walk_eq_some_iff {fuel : ℕ} :
    walk next fuel head = some l ↔ Chain next head l ∧ l.length ≤ fuel := by
  induction fuel generalizing head l with
  | zero =>
    cases head with
    | none => cases l <;> simp [walk, Chain]
    | some i => cases l <;> simp [walk, Chain]
  | succ fuel ih =>
    cases head with
    | none => cases l <;> simp [walk, Chain]
    | some i =>
      cases l with
      | nil => simp [walk, Chain]
      | cons j l =>
        simp only [walk, Option.map_eq_some_iff, ih, List.cons.injEq, Chain, Option.some.injEq,
          List.length_cons]
        constructor
        · rintro ⟨rest, ⟨hchain, hlength⟩, rfl, rfl⟩
          exact ⟨⟨rfl, hchain⟩, by omega⟩
        · rintro ⟨⟨rfl, hchain⟩, hlength⟩
          exact ⟨l, ⟨hchain, by omega⟩, rfl, rfl⟩

variable [DecidableEq ι]

theorem Chain.update_of_notMem (h : Chain next head l) (hi : i ∉ l) :
    Chain (Function.update next i head') head l := by
  induction l generalizing head with
  | nil => exact h
  | cons j l ih =>
    obtain ⟨hj, hl⟩ := not_or.mp (mt List.mem_cons.mpr hi)
    refine ⟨h.1, ?_⟩
    rw [Function.update_of_ne (Ne.symm hj)]
    exact ih h.2 hl

theorem Chain.redirect (h : Chain next head (a ++ i :: b)) (h' : Chain next head' l')
    (hi : i ∉ l') : Chain (Function.update next i head') head (a ++ i :: l') := by
  have hnodup := h.nodup
  induction a generalizing head with
  | nil =>
    refine ⟨h.1, ?_⟩
    rw [Function.update_self]
    exact h'.update_of_notMem hi
  | cons j a ih =>
    rw [List.cons_append, List.nodup_cons] at hnodup
    have hne : j ≠ i := by
      rintro rfl
      simp at hnodup
    refine ⟨h.1, ?_⟩
    rw [Function.update_of_ne hne]
    exact ih h.2 hnodup.2

theorem Chain.push (h : Chain next head l) (hi : i ∉ l) :
    Chain (Function.update next i head) (some i) (i :: l) := by
  refine ⟨rfl, ?_⟩
  rw [Function.update_self]
  exact h.update_of_notMem hi

end SinglyLinked
