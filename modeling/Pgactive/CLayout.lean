import Mathlib.Algebra.GroupWithZero.Nat
import Mathlib.Order.Interval.Finset.Nat

/-!
# Sizes, offsets and pointers in C

How a C compiler lays out the fields of a struct, what adding an integer to a typed pointer
does, and the bytes that an array occupies.
-/

namespace CLayout

/-- Size and alignment of a type in bytes. -/
structure CType where
  /-- What `sizeof` gives. -/
  size : ℕ
  align : ℕ
  size_pos : 0 < size
  align_pos : 0 < align

def alignUp (a x : ℕ) : ℕ := (x + a - 1) / a * a

theorem le_alignUp {a : ℕ} (ha : 0 < a) (x : ℕ) : x ≤ alignUp a x := by
  have hdiv := Nat.div_add_mod (x + a - 1) a
  have hmod := Nat.mod_lt (x + a - 1) ha
  rw [alignUp, Nat.mul_comm]
  omega

/-- The end of the last of some fields that are placed one after the other. -/
def place (offset : ℕ) : List CType → ℕ
  | [] => offset
  | t :: ts => place (alignUp t.align offset + t.size) ts

theorem add_sum_le_place (offset : ℕ) (fields : List CType) :
    offset + (fields.map CType.size).sum ≤ place offset fields := by
  induction fields generalizing offset with
  | nil => simp [place]
  | cons t ts ih =>
    have hstart := le_alignUp t.align_pos offset
    have htail := ih (alignUp t.align offset + t.size)
    simp only [List.map_cons, List.sum_cons, place]
    omega

def maxAlign (first : CType) (rest : List CType) : ℕ :=
  rest.foldr (fun t a => max t.align a) first.align

theorem maxAlign_pos (first : CType) (rest : List CType) : 0 < maxAlign first rest := by
  induction rest with
  | nil => exact first.align_pos
  | cons t ts ih => exact Nat.lt_of_lt_of_le ih (Nat.le_max_right _ _)

def struct (first : CType) (rest : List CType) : CType where
  size := alignUp (maxAlign first rest) (place 0 (first :: rest))
  align := maxAlign first rest
  size_pos := by
    have hpad := le_alignUp (maxAlign_pos first rest) (place 0 (first :: rest))
    have hfields := add_sum_le_place 0 (first :: rest)
    have hfirst := first.size_pos
    simp only [List.map_cons, List.sum_cons] at hfields
    omega
  align_pos := maxAlign_pos first rest

theorem sum_le_size_struct (first : CType) (rest : List CType) :
    first.size + (rest.map CType.size).sum ≤ (struct first rest).size := by
  have hpad := le_alignUp (maxAlign_pos first rest) (place 0 (first :: rest))
  have hfields := add_sum_le_place 0 (first :: rest)
  simp only [List.map_cons, List.sum_cons] at hfields
  simp only [struct]
  omega

/-- `p + n` for a pointer `p` to values of type `t`: the integer counts values, not bytes. -/
def CType.add (t : CType) (p n : ℕ) : ℕ := p + n * t.size

/-- A stretch of memory. -/
structure Region where
  start : ℕ
  length : ℕ
  deriving DecidableEq

def Region.bytes (r : Region) : Finset ℕ := Finset.Ico r.start (r.start + r.length)

def CType.array (t : CType) (p n : ℕ) : Region := ⟨p, n * t.size⟩

@[simp] theorem Region.mem_bytes {r : Region} {b : ℕ} :
    b ∈ r.bytes ↔ r.start ≤ b ∧ b < r.start + r.length := Finset.mem_Ico

theorem Region.not_bytes_subset {r r' : Region} (hlen : 0 < r.length)
    (hend : r'.start + r'.length < r.start + r.length) : ¬r.bytes ⊆ r'.bytes := by
  intro hsub
  have hlast : r.start + r.length - 1 ∈ r.bytes := by
    rw [mem_bytes]
    omega
  have hin := mem_bytes.mp (hsub hlast)
  omega

end CLayout
