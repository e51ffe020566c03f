import Mathlib.Data.List.TakeWhile
import Mathlib.Algebra.Group.Nat.Defs

/-!
# Formatted output and input

`printf` and `sscanf` for literal characters, unsigned decimal numbers and strings. Numbers and
strings may have white space in front of them, a number may have a sign, one that does not fit is
clamped and cut to its width, and the first item that does not match ends the scan.
-/

namespace Scanf

/-- An element of a format. -/
inductive Directive
  | lit (c : Char)
  /-- An unsigned number of the given width, in decimal. -/
  | unsigned (bits : ℕ)
  /-- `%s`. -/
  | str
deriving DecidableEq

/-- A value that is printed or read. -/
inductive Item
  | num (n : ℕ)
  | str (s : List Char)
deriving DecidableEq

/-- The literal characters of a format. -/
def text (s : String) : List Directive := s.toList.map .lit

def printf : List Directive → List Item → List Char
  | .lit c :: fmt, args => c :: printf fmt args
  | .unsigned _ :: fmt, .num n :: args => Nat.toDigits 10 n ++ printf fmt args
  | .str :: fmt, .str s :: args => s ++ printf fmt args
  | _, _ => []

def snprintf (size : ℕ) (fmt : List Directive) (args : List Item) : List Char :=
  (printf fmt args).take (size - 1)

def isspace (c : Char) : Bool := [' ', '\t', '\n', '\x0b', '\x0c', '\r'].contains c

def unsignedOf (bits : ℕ) (negative : Bool) (v : ℕ) : ℕ :=
  (if 2 ^ 64 ≤ v then 2 ^ 64 - 1 else if negative then 2 ^ 64 - v else v) % 2 ^ bits

def scanSign : List Char → Bool × List Char
  | '-' :: input => (true, input)
  | '+' :: input => (false, input)
  | input => (false, input)

def scanUnsigned (bits : ℕ) (input : List Char) : Option (ℕ × List Char) :=
  let (negative, input) := scanSign (input.dropWhile isspace)
  match input.takeWhile Char.isDigit with
  | [] => none
  | digits =>
    some (unsignedOf bits negative (Nat.ofDigitChars 10 digits 0), input.dropWhile Char.isDigit)

def scanStr (input : List Char) : Option (List Char × List Char) :=
  let input := input.dropWhile isspace
  match input.takeWhile (!isspace ·) with
  | [] => none
  | s => some (s, input.dropWhile (!isspace ·))

def sscanf : List Directive → List Char → List Item
  | [], _ => []
  | .lit _ :: _, [] => []
  | .lit c :: fmt, d :: input => if d = c then sscanf fmt input else []
  | .unsigned bits :: fmt, input =>
    match scanUnsigned bits input with
    | some (n, input) => .num n :: sscanf fmt input
    | none => []
  | .str :: fmt, input =>
    match scanStr input with
    | some (s, input) => .str s :: sscanf fmt input
    | none => []

/-! ### Literal text -/

theorem printf_text (s : String) (fmt : List Directive) (args : List Item) :
    printf (text s ++ fmt) args = s.toList ++ printf fmt args := by
  unfold text
  induction s.toList with
  | nil => rfl
  | cons c cs ih => simp [printf, ih]

theorem sscanf_text (s : String) (fmt : List Directive) (input : List Char) :
    sscanf (text s ++ fmt) (s.toList ++ input) = sscanf fmt input := by
  unfold text
  induction s.toList with
  | nil => rfl
  | cons c cs ih => simp [sscanf, ih]

/-! ### Numbers -/

theorem printf_unsigned (bits n : ℕ) (fmt : List Directive) (args : List Item) :
    printf (.unsigned bits :: fmt) (.num n :: args) = Nat.toDigits 10 n ++ printf fmt args := rfl

variable {n : ℕ} {c : Char}

theorem isDigit_of_mem_toDigits (h : c ∈ Nat.toDigits 10 n) : c.isDigit = true :=
  Nat.isDigit_of_mem_toDigits (by decide) (Nat.le_refl 10) h

variable {rest : List Char}

theorem span_append {p : Char → Bool} {part : List Char} (hpart : ∀ c ∈ part, p c = true)
    (hrest : ∀ c ∈ rest.head?, p c = false) :
    (part ++ rest).takeWhile p = part ∧ (part ++ rest).dropWhile p = rest := by
  rw [List.takeWhile_append_of_pos hpart, List.dropWhile_append_of_pos hpart]
  cases rest with
  | nil => simp
  | cons c rest =>
    have hc : ¬p c = true := by simp [hrest c rfl]
    rw [List.takeWhile_cons_of_neg hc, List.dropWhile_cons_of_neg hc, List.append_nil]
    exact ⟨rfl, rfl⟩

theorem isspace_of_isDigit (h : c.isDigit = true) : isspace c = false := by
  by_contra hc
  simp only [isspace, Bool.not_eq_false, List.contains_iff_mem, List.mem_cons,
    List.not_mem_nil, or_false] at hc
  obtain rfl | rfl | rfl | rfl | rfl | rfl := hc <;> simp at h

theorem scanSign_cons_of_isDigit (h : c.isDigit = true) (input : List Char) :
    scanSign (c :: input) = (false, c :: input) := by
  unfold scanSign
  split
  · next heq =>
    cases heq
    simp at h
  · next heq =>
    cases heq
    simp at h
  · rfl

theorem scanSign_of_isDigit (h : c.isDigit = true) (input : List Char) :
    scanSign ((c :: input).dropWhile isspace) = (false, c :: input) := by
  rw [List.dropWhile_cons_of_neg (by simp [isspace_of_isDigit h])]
  exact scanSign_cons_of_isDigit h input

variable {bits : ℕ}

theorem unsignedOf_of_lt (hbits : bits ≤ 64) (hn : n < 2 ^ bits) : unsignedOf bits false n = n := by
  have hle : 2 ^ bits ≤ 2 ^ 64 := Nat.pow_le_pow_right (by decide) hbits
  have hnot : ¬2 ^ 64 ≤ n := Nat.not_le.mpr (Nat.lt_of_lt_of_le hn hle)
  rw [unsignedOf, if_neg hnot, if_neg Bool.false_ne_true, Nat.mod_eq_of_lt hn]

variable {input : List Char}

theorem scanUnsigned_toDigits (hbits : bits ≤ 64) (hn : n < 2 ^ bits)
    (hinput : ∀ c ∈ input.head?, c.isDigit = false) :
    scanUnsigned bits (Nat.toDigits 10 n ++ input) = some (n, input) := by
  have hdigits : ∀ c ∈ Nat.toDigits 10 n, c.isDigit = true := fun c => isDigit_of_mem_toDigits
  obtain ⟨htake, hdrop⟩ := span_append hdigits hinput
  have hvalue : Nat.ofDigitChars 10 (Nat.toDigits 10 n) 0 = n := Nat.ofDigitChars_ten_toDigits
  cases hn' : Nat.toDigits 10 n with
  | nil => exact absurd hn' Nat.toDigits_ne_nil
  | cons c digits =>
    rw [hn'] at hdigits hvalue htake hdrop
    have hsign := scanSign_of_isDigit (hdigits c List.mem_cons_self) (digits ++ input)
    rw [List.cons_append] at htake hdrop ⊢
    simp only [scanUnsigned, hsign, htake, hdrop, hvalue, unsignedOf_of_lt hbits hn]

theorem sscanf_toDigits (hbits : bits ≤ 64) (hn : n < 2 ^ bits)
    (hinput : ∀ c ∈ input.head?, c.isDigit = false) (fmt : List Directive) :
    sscanf (.unsigned bits :: fmt) (Nat.toDigits 10 n ++ input) = .num n :: sscanf fmt input := by
  rw [sscanf, scanUnsigned_toDigits hbits hn hinput]

/-! ### What is read as a number -/

def IsNumeral (numeral : List Char) : Prop :=
  ∃ blanks sign digits, numeral = blanks ++ (sign ++ digits) ∧ (∀ c ∈ blanks, isspace c = true) ∧
    (sign = [] ∨ sign = ['-'] ∨ sign = ['+']) ∧ digits ≠ [] ∧ ∀ c ∈ digits, c.isDigit = true

theorem exists_sign (input : List Char) :
    ∃ sign, (sign = [] ∨ sign = ['-'] ∨ sign = ['+']) ∧ input = sign ++ (scanSign input).2 := by
  unfold scanSign
  split
  · exact ⟨['-'], .inr (.inl rfl), rfl⟩
  · exact ⟨['+'], .inr (.inr rfl), rfl⟩
  · exact ⟨[], .inl rfl, rfl⟩

theorem exists_numeral (h : scanUnsigned bits input = some (n, rest)) :
    ∃ numeral, IsNumeral numeral ∧ input = numeral ++ rest ∧
      ∀ c ∈ rest.head?, c.isDigit = false := by
  obtain ⟨sign, hsign, hsplit⟩ := exists_sign (input.dropWhile isspace)
  unfold scanUnsigned at h
  dsimp only at h
  generalize (scanSign (input.dropWhile isspace)).2 = number at h hsplit
  split at h
  · cases h
  · next hdigits =>
    obtain rfl : number.dropWhile Char.isDigit = rest := congrArg Prod.snd (Option.some.inj h)
    refine ⟨input.takeWhile isspace ++ (sign ++ number.takeWhile Char.isDigit),
      ⟨_, _, _, rfl, fun c hc => List.mem_takeWhile_imp hc, hsign, hdigits,
        fun c hc => List.mem_takeWhile_imp hc⟩, ?_, ?_⟩
    · rw [List.append_assoc, List.append_assoc, List.takeWhile_append_dropWhile, ← hsplit,
        List.takeWhile_append_dropWhile]
    · intro c hc
      have hnot := List.head?_dropWhile_not Char.isDigit number
      rw [Option.mem_def.mp hc] at hnot
      simpa using hnot

theorem unsignedOf_lt (bits : ℕ) (negative : Bool) (v : ℕ) :
    unsignedOf bits negative v < 2 ^ bits :=
  Nat.mod_lt _ (Nat.two_pow_pos bits)

variable {numeral : List Char}

theorem exists_scanUnsigned (bits : ℕ) (h : IsNumeral numeral)
    (hrest : ∀ c ∈ rest.head?, c.isDigit = false) :
    ∃ n < 2 ^ bits, scanUnsigned bits (numeral ++ rest) = some (n, rest) := by
  obtain ⟨blanks, sign, digits, rfl, hblanks, hsign, hne, hdigits⟩ := h
  obtain ⟨htake, hdrop⟩ := span_append hdigits hrest
  obtain ⟨d, ds, rfl⟩ := List.exists_cons_of_ne_nil hne
  have hd := hdigits d List.mem_cons_self
  have hstop : ∀ c ∈ (sign ++ (d :: ds ++ rest)).head?, isspace c = false := by
    intro c hc
    obtain rfl | rfl | rfl := hsign
    · cases hc
      exact isspace_of_isDigit hd
    · cases hc
      decide
    · cases hc
      decide
  have hscanSign : ∃ negative,
      scanSign (sign ++ (d :: ds ++ rest)) = (negative, d :: ds ++ rest) := by
    obtain rfl | rfl | rfl := hsign
    · exact ⟨false, scanSign_cons_of_isDigit hd _⟩
    · exact ⟨true, rfl⟩
    · exact ⟨false, rfl⟩
  obtain ⟨negative, hnegative⟩ := hscanSign
  refine ⟨unsignedOf bits negative (Nat.ofDigitChars 10 (d :: ds) 0), unsignedOf_lt _ _ _, ?_⟩
  rw [scanUnsigned, List.append_assoc, List.append_assoc, (span_append hblanks hstop).2, hnegative]
  dsimp only
  rw [htake, hdrop]

theorem numeral_eq_toDigits (hbits : bits ≤ 64) (hn : n < 2 ^ bits) {rest' : List Char}
    (hnumeral : IsNumeral numeral) (hrest : ∀ c ∈ rest.head?, c.isDigit = false)
    (hrest' : ∀ c ∈ rest'.head?, c.isDigit = false)
    (h : numeral ++ rest = Nat.toDigits 10 n ++ rest') :
    numeral = Nat.toDigits 10 n ∧ rest = rest' := by
  obtain ⟨n', -, hscan⟩ := exists_scanUnsigned bits hnumeral hrest
  rw [h, scanUnsigned_toDigits hbits hn hrest'] at hscan
  cases hscan
  exact ⟨List.append_cancel_right h, rfl⟩

/-- The decimal digits of a number of this width, without anything else. -/
def Canonical (bits : ℕ) (numeral : List Char) : Prop :=
  ∃ n < 2 ^ bits, numeral = Nat.toDigits 10 n

/-! ### Scanning a format -/

theorem exists_of_sscanf_text {s : String} {fmt : List Directive} {item : Item}
    {items : List Item} (h : sscanf (text s ++ fmt) input = item :: items) :
    ∃ rest, input = s.toList ++ rest ∧ sscanf fmt rest = item :: items := by
  unfold text at h
  generalize s.toList = cs at h ⊢
  induction cs generalizing input with
  | nil => exact ⟨input, rfl, h⟩
  | cons c cs ih =>
    cases input with
    | nil => cases h
    | cons d input =>
      rw [List.map_cons, List.cons_append, sscanf] at h
      split_ifs at h with hd
      obtain ⟨rest, rfl, hrest⟩ := ih h
      exact ⟨rest, by rw [hd]; rfl, hrest⟩

theorem exists_of_sscanf_unsigned {fmt : List Directive} {items : List Item}
    (h : sscanf (.unsigned bits :: fmt) input = .num n :: items) :
    ∃ numeral rest, IsNumeral numeral ∧ input = numeral ++ rest ∧
      (∀ c ∈ rest.head?, c.isDigit = false) ∧ scanUnsigned bits input = some (n, rest) ∧
      sscanf fmt rest = items := by
  rw [sscanf] at h
  cases hscan : scanUnsigned bits input with
  | none =>
    rw [hscan] at h
    cases h
  | some found =>
    obtain ⟨n', rest⟩ := found
    rw [hscan] at h
    cases h
    obtain ⟨numeral, hnumeral, hsplit, hrest⟩ := exists_numeral hscan
    exact ⟨numeral, rest, hnumeral, hsplit, hrest, rfl, rfl⟩

theorem scanUnsigned_lt (h : scanUnsigned bits input = some (n, rest)) : n < 2 ^ bits := by
  obtain ⟨numeral, hnumeral, rfl, hrest⟩ := exists_numeral h
  obtain ⟨n', hn', hscan⟩ := exists_scanUnsigned bits hnumeral hrest
  rw [h] at hscan
  cases hscan
  exact hn'

theorem sscanf_unsigned (h : scanUnsigned bits input = some (n, rest)) (fmt : List Directive) :
    sscanf (.unsigned bits :: fmt) input = .num n :: sscanf fmt rest := by
  rw [sscanf, h]

theorem Canonical.eq_toDigits (hbits : bits ≤ 64) (hcanonical : Canonical bits numeral)
    (hrest : ∀ c ∈ rest.head?, c.isDigit = false)
    (h : scanUnsigned bits (numeral ++ rest) = some (n, rest)) : numeral = Nat.toDigits 10 n := by
  obtain ⟨n', hn', rfl⟩ := hcanonical
  rw [scanUnsigned_toDigits hbits hn' hrest] at h
  cases h
  rfl

theorem sscanf_str_eq_nil_iff : sscanf [.str] input = [] ↔ ∀ c ∈ input, isspace c = true := by
  rw [sscanf, scanStr, ← List.dropWhile_eq_nil_iff]
  cases hdrop : input.dropWhile isspace with
  | nil => simp
  | cons c rest =>
    have hc := List.head?_dropWhile_not isspace input
    rw [hdrop] at hc
    simp only [List.head?_cons] at hc
    rw [List.takeWhile_cons_of_pos (by simpa using hc)]
    simp

theorem length_toDigits_le {k : ℕ} (hk : 0 < k) (hn : n < 10 ^ k) :
    (Nat.toDigits 10 n).length ≤ k :=
  (Nat.length_toDigits_le_iff (by decide) hk).mpr hn

end Scanf
