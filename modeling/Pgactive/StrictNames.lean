import Pgactive.Names

/-!
# What is accepted as a name

The parsers accept whatever `sscanf` assigns four numbers for. A number may have white space, a sign
or zeros in front of it or be too large, and it does not matter what comes after the numbers, unless
it is a replication name. Formatting the result then gives another string.
-/

namespace Pgactive.Names

open Scanf Pgactive.Stream

/-! ### Four numbers -/

/-- Four numbers between underscores. -/
def stem (a b c d : List Char) : List Char :=
  "pgactive_".toList ++ (a ++ ("_".toList ++ (b ++ ("_".toList ++ (c ++ ("_".toList ++ d))))))

def fourNumbers (a b c d : ℕ) (underscores : String) : List Directive :=
  text "pgactive_" ++ (.unsigned a :: (text "_" ++ (.unsigned b :: (text "_" ++ (.unsigned c ::
    (text "_" ++ (.unsigned d :: (text underscores ++ [.str]))))))))

/-- The string has four numbers in any notation, and no replication name. -/
structure Loose (underscores : String) (s a b c d tail : List Char) : Prop where
  split : s = stem a b c d ++ tail
  first : IsNumeral a
  second : IsNumeral b
  third : IsNumeral c
  fourth : IsNumeral d
  tail_head : ∀ x ∈ tail.head?, x.isDigit = false
  no_name : ∀ name, tail = underscores.toList ++ name → ∀ x ∈ name, isspace x = true

variable {tail : List Char}

theorem sscanf_name_eq_nil_iff {underscores : String} :
    sscanf (text underscores ++ [.str]) tail = [] ↔
      ∀ name, tail = underscores.toList ++ name → ∀ x ∈ name, isspace x = true := by
  constructor
  · rintro h name rfl
    rw [sscanf_text] at h
    exact sscanf_str_eq_nil_iff.mp h
  · intro h
    cases hscan : sscanf (text underscores ++ [.str]) tail with
    | nil => rfl
    | cons item items =>
      obtain ⟨name, hsplit, hname⟩ := exists_of_sscanf_text hscan
      rw [sscanf_str_eq_nil_iff.mpr (h name hsplit)] at hname
      cases hname

variable {widthA widthB widthC widthD : ℕ} {underscores : String}

variable {s : List Char}

theorem Loose.exists_sscanf {a b c d : List Char} (h : Loose underscores s a b c d tail) :
    ∃ na < 2 ^ widthA, ∃ nb < 2 ^ widthB, ∃ nc < 2 ^ widthC, ∃ nd < 2 ^ widthD,
      sscanf (fourNumbers widthA widthB widthC widthD underscores) s =
        [.num na, .num nb, .num nc, .num nd] := by
  obtain ⟨nd, hnd, hd⟩ := exists_scanUnsigned widthD h.fourth h.tail_head
  obtain ⟨nc, hnc, hc⟩ := exists_scanUnsigned widthC h.third
    (isDigit_head_underscore (d ++ tail))
  obtain ⟨nb, hnb, hb⟩ := exists_scanUnsigned widthB h.second
    (isDigit_head_underscore (c ++ ("_".toList ++ (d ++ tail))))
  obtain ⟨na, hna, ha⟩ := exists_scanUnsigned widthA h.first
    (isDigit_head_underscore (b ++ ("_".toList ++ (c ++ ("_".toList ++ (d ++ tail))))))
  refine ⟨na, hna, nb, hnb, nc, hnc, nd, hnd, ?_⟩
  rw [h.split]
  unfold stem fourNumbers
  simp only [List.append_assoc]
  rw [sscanf_text, sscanf_unsigned ha, sscanf_text, sscanf_unsigned hb, sscanf_text,
    sscanf_unsigned hc, sscanf_text, sscanf_unsigned hd, sscanf_name_eq_nil_iff.mpr h.no_name]

variable {na nb nc nd : ℕ}

theorem exists_loose (hA : widthA ≤ 64) (hB : widthB ≤ 64) (hC : widthC ≤ 64) (hD : widthD ≤ 64)
    (h : sscanf (fourNumbers widthA widthB widthC widthD underscores) s =
      [.num na, .num nb, .num nc, .num nd]) :
    ∃ a b c d tail, Loose underscores s a b c d tail ∧
      (Canonical widthA a → a = Nat.toDigits 10 na) ∧
      (Canonical widthB b → b = Nat.toDigits 10 nb) ∧
      (Canonical widthC c → c = Nat.toDigits 10 nc) ∧
      (Canonical widthD d → d = Nat.toDigits 10 nd) := by
  obtain ⟨s₀, rfl, h⟩ := exists_of_sscanf_text h
  obtain ⟨a, s₁, ha, rfl, hs₁, hna, h⟩ := exists_of_sscanf_unsigned h
  obtain ⟨s₂, rfl, h⟩ := exists_of_sscanf_text h
  obtain ⟨b, s₃, hb, rfl, hs₃, hnb, h⟩ := exists_of_sscanf_unsigned h
  obtain ⟨s₄, rfl, h⟩ := exists_of_sscanf_text h
  obtain ⟨c, s₅, hc, rfl, hs₅, hnc, h⟩ := exists_of_sscanf_unsigned h
  obtain ⟨s₆, rfl, h⟩ := exists_of_sscanf_text h
  obtain ⟨d, tail, hd, rfl, htail, hnd, h⟩ := exists_of_sscanf_unsigned h
  have hsplit : "pgactive_".toList ++ (a ++ ("_".toList ++ (b ++ ("_".toList ++ (c ++
      ("_".toList ++ (d ++ tail))))))) = stem a b c d ++ tail := by
    unfold stem
    simp only [List.append_assoc]
  refine ⟨a, b, c, d, tail, ⟨hsplit, ha, hb, hc, hd, htail, sscanf_name_eq_nil_iff.mp h⟩,
    ?_, ?_, ?_, ?_⟩
  · exact fun hcanonical => hcanonical.eq_toDigits hA hs₁ hna
  · exact fun hcanonical => hcanonical.eq_toDigits hB hs₃ hnb
  · exact fun hcanonical => hcanonical.eq_toDigits hC hs₅ hnc
  · exact fun hcanonical => hcanonical.eq_toDigits hD htail hnd

theorem Loose.eq_toDigits (hA : widthA ≤ 64) (hB : widthB ≤ 64) (hC : widthC ≤ 64)
    (hD : widthD ≤ 64) {a b c d ending : List Char} (h : Loose underscores s a b c d tail)
    (hna : na < 2 ^ widthA) (hnb : nb < 2 ^ widthB) (hnc : nc < 2 ^ widthC)
    (hnd : nd < 2 ^ widthD) (hending : ∀ x ∈ ending.head?, x.isDigit = false)
    (hs : stem (Nat.toDigits 10 na) (Nat.toDigits 10 nb) (Nat.toDigits 10 nc)
      (Nat.toDigits 10 nd) ++ ending = s) :
    a = Nat.toDigits 10 na ∧ b = Nat.toDigits 10 nb ∧ c = Nat.toDigits 10 nc ∧
      d = Nat.toDigits 10 nd ∧ tail = ending := by
  have heq := h.split.symm.trans hs.symm
  unfold stem at heq
  simp only [List.append_assoc] at heq
  obtain ⟨ha, hafter⟩ := numeral_eq_toDigits hA hna h.first (isDigit_head_underscore _)
    (isDigit_head_underscore _) (List.append_cancel_left heq)
  obtain ⟨hb, hafter⟩ := numeral_eq_toDigits hB hnb h.second (isDigit_head_underscore _)
    (isDigit_head_underscore _) (List.append_cancel_left hafter)
  obtain ⟨hc, hafter⟩ := numeral_eq_toDigits hC hnc h.third (isDigit_head_underscore _)
    (isDigit_head_underscore _) (List.append_cancel_left hafter)
  obtain ⟨hd, htail⟩ := numeral_eq_toDigits hD hnd h.fourth h.tail_head hending
    (List.append_cancel_left hafter)
  exact ⟨ha, hb, hc, hd, htail⟩

theorem sscanf_strict_iff (hA : widthA ≤ 64) (hB : widthB ≤ 64) (hC : widthC ≤ 64)
    (hD : widthD ≤ 64) {ending : List Char → List Char}
    (hending : ∀ stem, ∀ x ∈ (ending stem).head?, x.isDigit = false) (s : List Char) :
    (∀ na nb nc nd, sscanf (fourNumbers widthA widthB widthC widthD underscores) s =
        [.num na, .num nb, .num nc, .num nd] →
      stem (Nat.toDigits 10 na) (Nat.toDigits 10 nb) (Nat.toDigits 10 nc) (Nat.toDigits 10 nd) ++
        ending (stem (Nat.toDigits 10 na) (Nat.toDigits 10 nb) (Nat.toDigits 10 nc)
          (Nat.toDigits 10 nd)) = s) ↔
      ∀ a b c d tail, Loose underscores s a b c d tail →
        Canonical widthA a ∧ Canonical widthB b ∧ Canonical widthC c ∧ Canonical widthD d ∧
          tail = ending (stem a b c d) := by
  constructor
  · intro hstrict a b c d tail hloose
    obtain ⟨na, hna, nb, hnb, nc, hnc, nd, hnd, hscan⟩ := hloose.exists_sscanf
    obtain ⟨rfl, rfl, rfl, rfl, htail⟩ := hloose.eq_toDigits hA hB hC hD hna hnb hnc hnd
      (hending _) (hstrict na nb nc nd hscan)
    exact ⟨⟨na, hna, rfl⟩, ⟨nb, hnb, rfl⟩, ⟨nc, hnc, rfl⟩, ⟨nd, hnd, rfl⟩, htail⟩
  · intro hcanonical na nb nc nd hscan
    obtain ⟨a, b, c, d, tail, hloose, ha, hb, hc, hd⟩ := exists_loose hA hB hC hD hscan
    obtain ⟨hca, hcb, hcc, hcd, htail⟩ := hcanonical a b c d tail hloose
    rw [← ha hca, ← hb hcb, ← hc hcc, ← hd hcd, ← htail]
    exact hloose.split.symm

/-! ### The two parsers -/

/-- What stands behind the numbers of a slot name: as much of two underscores as fits. -/
def slotEnding (stem : List Char) : List Char := ['_', '_'].take (63 - stem.length)

theorem head?_slotEnding (stem : List Char) :
    ∀ x ∈ (slotEnding stem).head?, x.isDigit = false := by
  intro x hx
  have hmem : x ∈ ['_', '_'] := List.mem_of_mem_take (List.mem_of_mem_head? hx)
  simp only [List.mem_cons, List.not_mem_nil, or_false, or_self] at hmem
  rw [hmem]
  rfl

theorem slotName_eq_stem (remote : NodeId) (localDboid : UInt32) :
    (slotName remote localDboid).chars =
      stem (Nat.toDigits 10 localDboid.toNat) (Nat.toDigits 10 remote.sysid.toNat)
          (Nat.toDigits 10 remote.timeline.toNat) (Nat.toDigits 10 remote.dboid.toNat) ++
        slotEnding (stem (Nat.toDigits 10 localDboid.toNat) (Nat.toDigits 10 remote.sysid.toNat)
          (Nat.toDigits 10 remote.timeline.toNat) (Nat.toDigits 10 remote.dboid.toNat)) :=
  slotName_chars_eq remote localDboid

theorem replidentName_eq_stem (remote : NodeId) (localDboid : UInt32) :
    replidentName remote localDboid =
      stem (Nat.toDigits 10 remote.sysid.toNat) (Nat.toDigits 10 remote.timeline.toNat)
        (Nat.toDigits 10 remote.dboid.toNat) (Nat.toDigits 10 localDboid.toNat) ++ ['_'] := by
  unfold replidentName reporiginIdFormat stem
  simp only [printf_text, printf_unsigned, List.append_assoc]
  rfl

theorem lt_of_sscanf_fourNumbers
    (h : sscanf (fourNumbers widthA widthB widthC widthD underscores) s =
      [.num na, .num nb, .num nc, .num nd]) :
    na < 2 ^ widthA ∧ nb < 2 ^ widthB ∧ nc < 2 ^ widthC ∧ nd < 2 ^ widthD := by
  obtain ⟨s₀, -, h⟩ := exists_of_sscanf_text h
  obtain ⟨-, s₁, -, -, -, hna, h⟩ := exists_of_sscanf_unsigned h
  obtain ⟨s₂, -, h⟩ := exists_of_sscanf_text h
  obtain ⟨-, s₃, -, -, -, hnb, h⟩ := exists_of_sscanf_unsigned h
  obtain ⟨s₄, -, h⟩ := exists_of_sscanf_text h
  obtain ⟨-, s₅, -, -, -, hnc, h⟩ := exists_of_sscanf_unsigned h
  obtain ⟨s₆, -, h⟩ := exists_of_sscanf_text h
  obtain ⟨-, tail, -, -, -, hnd, -⟩ := exists_of_sscanf_unsigned h
  exact ⟨scanUnsigned_lt hna, scanUnsigned_lt hnb, scanUnsigned_lt hnc, scanUnsigned_lt hnd⟩

theorem parseSlotName_eq_ok {remote : NodeId} {localDboid : UInt32} :
    parseSlotName s = .ok (remote, localDboid) ↔
      sscanf (fourNumbers 32 64 32 32 "__") s =
        [.num localDboid.toNat, .num remote.sysid.toNat, .num remote.timeline.toNat,
          .num remote.dboid.toNat] := by
  have hformat : slotNameFormat = fourNumbers 32 64 32 32 "__" := rfl
  rw [parseSlotName, hformat]
  constructor
  · intro h
    split at h
    · next na nb nc nd hscan =>
      obtain ⟨hna, hnb, hnc, hnd⟩ := lt_of_sscanf_fourNumbers hscan
      cases h
      rw [UInt32.toNat_ofNat_of_lt' hna, UInt64.toNat_ofNat_of_lt' hnb,
        UInt32.toNat_ofNat_of_lt' hnc, UInt32.toNat_ofNat_of_lt' hnd]
      exact hscan
    · cases h
  · intro h
    rw [h]
    simp only [UInt32.ofNat_toNat, UInt64.ofNat_toNat]

theorem parseReplidentName_eq_ok {remote : NodeId} {localDboid : UInt32} :
    parseReplidentName s = .ok (remote, localDboid) ↔
      sscanf (fourNumbers 64 32 32 32 "_") s =
        [.num remote.sysid.toNat, .num remote.timeline.toNat, .num remote.dboid.toNat,
          .num localDboid.toNat] := by
  have hformat : reporiginIdFormat = fourNumbers 64 32 32 32 "_" := rfl
  rw [parseReplidentName, hformat]
  constructor
  · intro h
    split at h
    · next na nb nc nd hscan =>
      obtain ⟨hna, hnb, hnc, hnd⟩ := lt_of_sscanf_fourNumbers hscan
      cases h
      rw [UInt64.toNat_ofNat_of_lt' hna, UInt32.toNat_ofNat_of_lt' hnb,
        UInt32.toNat_ofNat_of_lt' hnc, UInt32.toNat_ofNat_of_lt' hnd]
      exact hscan
    · cases h
  · intro h
    rw [h]
    simp only [UInt32.ofNat_toNat, UInt64.ofNat_toNat]

/-- A string is a name of the components that are parsed from it exactly if its numbers, in
whatever notation they are, are the digits that would be printed, and nothing else comes after
them than what would be printed. -/
theorem parseNames_strict_iff (s : List Char) :
    ((∀ remote localDboid, parseSlotName s = .ok (remote, localDboid) →
        (slotName remote localDboid).chars = s) ↔
      ∀ a b c d tail, Loose "__" s a b c d tail →
        Canonical 32 a ∧ Canonical 64 b ∧ Canonical 32 c ∧ Canonical 32 d ∧
          tail = slotEnding (stem a b c d)) ∧
    ((∀ remote localDboid, parseReplidentName s = .ok (remote, localDboid) →
        replidentName remote localDboid = s) ↔
      ∀ a b c d tail, Loose "_" s a b c d tail →
        Canonical 64 a ∧ Canonical 32 b ∧ Canonical 32 c ∧ Canonical 32 d ∧ tail = ['_']) := by
  have horigin : ∀ stem : List Char, ∀ x ∈ ['_'].head?, x.isDigit = false := by
    intro stem x hx
    cases hx
    rfl
  rw [← sscanf_strict_iff (by decide) (by decide) (by decide) (by decide) head?_slotEnding,
    ← sscanf_strict_iff (by decide) (by decide) (by decide) (by decide) horigin]
  simp only [parseSlotName_eq_ok, slotName_eq_stem, parseReplidentName_eq_ok,
    replidentName_eq_stem]
  refine ⟨⟨fun h na nb nc nd hscan => ?_, fun h remote localDboid => h _ _ _ _⟩,
    ⟨fun h na nb nc nd hscan => ?_, fun h remote localDboid => h _ _ _ _⟩⟩
  · obtain ⟨hna, hnb, hnc, hnd⟩ := lt_of_sscanf_fourNumbers hscan
    have hname := h ⟨.ofNat nb, .ofNat nc, .ofNat nd⟩ (.ofNat na)
    rw [UInt32.toNat_ofNat_of_lt' hna, UInt64.toNat_ofNat_of_lt' hnb, UInt32.toNat_ofNat_of_lt' hnc,
      UInt32.toNat_ofNat_of_lt' hnd] at hname
    exact hname hscan
  · obtain ⟨hna, hnb, hnc, hnd⟩ := lt_of_sscanf_fourNumbers hscan
    have hname := h ⟨.ofNat na, .ofNat nb, .ofNat nc⟩ (.ofNat nd)
    rw [UInt64.toNat_ofNat_of_lt' hna, UInt32.toNat_ofNat_of_lt' hnb, UInt32.toNat_ofNat_of_lt' hnc,
      UInt32.toNat_ofNat_of_lt' hnd] at hname
    exact hname hscan

/-- Blanks, signs, zeros, numbers that are too large and text at the end are all accepted. -/
theorem parseNames_loose :
    parseSlotName "pgactive_ 1_+2_03_4294967301xyz".toList = .ok (⟨2, 3, 5⟩, 1) ∧
      (slotName ⟨2, 3, 5⟩ 1).chars ≠ "pgactive_ 1_+2_03_4294967301xyz".toList ∧
      parseReplidentName "pgactive_-1_2_3_4".toList =
        .ok (⟨18446744073709551615, 2, 3⟩, 4) ∧
      replidentName ⟨18446744073709551615, 2, 3⟩ 4 ≠ "pgactive_-1_2_3_4".toList := by
  refine ⟨?_, ?_, ?_, ?_⟩
  all_goals decide +kernel

end Pgactive.Names
