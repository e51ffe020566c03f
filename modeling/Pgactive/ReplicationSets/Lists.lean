import Pgactive.ArrayLiteral
import Pgactive.Identifiers
import Pgactive.Labels.Relation

/-!
# Lists of replication sets as text

`pgactive_init_copy` checks the names on its command line and puts them between braces and commas,
and a node does the same with quoted identifiers. The check accepts names that are too long by one
for the server, and `null` without quotes is not read as a name.
-/

namespace Pgactive.ReplicationSets

open ArrayLiteral CString FallibleState Identifiers Labels Names
open Scanf (isspace)

/-! ### The encodings -/

def setNames (text : List Char) : List (List Char) := strtok [' ', ','] text

/-- The checks in the loop of `validate_replication_set_input`. -/
def validateInputName (name : List Char) : Except SetNameError Unit :=
  if name.length = 0 then .error (.tooShort name)
  else if nameDataLen < name.length then .error (.tooLong name)
  else if ¬name.all validChar then .error (.invalidCharacter name)
  else .ok ()

/-- The body of this loop, with `retbuf` and `first`. -/
def appendInputName (buf : List Char × Bool) (name : List Char) :
    Except SetNameError (List Char × Bool) := do
  validateInputName name
  return (if buf.2 then buf.1 ++ name else buf.1 ++ ([',', ' '] ++ name), false)

def validateReplicationSetInput : Option (List Char) → Except SetNameError (Option (List Char))
  | none => .ok none
  | some text =>
    (fun buf => some buf.1) <$> (setNames text).foldlM appendInputName ([], true)

def textarrToIdentliststr (q : Quoting) : List (List Char) → List Char
  | [] => []
  | elem :: elems =>
    q.quoteIdentifier elem ++ elems.flatMap fun elem => ',' :: q.quoteIdentifier elem

/-! ### What is accepted -/

def nullWord : List Char := ['n', 'u', 'l', 'l']

variable {name : List Char}

theorem checks_eq_ok_iff {tooLong : Prop} [Decidable tooLong] {e₁ e₂ e₃ : SetNameError}
    (hne : name ≠ []) :
    (if name.length = 0 then .error e₁ else if tooLong then .error e₂
        else if ¬name.all validChar then .error e₃ else .ok () : Except SetNameError Unit) =
      .ok () ↔ ¬tooLong ∧ name.all validChar = true := by
  rw [if_neg fun h => hne (List.length_eq_zero_iff.mp h)]
  split_ifs with hlong hchars
  · simp [hlong]
  · exact iff_of_true rfl ⟨hlong, hchars⟩
  · exact iff_of_false (by simp) fun h => hchars h.2

theorem validateReplicationSetName_iff (hne : name ≠ []) :
    validateReplicationSetName name true = .ok () ↔
      name.length < nameDataLen ∧ name.all validChar = true := by
  rw [← Nat.not_le]
  exact checks_eq_ok_iff hne

theorem validateInputName_iff (hne : name ≠ []) :
    validateInputName name = .ok () ↔
      name.length ≤ nameDataLen ∧ name.all validChar = true := by
  rw [← Nat.not_lt]
  exact checks_eq_ok_iff hne

theorem appendInputName_eq_ok {buf buf' : List Char × Bool} :
    appendInputName buf name = .ok buf' ↔
      validateInputName name = .ok () ∧
        buf' = (if buf.2 then buf.1 ++ name else buf.1 ++ ([',', ' '] ++ name), false) := by
  rw [appendInputName, except_bind_eq_ok]
  constructor
  · rintro ⟨_, hname, hbuf⟩
    cases hbuf
    exact ⟨hname, rfl⟩
  · rintro ⟨hname, rfl⟩
    exact ⟨(), hname, rfl⟩

variable {names : List (List Char)}

theorem foldlM_appendInputName {text : List Char} {buf : List Char × Bool} :
    names.foldlM appendInputName (text, false) = .ok buf ↔
      (∀ name ∈ names, validateInputName name = .ok ()) ∧
        buf = (text ++ names.flatMap fun name => ',' :: ([' '] ++ name), false) := by
  induction names generalizing text with
  | nil =>
    rw [List.foldlM_nil, List.flatMap_nil, List.append_nil]
    constructor
    · intro h
      cases h
      exact ⟨fun name hname => absurd hname List.not_mem_nil, rfl⟩
    · rintro ⟨-, rfl⟩
      rfl
  | cons name names ih =>
    simp only [foldlM_cons_eq_ok, appendInputName_eq_ok, List.forall_mem_cons,
      List.flatMap_cons, ← List.append_assoc]
    constructor
    · rintro ⟨_, ⟨hname, rfl⟩, hloop⟩
      obtain ⟨hnames, rfl⟩ := ih.mp hloop
      refine ⟨⟨hname, hnames⟩, ?_⟩
      simp
    · rintro ⟨⟨hname, hnames⟩, rfl⟩
      refine ⟨_, ⟨hname, rfl⟩, ih.mpr ⟨hnames, ?_⟩⟩
      simp

theorem validateReplicationSetInput_eq_ok {text : List Char} {ret : Option (List Char)} :
    validateReplicationSetInput (some text) = .ok ret ↔
      (∀ name ∈ setNames text, validateInputName name = .ok ()) ∧
        ret = some (listed [' '] id (setNames text)) := by
  rw [validateReplicationSetInput, except_map_eq_ok]
  cases setNames text with
  | nil =>
    constructor
    · rintro ⟨buf, hbuf, rfl⟩
      cases hbuf
      exact ⟨fun name hname => absurd hname List.not_mem_nil, rfl⟩
    · rintro ⟨-, rfl⟩
      exact ⟨([], true), rfl, rfl⟩
  | cons name names =>
    simp only [foldlM_cons_eq_ok, appendInputName_eq_ok, List.forall_mem_cons, listed]
    constructor
    · rintro ⟨buf, ⟨_, ⟨hname, rfl⟩, hloop⟩, rfl⟩
      obtain ⟨hnames, rfl⟩ := foldlM_appendInputName.mp hloop
      exact ⟨⟨hname, hnames⟩, rfl⟩
    · rintro ⟨⟨hname, hnames⟩, rfl⟩
      exact ⟨_, ⟨_, ⟨hname, rfl⟩, foldlM_appendInputName.mpr ⟨hnames, rfl⟩⟩, rfl⟩

/-! ### Reading the literals -/

theorem isPlain_of_validChar {c : Char} (h : validChar c = true) :
    isPlain c = true ∧ c.toLower = c := by
  have hne : ∀ d, validChar d = false → c ≠ d := by
    rintro d hd rfl
    rw [h] at hd
    cases hd
  constructor
  · have hspace : isspace c = false := by
      rw [Bool.eq_false_iff]
      intro hspace
      rw [isspace, List.contains_iff_mem] at hspace
      simp only [List.mem_cons, List.not_mem_nil, or_false] at hspace
      rcases hspace with rfl | rfl | rfl | rfl | rfl | rfl
      all_goals exact absurd rfl (hne _ rfl)
    exact isPlain_iff.mpr ⟨hspace, hne _ rfl, hne _ rfl, hne _ rfl, hne _ rfl, hne _ rfl⟩
  · refine dif_neg fun hupper => ?_
    simp only [validChar, Bool.or_eq_true, Bool.and_eq_true, decide_eq_true_eq, Char.le_def,
      UInt32.le_iff_toNat_le] at h
    have hval : 65 ≤ c.val.toNat ∧ c.val.toNat ≤ 90 := hupper
    rcases h with ((⟨ha, -⟩ | ⟨-, hnine⟩) | rfl) | rfl
    · have ha : 97 ≤ c.val.toNat := ha
      omega
    · have hnine : c.val.toNat ≤ 57 := hnine
      omega
    · exact absurd hval (by decide)
    · exact absurd hval (by decide)

def nameElem (name : List Char) : Elem := if name = nullWord then none else some name

theorem wordElem_eq (h : name.all validChar = true) : wordElem name = nameElem name := by
  have hlower : name.map Char.toLower = name := by
    rw [List.map_congr_left fun c hc => (isPlain_of_validChar (List.all_eq_true.mp h c hc)).2]
    exact List.map_id' name
  have hnull : (['n', 'u', 'l', 'l'] : List Char).map Char.toLower = nullWord := by decide
  rw [wordElem, strcasecmpEq, hlower, hnull, nameElem]
  by_cases heq : name = nullWord
  · simp [heq]
  · simp [heq]

theorem isItem_name (hne : name ≠ []) (h : name.all validChar = true) :
    IsItem name (nameElem name) := by
  rw [← wordElem_eq h]
  refine isItem_plain hne fun c hc => (isPlain_of_validChar ?_).1
  exact List.all_eq_true.mp h c hc

theorem isItem_quoteIdentifier {q : Quoting} (hnull : q.keyword nullWord = true) (hne : name ≠ [])
    (h : name.all validChar = true) : IsItem (q.quoteIdentifier name) (some name) := by
  have hplain : ∀ c ∈ name, c ≠ '"' ∧ c ≠ '\\' := by
    intro c hc
    have hc := isPlain_iff.mp (isPlain_of_validChar (List.all_eq_true.mp h c hc)).1
    exact ⟨hc.2.2.2.2.1, hc.2.2.2.2.2⟩
  unfold Quoting.quoteIdentifier
  split_ifs with hsafe
  · have hname : name ≠ nullWord := by
      rintro rfl
      simp [Quoting.safe, hnull] at hsafe
    have hitem := isItem_name hne h
    rwa [nameElem, if_neg hname] at hitem
  · rw [doubled_of_ne_quote fun c hc => (hplain c hc).1]
    exact isItem_quoted hplain

theorem parse_normalized (hne : ∀ name ∈ names, name ≠ [])
    (h : ∀ name ∈ names, name.all validChar = true) :
    parse (braces (listed [' '] id names)) = some (names.map some) ↔
      ∀ name ∈ names, name ≠ nullWord := by
  have hblanks : ∀ c ∈ [' '], isspace c = true := List.all_eq_true.mp (by decide)
  have hitems : ∀ name ∈ names, IsItem (id name) (nameElem name) :=
    fun name hname => isItem_name (hne name hname) (h name hname)
  rw [parse_listed hblanks hitems, Option.some.injEq, List.map_inj_left]
  refine forall₂_congr fun name _ => ?_
  by_cases hnull : name = nullWord
  · simp [nameElem, hnull]
  · simp [nameElem, hnull]

theorem parse_textarrToIdentliststr {q : Quoting} (hnull : q.keyword nullWord = true)
    (hne : ∀ name ∈ names, name ≠ []) (h : ∀ name ∈ names, name.all validChar = true) :
    parse (braces (textarrToIdentliststr q names)) = some (names.map some) := by
  have hlisted : textarrToIdentliststr q names = listed [] q.quoteIdentifier names := by
    cases names with
    | nil => rfl
    | cons name names => rfl
  rw [hlisted]
  refine parse_listed (fun c hc => absurd hc List.not_mem_nil) fun name hname => ?_
  exact isItem_quoteIdentifier hnull (hne name hname) (h name hname)

/-- A list of names on the command line is accepted exactly if the server accepts each name, and
both array literals for an accepted list are read as this list, unless all names are accepted and
one of them is too long for the server or is `null`. -/
theorem replicationSetLists_iff {q : Quoting} (hnull : q.keyword nullWord = true)
    (text : List Char) :
    (((∃ ret, validateReplicationSetInput (some text) = .ok ret) ↔
          ∀ name ∈ setNames text, validateReplicationSetName name true = .ok ()) ∧
        ∀ ret, validateReplicationSetInput (some text) = .ok (some ret) →
          parse (braces ret) = some ((setNames text).map some) ∧
            parse (braces (textarrToIdentliststr q (setNames text))) =
              some ((setNames text).map some)) ↔
      ((∀ name ∈ setNames text, name.length ≤ nameDataLen ∧ name.all validChar = true) →
        ∀ name ∈ setNames text, name.length ≠ nameDataLen ∧ name ≠ nullWord) := by
  have hne : ∀ name ∈ setNames text, name ≠ [] := fun name hname => ne_nil_of_mem_strtokFrom hname
  have hinput : (∀ name ∈ setNames text, validateInputName name = .ok ()) ↔
      ∀ name ∈ setNames text, name.length ≤ nameDataLen ∧ name.all validChar = true :=
    forall₂_congr fun name hname => validateInputName_iff (hne name hname)
  have hserver : (∀ name ∈ setNames text, validateReplicationSetName name true = .ok ()) ↔
      ∀ name ∈ setNames text, name.length < nameDataLen ∧ name.all validChar = true :=
    forall₂_congr fun name hname => validateReplicationSetName_iff (hne name hname)
  simp only [validateReplicationSetInput_eq_ok, hinput, hserver, Option.some.injEq]
  by_cases haccepted :
      ∀ name ∈ setNames text, name.length ≤ nameDataLen ∧ name.all validChar = true
  · have hchars : ∀ name ∈ setNames text, name.all validChar = true :=
      fun name hname => (haccepted name hname).2
    have hliterals := parse_textarrToIdentliststr hnull hne hchars
    rw [forall_prop_of_true haccepted]
    constructor
    · rintro ⟨hsame, hparse⟩ name hname
      have hshort := (hsame.mp ⟨_, haccepted, rfl⟩ name hname).1
      have hread := (hparse _ ⟨haccepted, rfl⟩).1
      exact ⟨hshort.ne, (parse_normalized hne hchars).mp hread name hname⟩
    · intro h
      refine ⟨iff_of_true ⟨_, haccepted, rfl⟩ fun name hname => ?_, ?_⟩
      · exact ⟨lt_of_le_of_ne (haccepted name hname).1 (h name hname).1, hchars name hname⟩
      · rintro ret ⟨-, rfl⟩
        exact ⟨(parse_normalized hne hchars).mpr fun name hname => (h name hname).2, hliterals⟩
  · refine iff_of_true ⟨iff_of_false ?_ ?_, ?_⟩ fun h => absurd h haccepted
    · rintro ⟨-, h, -⟩
      exact haccepted h
    · exact fun h => haccepted fun name hname => ⟨(h name hname).1.le, (h name hname).2⟩
    · exact fun ret h => absurd h.1 haccepted

def nullQuoting : Quoting where
  quoteAll := false
  keyword name := name = nullWord

theorem replicationSetLists_iff_two :
    nullQuoting.keyword nullWord = true ∧
      setNames "a, b-1".toList = ["a".toList, "b-1".toList] ∧
      parse (braces (textarrToIdentliststr nullQuoting (setNames "a, b-1".toList))) =
        some ((setNames "a, b-1".toList).map some) := by
  refine ⟨rfl, by decide +kernel, ?_⟩
  have haccepted : validateReplicationSetInput (some "a, b-1".toList) =
      .ok (some "a, b-1".toList) := by decide +kernel
  exact (((replicationSetLists_iff (q := nullQuoting) rfl "a, b-1".toList).mpr
    (by decide +kernel)).2 _ haccepted).2

/-- A name of 64 characters is accepted, but not by the server. The name `null` is accepted and
read as null. -/
theorem replicationSetLists_fail :
    (∃ ret, validateReplicationSetInput (some (List.replicate 64 'a')) = .ok ret) ∧
      validateReplicationSetName (List.replicate 64 'a') true =
        .error (.tooLong (List.replicate 64 'a')) ∧
      validateReplicationSetInput (some nullWord) = .ok (some nullWord) ∧
      validateReplicationSetName nullWord true = .ok () ∧
      parse (braces nullWord) = some [none] := by
  refine ⟨⟨some (List.replicate 64 'a'), ?_⟩, ?_, ?_, ?_, ?_⟩
  all_goals decide +kernel

end Pgactive.ReplicationSets
