import Pgactive.Conninfo
import Pgactive.CString
import Pgactive.Ddl.SearchPath

/-!
# Comparing connection strings

`pgactive_conninfo_cmp` parses two connection strings and looks up every option of the first one
among those of the second one. The values are compared without regard to letter case, as the
keywords are, so that two strings with different passwords may be the same to it.
-/

namespace Pgactive.Connections

open Conninfo Identifiers CString

/-- `invalid connection string syntax`. -/
inductive CmpError
  | invalidSyntax (conninfo : List Char)
deriving DecidableEq

abbrev Entry := List Char × Option (List Char)

variable (r : Reading)

def cmpValues : Option (List Char) → Option (List Char) → Bool
  | none, none => true
  | some val1, some val2 => strcasecmpEq r.lowerChar val1 val2
  | _, _ => false

def findOption (opt1 : Entry) : List Entry → Bool
  | [] => false
  | opt2 :: opts2 =>
    if strcasecmpEq r.lowerChar opt1.1 opt2.1 then cmpValues r opt1.2 opt2.2
    else findOption opt1 opts2

def cmpOptions (opts1 opts2 : List Entry) : Bool :=
  match opts1 with
  | [] => true
  | opt1 :: opts1 => if findOption r opt1 opts2 then cmpOptions opts1 opts2 else false

variable (pq : Libpq)

def conninfoCmp (conninfo1 conninfo2 : List Char) : Except CmpError Bool :=
  match pq.conninfoParse conninfo1 with
  | none => .error (.invalidSyntax conninfo1)
  | some values1 =>
    match pq.conninfoParse conninfo2 with
    | none => .error (.invalidSyntax conninfo2)
    | some values2 => .ok (cmpOptions r (pq.entries values1) (pq.entries values2))

def SameFolded (values1 values2 : Values) : Prop :=
  ∀ k, pq.known k = true →
    (values1 k).map (·.map r.lowerChar) = (values2 k).map (·.map r.lowerChar)

/-! ### The loops -/

variable {r pq} {values1 values2 values3 : Values}

theorem cmpValues_iff {val1 val2 : Option (List Char)} :
    cmpValues r val1 val2 = true ↔ val1.map (·.map r.lowerChar) = val2.map (·.map r.lowerChar) := by
  cases val1 with
  | none =>
    cases val2 with
    | none => simp [cmpValues]
    | some val2 => simp [cmpValues]
  | some val1 =>
    cases val2 with
    | none => simp [cmpValues]
    | some val2 => simp [cmpValues, strcasecmpEq]

theorem strcasecmpEq_keyword {k k' : List Char} (hk : ∀ c ∈ k, isKeywordChar c = true)
    (hk' : ∀ c ∈ k', isKeywordChar c = true) :
    strcasecmpEq r.lowerChar k k' = true ↔ k = k' := by
  have hlower : ∀ k : List Char, (∀ c ∈ k, isKeywordChar c = true) → k.map r.lowerChar = k := by
    intro k hk
    refine (List.map_congr_left fun c hc => ?_).trans (List.map_id k)
    refine Reading.isPart_lowerChar r ?_
    have hc := hk c hc
    simp only [isKeywordChar, isPart, isStart, Bool.or_eq_true, decide_eq_true_eq] at hc ⊢
    tauto
  rw [strcasecmpEq, hlower k hk, hlower k' hk', decide_eq_true_eq]

theorem findOption_eq {options : List Keyword} (hnodup : (options.map Keyword.keyword).Nodup)
    (hchars : ∀ o ∈ options, ∀ c ∈ o.keyword, isKeywordChar c = true) {o : Keyword}
    (ho : o ∈ options) (val : Option (List Char)) :
    findOption r (o.keyword, val) (options.map fun o => (o.keyword, values2 o.keyword)) =
      cmpValues r val (values2 o.keyword) := by
  induction options with
  | nil => cases ho
  | cons o' options ih =>
    rw [List.map_cons, List.nodup_cons] at hnodup
    obtain ⟨hkeyword, hchars⟩ := List.forall_mem_cons.mp hchars
    rw [List.map_cons, findOption]
    rcases List.mem_cons.mp ho with rfl | ho
    · rw [if_pos ((strcasecmpEq_keyword hkeyword hkeyword).mpr rfl)]
    · have hne : o.keyword ≠ o'.keyword := by
        intro h
        exact hnodup.1 (h ▸ List.mem_map_of_mem ho)
      rw [if_neg fun h => hne ((strcasecmpEq_keyword (hchars o ho) hkeyword).mp h)]
      exact ih hnodup.2 hchars ho

theorem cmpOptions_eq_all {opts1 opts2 : List Entry} :
    cmpOptions r opts1 opts2 = opts1.all (findOption r · opts2) := by
  induction opts1 with
  | nil => rfl
  | cons opt1 opts1 ih =>
    rw [cmpOptions, List.all_cons, ih]
    cases findOption r opt1 opts2 with
    | true => rfl
    | false => rfl

theorem cmpOptions_iff :
    cmpOptions r (pq.entries values1) (pq.entries values2) = true ↔
      SameFolded r pq values1 values2 := by
  have hfind : ∀ o ∈ pq.options,
      findOption r (o.keyword, values1 o.keyword) (pq.entries values2) =
        cmpValues r (values1 o.keyword) (values2 o.keyword) :=
    fun o ho => findOption_eq pq.nodup pq.chars ho _
  rw [cmpOptions_eq_all, List.all_eq_true]
  constructor
  · intro h k hk
    obtain ⟨o, ho, rfl⟩ := List.mem_map.mp (Libpq.known_iff.mp hk)
    have hmem : (o.keyword, values1 o.keyword) ∈ pq.entries values1 :=
      List.mem_map.mpr ⟨o, ho, rfl⟩
    exact cmpValues_iff.mp (hfind o ho ▸ h _ hmem)
  · rintro h entry hentry
    obtain ⟨o, ho, rfl⟩ := List.mem_map.mp hentry
    rw [hfind o ho]
    exact cmpValues_iff.mpr (h _ (Libpq.known_iff.mpr (List.mem_map_of_mem ho)))

theorem conninfoCmp_eq_true {conninfo1 conninfo2 : List Char}
    (h1 : pq.conninfoParse conninfo1 = some values1)
    (h2 : pq.conninfoParse conninfo2 = some values2) :
    conninfoCmp r pq conninfo1 conninfo2 = .ok true ↔ SameFolded r pq values1 values2 := by
  rw [conninfoCmp, h1, h2, ← cmpOptions_iff, Except.ok.injEq]

/-! ### As a relation -/

theorem SameFolded.refl (values : Values) : SameFolded r pq values values := fun _ _ => rfl

theorem SameFolded.symm (h : SameFolded r pq values1 values2) :
    SameFolded r pq values2 values1 := fun k hk => (h k hk).symm

theorem SameFolded.trans (h : SameFolded r pq values1 values2)
    (h' : SameFolded r pq values2 values3) : SameFolded r pq values1 values3 :=
  fun k hk => (h k hk).trans (h' k hk)

theorem SameFolded.of_entries_eq (h : pq.entries values1 = pq.entries values2) :
    SameFolded r pq values1 values2 := fun k hk => by rw [pq.entries_eq_iff.mp h k hk]

/-- Two valid strings compare as their options do, and the comparison is an equivalence relation,
exactly if their options are not different in nothing but the letter case of their values. -/
theorem conninfoCmp_iff (r : Reading) (pq : Libpq) {conninfo1 conninfo2 : List Char}
    (h1 : pq.conninfoParse conninfo1 = some values1)
    (h2 : pq.conninfoParse conninfo2 = some values2) :
    ((conninfoCmp r pq conninfo1 conninfo2 = .ok true ↔
        pq.entries values1 = pq.entries values2) ∧
      conninfoCmp r pq conninfo1 conninfo1 = .ok true ∧
      (conninfoCmp r pq conninfo1 conninfo2 = .ok true →
        conninfoCmp r pq conninfo2 conninfo1 = .ok true) ∧
      ∀ conninfo3, (pq.conninfoParse conninfo3).isSome = true →
        conninfoCmp r pq conninfo1 conninfo2 = .ok true →
        conninfoCmp r pq conninfo2 conninfo3 = .ok true →
        conninfoCmp r pq conninfo1 conninfo3 = .ok true) ↔
      (SameFolded r pq values1 values2 → pq.entries values1 = pq.entries values2) := by
  constructor
  · rintro ⟨hexact, -⟩ hsame
    exact hexact.mp ((conninfoCmp_eq_true h1 h2).mpr hsame)
  · intro hcase
    refine ⟨⟨fun h => hcase ((conninfoCmp_eq_true h1 h2).mp h), fun h => ?_⟩, ?_, fun h => ?_, ?_⟩
    · exact (conninfoCmp_eq_true h1 h2).mpr (.of_entries_eq h)
    · exact (conninfoCmp_eq_true h1 h1).mpr (.refl values1)
    · exact (conninfoCmp_eq_true h2 h1).mpr ((conninfoCmp_eq_true h1 h2).mp h).symm
    · intro conninfo3 hvalid h12 h23
      obtain ⟨values3, h3⟩ := Option.isSome_iff_exists.mp hvalid
      rw [conninfoCmp_eq_true h1 h2] at h12
      rw [conninfoCmp_eq_true h2 h3] at h23
      exact (conninfoCmp_eq_true h1 h3).mpr (h12.trans h23)

def passwordKey : List Char := ['p', 'a', 's', 's', 'w', 'o', 'r', 'd']

def passwordLibpq : Libpq where
  options := [⟨passwordKey, ['*']⟩]
  nodup := by decide
  chars o ho := by
    obtain rfl := List.mem_singleton.mp ho
    exact List.all_eq_true.mp (by decide)
  uri := fun _ => none

def passwordValues (password : List Char) : Values :=
  stored (fun _ => none) [(passwordKey, password)]

/-- Two different passwords are the same. -/
theorem conninfoCmp_passwords :
    passwordLibpq.conninfoParse (passwordKey ++ ['=', 'a']) = some (passwordValues ['a']) ∧
      passwordLibpq.conninfoParse (passwordKey ++ ['=', 'A']) = some (passwordValues ['A']) ∧
      conninfoCmp Ddl.asciiReading passwordLibpq (passwordKey ++ ['=', 'a'])
        (passwordKey ++ ['=', 'A']) = .ok true ∧
      passwordLibpq.entries (passwordValues ['a']) ≠ passwordLibpq.entries (passwordValues ['A']) :=
  ⟨rfl, rfl, rfl, by decide⟩

theorem conninfoCmp_iff_password :
    passwordLibpq.conninfoParse (passwordKey ++ ['=', 'a']) = some (passwordValues ['a']) ∧
      ((conninfoCmp Ddl.asciiReading passwordLibpq (passwordKey ++ ['=', 'a'])
          (passwordKey ++ ['=', 'a']) = .ok true ↔
        passwordLibpq.entries (passwordValues ['a']) =
          passwordLibpq.entries (passwordValues ['a']))) :=
  ⟨rfl, ((conninfoCmp_iff Ddl.asciiReading passwordLibpq rfl rfl).mpr fun _ => rfl).1⟩

end Pgactive.Connections
