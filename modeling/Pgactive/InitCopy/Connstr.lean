import Mathlib.Data.List.Basic
import Pgactive.Conninfo

/-!
# Building connection strings

`get_connstr` merges a connection string with parameters of the command line. Values with special
characters are written in quotes; an empty value has none and is written as nothing, so that the
next keyword with its value is read as the value.
-/

namespace Pgactive.InitCopy

open Conninfo Scanf

def dbnameKey : List Char := ['d', 'b', 'n', 'a', 'm', 'e']

def hostKey : List Char := ['h', 'o', 's', 't']

def userKey : List Char := ['u', 's', 'e', 'r']

def portKey : List Char := ['p', 'o', 'r', 't']

/-! ### The text -/

def isSafe (c : Char) : Bool := c.isLower || c.isUpper || c.isDigit || c = '_' || c = '.'

def connstrValue (str : List Char) : List Char :=
  if str.all isSafe then str else '\'' :: (escape str ++ ['\''])

def param (p : Record) : List Char := p.1 ++ '=' :: connstrValue p.2

def spaced (ps : List Record) : List Char := ps.flatMap fun p => ' ' :: param p

def conninfoParamsToConnstr : List Record → List Char
  | [] => []
  | p :: ps => param p ++ spaced ps

/-! ### The parameters -/

/-- The parameters of `get_connstr` besides the connection string. -/
structure Overrides where
  dbname : Option (List Char)
  dbhost : Option (List Char)
  dbport : Option (List Char)
  dbuser : Option (List Char)
deriving DecidableEq

/-- The parameters that were provided, in the order in which they are written. -/
def Overrides.given (o : Overrides) : List Record :=
  (o.dbname.map (dbnameKey, ·)).toList ++ (o.dbhost.map (hostKey, ·)).toList ++
    (o.dbuser.map (userKey, ·)).toList ++ (o.dbport.map (portKey, ·)).toList

def Overrides.covers (o : Overrides) (keyword : List Char) : Bool :=
  o.dbname.isSome && keyword = dbnameKey || o.dbhost.isSome && keyword = hostKey ||
    o.dbuser.isSome && keyword = userKey || o.dbport.isSome && keyword = portKey

def isConnstr (connstr : List Char) : Bool := isUri connstr || connstr.contains '='

/-- A text that is no connection string is the database name, unless one was provided. -/
def Overrides.withName (o : Overrides) (connstr : Option (List Char)) : Overrides :=
  match connstr with
  | none => o
  | some connstr =>
    if isConnstr connstr then o else { o with dbname := o.dbname <|> some connstr }

variable (pq : Libpq)

def connstrValues (connstr : Option (List Char)) : Option Values :=
  match connstr with
  | none => some fun _ => none
  | some connstr => if isConnstr connstr then pq.conninfoParse connstr else some fun _ => none

def Overrides.keep (o : Overrides) (entry : List Char × Option (List Char)) : Option Record :=
  if o.covers entry.1 then none
  else
    match entry.2 with
    | some (c :: value) => some (entry.1, c :: value)
    | _ => none

/-- `get_connstr`; an invalid connection string ends the program. -/
def getConnstr (connstr : Option (List Char)) (o : Overrides) : Option (List Char) :=
  (connstrValues pq connstr).map fun values =>
    conninfoParamsToConnstr ((pq.entries values).filterMap o.keep ++ (o.withName connstr).given)

/-- The options that the text should have: those of the input that are not empty, with the provided
parameters in their place. -/
def wantedValues (connstr : Option (List Char)) (o : Overrides) (values : Values) : Values :=
  stored (fun k => (values k).filter (· ≠ [])) (o.withName connstr).given

/-! ### Reading the text -/

variable {c : Char}

theorem isPlain_of_isSafe (h : isSafe c = true) : isPlain c = true := by
  have hne : ∀ d ∈ [' ', '\t', '\n', '\x0b', '\x0c', '\r', '\\', '\''], c ≠ d :=
    ne_of_mem_of_all_not h (by decide)
  simp [isPlain, isspace, hne]

variable {rest : List Char} {records : List Record}

theorem scanValue_connstrValue {value : List Char} (hne : value ≠ [])
    (hreads : Reads rest records) (hrest : ∀ c ∈ rest.head?, c = ' ') :
    ∃ rest', scanValue (connstrValue value ++ rest) = .ok (value, rest') ∧ Reads rest' records := by
  unfold connstrValue
  split_ifs with hsafe
  · have hplain : ∀ c ∈ value, isPlain c = true := fun c hc =>
      isPlain_of_isSafe (List.all_eq_true.mp hsafe c hc)
    cases rest with
    | nil => exact ⟨[], scanValue_plain hne hplain rfl, hreads⟩
    | cons c rest =>
      obtain rfl : c = ' ' := hrest c rfl
      exact ⟨rest, scanValue_plain hne hplain rfl, (reads_blank_iff rfl).mp hreads⟩
  · refine ⟨rest, ?_, hreads⟩
    rw [List.cons_append, List.append_assoc, List.singleton_append]
    exact scanValue_quoted value rest

theorem head?_spaced (ps : List Record) : ∀ c ∈ (spaced ps).head?, c = ' ' := by
  intro c hc
  cases ps with
  | nil => cases hc
  | cons p ps =>
    cases hc
    rfl

variable {ps : List Record}

theorem reads_spaced (hnames : ∀ p ∈ ps, ∀ c ∈ p.1, isKeywordChar c = true)
    (hne : ∀ p ∈ ps.dropLast, p.2 ≠ []) : Reads (spaced ps) ps := by
  induction ps with
  | nil => exact .nil rfl
  | cons p ps ih =>
    obtain ⟨hname, hnames⟩ := List.forall_mem_cons.mp hnames
    have hvalue : ∃ rest', scanValue (connstrValue p.2 ++ spaced ps) = .ok (p.2, rest') ∧
        Reads rest' ps := by
      by_cases hp : p.2 = []
      · -- then it is the last one
        cases ps with
        | nil =>
          rw [hp]
          exact ⟨[], rfl, .nil rfl⟩
        | cons p' ps => exact absurd hp (hne p List.mem_cons_self)
      · refine scanValue_connstrValue hp (ih hnames fun q hq => hne q ?_) (head?_spaced ps)
        cases ps with
        | nil => cases hq
        | cons p' ps => exact List.mem_cons_of_mem p hq
    obtain ⟨rest', hscan, hreads⟩ := hvalue
    rw [spaced, List.flatMap_cons, List.cons_append, reads_blank_iff rfl, param, List.append_assoc,
      List.cons_append, reads_name_iff fun c hc => extendsName_of_isKeywordChar (hname c hc)]
    exact ⟨p.2, rest', ps, hscan, hreads, rfl⟩

theorem reads_conninfoParamsToConnstr :
    Reads (conninfoParamsToConnstr ps) records ↔ Reads (spaced ps) records := by
  cases ps with
  | nil => exact Iff.rfl
  | cons p ps => exact (reads_blank_iff rfl).symm

/-! ### Empty values -/

/-- Two quotes in a row stand behind a backslash; `b` says whether there is one before the text. -/
def guarded (b : Bool) : List Char → Bool
  | [] => true
  | c :: text =>
    (c ≠ '\'' || b || text.head? ≠ some '\'') && guarded (c = '\\') text

variable {b : Bool}

theorem guarded_spec {before after : List Char}
    (h : guarded b (before ++ c :: '\'' :: '\'' :: after) = true) : c = '\\' := by
  induction before generalizing b with
  | nil =>
    rw [List.nil_append, guarded, guarded] at h
    simp only [Bool.and_eq_true, Bool.or_eq_true, decide_eq_true_eq] at h
    simpa using h.2.1
  | cons d before ih =>
    rw [List.cons_append, guarded, Bool.and_eq_true] at h
    exact ih h.2

theorem guarded_append_plain {part : List Char} (hpart : ∀ c ∈ part, c ≠ '\'' ∧ c ≠ '\\')
    (hrest : ∀ b, guarded b rest = true) : guarded b (part ++ rest) = true := by
  induction part generalizing b with
  | nil => exact hrest b
  | cons c part ih =>
    obtain ⟨hc, hpart⟩ := List.forall_mem_cons.mp hpart
    rw [List.cons_append, guarded, ih hpart]
    simp [hc.1]

theorem guarded_escape (value : List Char) (hhead : rest.head? ≠ some '\'')
    (hrest : ∀ b, guarded b rest = true) : guarded b (escape value ++ '\'' :: rest) = true := by
  induction value generalizing b with
  | nil =>
    rw [show escape [] ++ '\'' :: rest = '\'' :: rest from rfl, guarded, hrest]
    simp [hhead]
  | cons c value ih =>
    by_cases hc : c = '\\' ∨ c = '\''
    · rw [escape_cons_special hc, List.cons_append, List.cons_append, guarded, guarded, ih]
      simp
    · have hquote : c ≠ '\'' := fun h => hc (.inr h)
      rw [escape_cons_other hc, List.cons_append, guarded, ih]
      simp [hquote]

theorem head?_escape {value : List Char} (hne : value ≠ []) (rest : List Char) :
    (escape value ++ rest).head? ≠ some '\'' := by
  obtain ⟨c, value, rfl⟩ := List.exists_cons_of_ne_nil hne
  by_cases hc : c = '\\' ∨ c = '\''
  · rw [escape_cons_special hc]
    simp
  · rw [escape_cons_other hc]
    simpa using fun h => hc (.inr h)

theorem isSafe_of_isKeywordChar (h : isKeywordChar c = true) : isSafe c = true := by
  simp only [isKeywordChar, Bool.or_eq_true, decide_eq_true_eq] at h
  simp only [isSafe, Bool.or_eq_true, decide_eq_true_eq]
  tauto

theorem ne_of_isSafe (h : isSafe c = true) : isspace c = false ∧ c ≠ '\\' ∧ c ≠ '\'' ∧ c ≠ '=' := by
  obtain ⟨hblank, hback, hquote⟩ := isPlain_iff.mp (isPlain_of_isSafe h)
  refine ⟨hblank, hback, hquote, ?_⟩
  rintro rfl
  exact absurd h (by decide)

theorem guarded_spaced (hnames : ∀ p ∈ ps, ∀ c ∈ p.1, isKeywordChar c = true) (b : Bool) :
    guarded b (spaced ps) = true := by
  induction ps generalizing b with
  | nil => rfl
  | cons p ps ih =>
    obtain ⟨hname, hnames⟩ := List.forall_mem_cons.mp hnames
    have hplain : ∀ c ∈ ' ' :: (p.1 ++ ['=']), c ≠ '\'' ∧ c ≠ '\\' := by
      intro c hc
      simp only [List.mem_cons, List.mem_append, List.not_mem_nil, or_false] at hc
      rcases hc with rfl | hc | rfl
      · decide
      · obtain ⟨-, hback, hquote, -⟩ := ne_of_isSafe (isSafe_of_isKeywordChar (hname c hc))
        exact ⟨hquote, hback⟩
      · decide
    have hhead : (spaced ps).head? ≠ some '\'' := by
      intro h
      have := head?_spaced ps '\'' h
      simp at this
    have hsplit : spaced (p :: ps) = ' ' :: (p.1 ++ ['=']) ++ (connstrValue p.2 ++ spaced ps) := by
      simp [spaced, param]
    rw [hsplit]
    refine guarded_append_plain hplain fun b => ?_
    unfold connstrValue
    split_ifs with hsafe
    · refine guarded_append_plain (fun c hc => ?_) (ih hnames)
      obtain ⟨-, hback, hquote, -⟩ := ne_of_isSafe (List.all_eq_true.mp hsafe c hc)
      exact ⟨hquote, hback⟩
    · have hne : p.2 ≠ [] := by
        intro h
        simp [h] at hsafe
      have hopen : decide ((escape p.2 ++ '\'' :: spaced ps).head? ≠ some '\'') = true :=
        decide_eq_true (head?_escape hne _)
      rw [List.cons_append, List.append_assoc, List.singleton_append, guarded, hopen,
        guarded_escape p.2 hhead (ih hnames)]
      simp

theorem getLast?_param (p : Record) :
    ∃ c, (param p).getLast? = some c ∧ isspace c = false ∧ c ≠ '\\' ∧ (c = '=' → p.2 = []) := by
  unfold param connstrValue
  split_ifs with hsafe
  · rcases List.eq_nil_or_concat p.2 with hnil | ⟨init, c, hvalue⟩
    · exact ⟨'=', by simp [hnil], by decide, by decide, fun _ => hnil⟩
    · rw [List.concat_eq_append] at hvalue
      have hc := List.all_eq_true.mp hsafe c (by simp [hvalue])
      obtain ⟨hblank, hback, -, hequals⟩ := ne_of_isSafe hc
      exact ⟨c, by simp [hvalue, List.getLast?_cons], hblank, hback, fun h => absurd h hequals⟩
  · exact ⟨'\'', by simp [List.getLast?_cons], by decide, by decide, fun h => by simp at h⟩

theorem empty_notMem {init : List Record} {last : Record} {name : List Char}
    (hnames : ∀ p ∈ init ++ [last], ∀ c ∈ p.1, isKeywordChar c = true) (hlast : last.1 ≠ [])
    (hname : ∀ c ∈ name, isKeywordChar c = true) (hsuffix : ¬name <:+ last.1)
    (hreads : Reads (spaced (init ++ [last])) records) : (name, []) ∉ records := by
  intro hmem
  have hsplit : spaced (init ++ [last]) = spaced init ++ ' ' :: param last := by
    simp [spaced]
  obtain ⟨c, hend, hblank, hback, hequals⟩ := getLast?_param last
  have hwholeEnd : (spaced (init ++ [last])).getLast? = some c := by
    simp [hsplit, List.getLast?_cons, hend]
  rcases hreads.empty_value List.suffix_rfl hmem with
    ⟨blanks, hblanks, before, hbefore⟩ | ⟨before, d, after, hwhole, hd⟩ | ⟨d, hd, hwrong⟩
  · have hc : c = '=' := by
      rw [← hbefore] at hwholeEnd
      simpa [List.getLast?_append] using hwholeEnd.symm
    have hparam : param last = last.1 ++ ['='] := by
      rw [param, hequals hc]
      rfl
    -- up to the `=` at the end
    have hnameEnd : before ++ (name ++ blanks) = spaced init ++ ' ' :: last.1 := by
      have hboth : before ++ (name ++ blanks) ++ ['='] = spaced init ++ ' ' :: last.1 ++ ['='] := by
        rw [← List.append_assoc name, ← List.append_assoc] at hbefore
        rw [hbefore, hsplit, hparam]
        simp
      exact List.append_cancel_right hboth
    have hlastChar : ∃ d, (spaced init ++ ' ' :: last.1).getLast? = some d ∧ isspace d = false := by
      obtain ⟨lastInit, d, hd⟩ := (List.eq_nil_or_concat last.1).resolve_left hlast
      have hchar := hnames last (by simp) d (by simp [hd])
      exact ⟨d, by simp [hd, List.getLast?_cons], (ne_of_isSafe (isSafe_of_isKeywordChar hchar)).1⟩
    obtain ⟨d, hd, hdBlank⟩ := hlastChar
    rcases List.eq_nil_or_concat blanks with rfl | ⟨blanksInit, b, rfl⟩
    · rw [List.append_nil] at hnameEnd
      have hspace : ' ' ∉ name := by
        intro h
        exact absurd (hname ' ' h) (by decide)
      rcases List.append_eq_append_iff.mp hnameEnd with ⟨more, -, hmore⟩ | ⟨more, -, hmore⟩
      · exact hspace (by simp [hmore])
      · cases more with
        | nil =>
          rw [List.nil_append] at hmore
          exact hspace (hmore ▸ List.mem_cons_self)
        | cons e more =>
          rw [List.cons_append, List.cons.injEq] at hmore
          exact hsuffix ⟨more, hmore.2.symm⟩
    · rw [← hnameEnd] at hd
      obtain rfl : b = d := by simpa using hd
      rw [hblanks b (by simp)] at hdBlank
      cases hdBlank
  · have hguarded := guarded_spaced hnames false
    rw [hwhole] at hguarded
    exact hd (guarded_spec hguarded)
  · rw [hwholeEnd, Option.some.injEq] at hd
    subst hd
    rcases hwrong with hwrong | hwrong
    · exact hback hwrong
    · rw [hblank] at hwrong
      cases hwrong

/-! ### The provided parameters -/

def overrideKeys : List (List Char) := [dbnameKey, hostKey, userKey, portKey]

theorem map_fst_given (o : Overrides) : o.given.map Prod.fst = overrideKeys.filter o.covers := by
  obtain ⟨dbname, dbhost, dbport, dbuser⟩ := o
  cases dbname <;> cases dbhost <;> cases dbport <;> cases dbuser <;> rfl

theorem nodup_given (o : Overrides) : (o.given.map Prod.fst).Nodup := by
  rw [map_fst_given]
  exact (by decide : overrideKeys.Nodup).filter _

theorem fst_mem_overrideKeys {o : Overrides} {p : Record} (h : p ∈ o.given) :
    p.1 ∈ overrideKeys := by
  have hfst := List.mem_map_of_mem (f := Prod.fst) h
  rw [map_fst_given] at hfst
  exact List.mem_of_mem_filter hfst

variable {k : List Char}

theorem covers_iff {o : Overrides} : o.covers k = true ↔ k ∈ o.given.map Prod.fst := by
  rw [map_fst_given, List.mem_filter, iff_and_self]
  intro h
  simp only [Overrides.covers, Bool.or_eq_true, Bool.and_eq_true, decide_eq_true_eq] at h
  rw [overrideKeys]
  simp only [List.mem_cons]
  tauto

theorem suffix_overrideKeys {k' : List Char} (hk : k ∈ overrideKeys) (hk' : k' ∈ overrideKeys)
    (h : k <:+ k') : k = k' := by
  have hall : ∀ k ∈ overrideKeys, ∀ k' ∈ overrideKeys, k <:+ k' → k = k' := by decide
  exact hall k hk k' hk' h

theorem ne_nil_of_mem_overrideKeys (hk : k ∈ overrideKeys) : k ≠ [] := by
  have hall : ∀ k ∈ overrideKeys, k ≠ [] := by decide
  exact hall k hk

/-! ### The parameters that are written -/

section Written

variable {pq : Libpq} {connstr : Option (List Char)} {o : Overrides} {input : Values}

def kept (pq : Libpq) (o : Overrides) (input : Values) : List Record :=
  (pq.entries input).filterMap o.keep

theorem keep_eq_some {entry : List Char × Option (List Char)} {p : Record} :
    o.keep entry = some p ↔
      o.covers entry.1 = false ∧ entry.2 = some p.2 ∧ p.2 ≠ [] ∧ entry.1 = p.1 := by
  obtain ⟨k, value⟩ := entry
  obtain ⟨name, text⟩ := p
  unfold Overrides.keep
  split_ifs with hcovers
  · simp [hcovers]
  · rcases value with _ | _ | ⟨c, value⟩
    · simp
    · simp only [reduceCtorEq, Option.some.injEq, false_iff]
      rintro ⟨-, hvalue, hne, -⟩
      exact hne hvalue.symm
    · simp only [Option.some.injEq, Prod.mk.injEq]
      constructor
      · rintro ⟨rfl, rfl⟩
        exact ⟨by simpa using hcovers, rfl, List.cons_ne_nil c value, rfl⟩
      · rintro ⟨-, rfl, -, rfl⟩
        exact ⟨rfl, rfl⟩

theorem mem_kept {p : Record} :
    p ∈ kept pq o input ↔
      pq.known p.1 = true ∧ o.covers p.1 = false ∧ input p.1 = some p.2 ∧ p.2 ≠ [] := by
  rw [kept, List.mem_filterMap, Libpq.known_iff]
  simp only [keep_eq_some, Libpq.entries, List.mem_map]
  constructor
  · rintro ⟨entry, ⟨option, hoption, rfl⟩, hcovers, hvalue, hne, hname⟩
    rw [← hname]
    exact ⟨⟨option, hoption, rfl⟩, hcovers, hvalue, hne⟩
  · rintro ⟨⟨option, hoption, hname⟩, hcovers, hvalue, hne⟩
    rw [← hname] at hcovers hvalue
    exact ⟨_, ⟨option, hoption, rfl⟩, hcovers, hvalue, hne, hname⟩

theorem nodup_kept : ((kept pq o input).map Prod.fst).Nodup := by
  have hentries : (pq.entries input).Pairwise fun a b => a.1 ≠ b.1 := by
    rw [Libpq.entries, List.pairwise_map]
    exact List.pairwise_map.mp pq.nodup
  refine List.pairwise_map.mpr (List.pairwise_filterMap.mpr (hentries.imp ?_))
  intro a b hab p hp q hq
  rw [← (keep_eq_some.mp hp).2.2.2, ← (keep_eq_some.mp hq).2.2.2]
  exact hab

section

variable (hinput : connstrValues pq connstr = some input)
include hinput

theorem eq_none_or_withName : (∀ k, input k = none) ∨ o.withName connstr = o := by
  cases connstr with
  | none => exact .inr rfl
  | some connstr =>
    by_cases hconnstr : isConnstr connstr = true
    · exact .inr (if_pos hconnstr)
    · rw [connstrValues, if_neg hconnstr, Option.some.injEq] at hinput
      exact .inl fun k => congrFun hinput.symm k

theorem nodup_written : ((kept pq o input ++ (o.withName connstr).given).map Prod.fst).Nodup := by
  rw [List.map_append, List.nodup_append]
  refine ⟨nodup_kept, nodup_given _, ?_⟩
  rintro k hk k' hgiven rfl
  obtain ⟨p, hp, rfl⟩ := List.mem_map.mp hk
  obtain ⟨-, hcovers, hvalue, -⟩ := mem_kept.mp hp
  rcases eq_none_or_withName (o := o) hinput with hnone | hname
  · rw [hnone] at hvalue
    cases hvalue
  · rw [hname, ← covers_iff, hcovers] at hgiven
    cases hgiven

theorem stored_written {k : List Char} (hk : pq.known k = true) :
    stored (fun _ => none) (kept pq o input ++ (o.withName connstr).given) k =
      wantedValues connstr o input k := by
  have hnodup := nodup_written (o := o) hinput
  by_cases hgiven : k ∈ (o.withName connstr).given.map Prod.fst
  · obtain ⟨p, hp, rfl⟩ := List.mem_map.mp hgiven
    rw [wantedValues, stored_of_mem (nodup_given _) hp]
    exact stored_of_mem hnodup (List.mem_append_right _ hp)
  · rw [wantedValues, stored_of_notMem hgiven]
    cases hvalue : (input k).filter (· ≠ []) with
    | some value =>
      obtain ⟨hinputK, hne⟩ := Option.filter_eq_some_iff.mp hvalue
      refine stored_of_mem hnodup (List.mem_append_left _ (mem_kept.mpr ?_))
      have hcovers : o.covers k = false := by
        rcases eq_none_or_withName (o := o) hinput with hnone | hname
        · rw [hnone] at hinputK
          cases hinputK
        · rw [hname, ← covers_iff, Bool.not_eq_true] at hgiven
          exact hgiven
      exact ⟨hk, hcovers, hinputK, by simpa using hne⟩
    | none =>
      refine stored_of_notMem fun hmem => ?_
      rw [List.map_append, List.mem_append] at hmem
      obtain ⟨p, hp, rfl⟩ := List.mem_map.mp (hmem.resolve_right hgiven)
      obtain ⟨-, -, hinputK, hne⟩ := mem_kept.mp hp
      rw [hinputK] at hvalue
      simp [Option.filter, hne] at hvalue

end

theorem dropLast_written (h : ∀ p ∈ (o.withName connstr).given.dropLast, p.2 ≠ []) :
    ∀ p ∈ (kept pq o input ++ (o.withName connstr).given).dropLast, p.2 ≠ [] := by
  intro p hp
  by_cases hgiven : (o.withName connstr).given = []
  · rw [hgiven, List.append_nil] at hp
    exact (mem_kept.mp (List.dropLast_subset _ hp)).2.2.2
  · rw [List.dropLast_append_of_ne_nil hgiven, List.mem_append] at hp
    rcases hp with hp | hp
    · exact (mem_kept.mp hp).2.2.2
    · exact h p hp

theorem empty_notMem_written {k : List Char} {records : List Record}
    (hnames : ∀ p ∈ kept pq o input ++ (o.withName connstr).given,
      ∀ c ∈ p.1, isKeywordChar c = true)
    (hk : (k, []) ∈ (o.withName connstr).given.dropLast)
    (hreads : Reads (spaced (kept pq o input ++ (o.withName connstr).given)) records) :
    (k, []) ∉ records := by
  have hnodup := nodup_given (o.withName connstr)
  have hmem : (k, []) ∈ (o.withName connstr).given := List.dropLast_subset _ hk
  have hlastMem := List.getLast_mem (List.ne_nil_of_mem hmem)
  have hsplit := List.dropLast_append_getLast (List.ne_nil_of_mem hmem)
  generalize (o.withName connstr).given.getLast (List.ne_nil_of_mem hmem) = last at hlastMem hsplit
  have hkName := hnames _ (List.mem_append_right _ hmem)
  have hsuffix : ¬k <:+ last.1 := by
    intro h
    have hkLast := suffix_overrideKeys (fst_mem_overrideKeys hmem) (fst_mem_overrideKeys hlastMem) h
    rw [← hsplit, List.map_append, List.nodup_append] at hnodup
    exact hnodup.2.2 k (List.mem_map_of_mem hk) last.1 (by simp) hkLast
  rw [← hsplit, ← List.append_assoc] at hnames hreads
  exact empty_notMem hnames (ne_nil_of_mem_overrideKeys (fst_mem_overrideKeys hlastMem)) hkName
    hsuffix hreads

end Written

/-- The text parses to the wanted options exactly if no provided parameter is empty, except for the
one that is written last. -/
theorem getConnstr_parses_iff (hkeys : ∀ k ∈ overrideKeys, pq.known k = true)
    (connstr : Option (List Char)) (o : Overrides) {input : Values}
    (hinput : connstrValues pq connstr = some input) :
    (∃ ret values, getConnstr pq connstr o = some ret ∧
      parse pq.storeval (fun _ => none) ret = .ok values ∧
        pq.entries values = pq.entries (wantedValues connstr o input)) ↔
      ∀ p ∈ (o.withName connstr).given.dropLast, p.2 ≠ [] := by
  have hret : getConnstr pq connstr o = some
      (conninfoParamsToConnstr (kept pq o input ++ (o.withName connstr).given)) := by
    rw [getConnstr, hinput]
    rfl
  have hknown : ∀ p ∈ kept pq o input ++ (o.withName connstr).given, pq.known p.1 = true := by
    intro p hp
    rcases List.mem_append.mp hp with hp | hp
    · exact (mem_kept.mp hp).1
    · exact hkeys p.1 (fst_mem_overrideKeys hp)
  have hnames := fun p hp => Libpq.isKeywordChar_of_known (hknown p hp)
  simp only [parse_eq_ok_iff, foldlM_storeval, pq.entries_eq_iff]
  constructor
  · rintro ⟨ret, values, hsome, ⟨records, hreads, -, rfl⟩, hvalues⟩ ⟨k, value⟩ hp rfl
    rw [hret, Option.some.injEq] at hsome
    rw [← hsome, reads_conninfoParamsToConnstr] at hreads
    have hgiven : (k, []) ∈ (o.withName connstr).given := List.dropLast_subset _ hp
    have hstored := hvalues k (hkeys k (fst_mem_overrideKeys hgiven))
    rw [wantedValues, stored_of_mem (nodup_given _) hgiven] at hstored
    have hmem := (stored_eq_some hstored).resolve_right (by simp)
    exact empty_notMem_written hnames hp hreads hmem
  · intro hne
    have hreads := reads_spaced hnames (dropLast_written hne)
    exact ⟨_, _, hret, ⟨_, reads_conninfoParamsToConnstr.mpr hreads, hknown, rfl⟩,
      fun k hk => stored_written hinput hk⟩

def smallLibpq : Libpq where
  options := overrideKeys.map (⟨·, []⟩)
  nodup := by decide
  chars o ho := by
    obtain ⟨k, hk, rfl⟩ := List.mem_map.mp ho
    have hall : overrideKeys.all (·.all isKeywordChar) = true := by decide
    exact List.all_eq_true.mp (List.all_eq_true.mp hall k hk)
  uri := fun _ => none

/-- `dbname=` with nothing after it is read with the next word as its value. -/
theorem getConnstr_empty_dbname :
    getConnstr smallLibpq none ⟨some [], some ['x'], none, none⟩ =
        some (dbnameKey ++ '=' :: ' ' :: (hostKey ++ ['=', 'x'])) ∧
      ¬∃ ret values,
        getConnstr smallLibpq none ⟨some [], some ['x'], none, none⟩ = some ret ∧
          parse smallLibpq.storeval (fun _ => none) ret = .ok values ∧
            smallLibpq.entries values = smallLibpq.entries
              (wantedValues none ⟨some [], some ['x'], none, none⟩ fun _ => none) := by
  have hret : getConnstr smallLibpq none ⟨some [], some ['x'], none, none⟩ =
      some (dbnameKey ++ '=' :: ' ' :: (hostKey ++ ['=', 'x'])) := by decide
  refine ⟨hret, ?_⟩
  rintro ⟨ret, values, hsome, hparse, hvalues⟩
  rw [hret, Option.some.injEq] at hsome
  subst hsome
  cases hparse
  revert hvalues
  decide

theorem getConnstr_parses_iff_host :
    connstrValues smallLibpq (some ['d']) = some (fun _ => none) ∧
      ((∃ ret values, getConnstr smallLibpq (some ['d']) ⟨none, some ['a', ' '], none, none⟩ =
          some ret ∧ parse smallLibpq.storeval (fun _ => none) ret = .ok values ∧
            smallLibpq.entries values = smallLibpq.entries
              (wantedValues (some ['d']) ⟨none, some ['a', ' '], none, none⟩ fun _ => none)) ↔
        ∀ p ∈ [(dbnameKey, ['d'])], p.2 ≠ []) :=
  ⟨rfl, getConnstr_parses_iff smallLibpq (by decide) (some ['d'])
    ⟨none, some ['a', ' '], none, none⟩ rfl⟩

end Pgactive.InitCopy
