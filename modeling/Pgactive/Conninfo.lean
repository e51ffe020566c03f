import Pgactive.FallibleState
import Pgactive.Scanf

/-!
# Connection strings

A list of records `keyword=value`, with blanks before a keyword and around the `=`. A value in
quotes ends at the next quote, another one at a blank or the end, and a backslash takes the next
character as it is. The client library stores the values of the keywords that it knows; the last
record for a keyword counts.

Quoted values are read back whatever follows. An empty value without quotes is read back only if it
is the last one.
-/

namespace Conninfo

open FallibleState Scanf

abbrev Record := List Char × List Char

inductive Error
  /-- No `=` after the name. -/
  | missingEquals (name : List Char)
  | unterminated
  | invalidName (name : List Char)
deriving DecidableEq

/-! ### Reading -/

def extendsName (c : Char) : Bool := c ≠ '=' && !isspace c

def scanName (text : List Char) : Except Error (List Char × List Char) :=
  match (text.dropWhile extendsName).dropWhile isspace with
  | '=' :: rest => .ok (text.takeWhile extendsName, rest)
  | _ => .error (.missingEquals (text.takeWhile extendsName))

/-- A value without quotes, with what stands behind the blank at its end. After a backslash the next
character is `taken` as it is. -/
def scanPlain (taken : Bool) : List Char → List Char × List Char
  | [] => ([], [])
  | c :: text =>
    if taken then (c :: (scanPlain false text).1, (scanPlain false text).2)
    else if isspace c then ([], text)
    else if c = '\\' then scanPlain true text
    else (c :: (scanPlain false text).1, (scanPlain false text).2)

/-- A value in quotes from behind the first quote, with what stands behind the last one. -/
def scanQuoted (taken : Bool) : List Char → Except Error (List Char × List Char)
  | [] => .error .unterminated
  | c :: text =>
    if taken then (fun found => (c :: found.1, found.2)) <$> scanQuoted false text
    else if c = '\\' then scanQuoted true text
    else if c = '\'' then .ok ([], text)
    else (fun found => (c :: found.1, found.2)) <$> scanQuoted false text

def scanValue (text : List Char) : Except Error (List Char × List Char) :=
  match text.dropWhile isspace with
  | [] => .ok ([], [])
  | c :: text => if c = '\'' then scanQuoted false text else .ok (scanPlain false (c :: text))

section Loop

variable {σ : Type}

def parseLoop (store : σ → Record → Except Error σ) : ℕ → σ → List Char → Except Error σ
  | 0, s, _ => .ok s
  | fuel + 1, s, text =>
    match text.dropWhile isspace with
    | [] => .ok s
    | c :: text => do
      let (name, text) ← scanName (c :: text)
      let (value, text) ← scanValue text
      let s ← store s (name, value)
      parseLoop store fuel s text

def parse (store : σ → Record → Except Error σ) (s : σ) (text : List Char) : Except Error σ :=
  parseLoop store text.length s text

end Loop

/-! ### What is read -/

/-- The string reads as these records. -/
inductive Reads : List Char → List Record → Prop
  | nil {text : List Char} (h : text.dropWhile isspace = []) : Reads text []
  | cons {text text₁ text₂ name value : List Char} {records : List Record}
      (hname : scanName (text.dropWhile isspace) = .ok (name, text₁))
      (hvalue : scanValue text₁ = .ok (value, text₂)) (hrest : Reads text₂ records) :
      Reads text ((name, value) :: records)

variable {c : Char}

theorem extendsName_of_isspace (h : isspace c = true) : extendsName c = false := by
  simp [extendsName, h]

theorem isspace_of_extendsName (h : extendsName c = true) : isspace c = false := by
  cases hc : isspace c with
  | false => rfl
  | true =>
    rw [extendsName_of_isspace hc] at h
    cases h

variable {text name rest : List Char}

theorem scanName_eq_ok_iff :
    scanName text = .ok (name, rest) ↔
      (∀ c ∈ name, extendsName c = true) ∧
        ∃ blanks, (∀ c ∈ blanks, isspace c = true) ∧ text = name ++ (blanks ++ '=' :: rest) := by
  unfold scanName
  constructor
  · intro h
    split at h
    · next hrest =>
      cases h
      refine ⟨fun c hc => List.mem_takeWhile_imp hc,
        (text.dropWhile extendsName).takeWhile isspace, fun c hc => List.mem_takeWhile_imp hc, ?_⟩
      rw [← hrest, List.takeWhile_append_dropWhile, List.takeWhile_append_dropWhile]
    · cases h
  · rintro ⟨hname, blanks, hblanks, rfl⟩
    have hstop : ∀ c ∈ (blanks ++ '=' :: rest).head?, extendsName c = false := by
      intro c hc
      cases blanks with
      | nil =>
        cases hc
        decide
      | cons b blanks =>
        obtain rfl : b = c := by simpa using hc
        exact extendsName_of_isspace (hblanks b List.mem_cons_self)
    have hequals : ∀ c ∈ ('=' :: rest).head?, isspace c = false := by
      intro c hc
      cases hc
      decide
    obtain ⟨htake, hdrop⟩ := span_append hname hstop
    rw [htake, hdrop, (span_append hblanks hequals).2]
    rfl

theorem scanPlain_suffix (taken : Bool) (text : List Char) :
    (scanPlain taken text).2 <:+ text := by
  induction text generalizing taken with
  | nil => exact List.nil_suffix
  | cons c text ih =>
    have hstep : ∀ taken, (scanPlain taken text).2 <:+ c :: text :=
      fun taken => (ih taken).trans (List.suffix_cons c text)
    rw [scanPlain]
    split_ifs
    · exact hstep false
    · exact List.suffix_cons c text
    · exact hstep true
    · exact hstep false

variable {value : List Char}

theorem scanQuoted_suffix {taken : Bool} (h : scanQuoted taken text = .ok (value, rest)) :
    rest <:+ text := by
  induction text generalizing taken value with
  | nil => cases h
  | cons c text ih =>
    rw [scanQuoted] at h
    split_ifs at h
    · obtain ⟨found, hfound, hpair⟩ := except_map_eq_ok.mp h
      cases hpair
      exact (ih hfound).trans (List.suffix_cons c text)
    · exact (ih h).trans (List.suffix_cons c text)
    · cases h
      exact List.suffix_cons c _
    · obtain ⟨found, hfound, hpair⟩ := except_map_eq_ok.mp h
      cases hpair
      exact (ih hfound).trans (List.suffix_cons c text)

theorem scanValue_suffix (h : scanValue text = .ok (value, rest)) : rest <:+ text := by
  unfold scanValue at h
  have hdrop := List.dropWhile_suffix (l := text) isspace
  cases htext : text.dropWhile isspace with
  | nil =>
    rw [htext] at h
    cases h
    exact List.nil_suffix
  | cons c cs =>
    rw [htext] at h hdrop
    dsimp only at h
    refine List.IsSuffix.trans ?_ hdrop
    split_ifs at h
    · exact (scanQuoted_suffix h).trans (List.suffix_cons c cs)
    · obtain rfl : (scanPlain false (c :: cs)).2 = rest := congrArg Prod.snd (Except.ok.inj h)
      exact scanPlain_suffix _ _

theorem record_suffix {text₁ text₂ : List Char}
    (hname : scanName (text.dropWhile isspace) = .ok (name, text₁))
    (hvalue : scanValue text₁ = .ok (value, text₂)) :
    text₂ <:+ text ∧ text₂.length < text.length := by
  obtain ⟨-, blanks, -, hsplit⟩ := scanName_eq_ok_iff.mp hname
  have hsuffix : '=' :: text₁ <:+ text := by
    refine List.IsSuffix.trans ?_ (List.dropWhile_suffix isspace)
    rw [hsplit, ← List.append_assoc]
    exact List.suffix_append _ _
  have hrest := scanValue_suffix hvalue
  have hlength := hsuffix.length_le
  have hrestLength := hrest.length_le
  rw [List.length_cons] at hlength
  exact ⟨(hrest.trans (List.suffix_cons _ _)).trans hsuffix, by omega⟩

section Loop

variable {σ : Type} {store : σ → Record → Except Error σ} {s s' : σ} {text : List Char}

theorem parseLoop_of_reads {records : List Record} (hreads : Reads text records) {fuel : ℕ}
    (hfuel : text.length ≤ fuel) : parseLoop store fuel s text = records.foldlM store s := by
  induction hreads generalizing s fuel with
  | nil hblank =>
    cases fuel with
    | zero => rfl
    | succ fuel =>
      rw [parseLoop, hblank]
      rfl
  | @cons text text₁ text₂ name value records hname hvalue hrest ih =>
    have hlength := (record_suffix hname hvalue).2
    obtain ⟨fuel, rfl⟩ : ∃ n, fuel = n + 1 := ⟨fuel - 1, by omega⟩
    rw [parseLoop]
    cases htext : text.dropWhile isspace with
    | nil =>
      rw [htext] at hname
      cases hname
    | cons c cs =>
      rw [htext] at hname
      dsimp only
      rw [hname]
      change (scanValue text₁ >>= fun found => store s (name, found.1) >>= fun s₁ =>
        parseLoop store fuel s₁ found.2) = _
      rw [hvalue, List.foldlM_cons]
      exact bind_congr fun s₁ => ih (by omega)

theorem exists_reads_of_parseLoop {fuel : ℕ} (hfuel : text.length ≤ fuel)
    (h : parseLoop store fuel s text = .ok s') : ∃ records, Reads text records := by
  induction fuel generalizing s text with
  | zero =>
    obtain rfl : text = [] := List.length_eq_zero_iff.mp (by omega)
    exact ⟨[], .nil rfl⟩
  | succ fuel ih =>
    rw [parseLoop] at h
    cases htext : text.dropWhile isspace with
    | nil => exact ⟨[], .nil htext⟩
    | cons c cs =>
      rw [htext] at h
      obtain ⟨⟨name, text₁⟩, hname, h⟩ := except_bind_eq_ok.mp h
      obtain ⟨⟨value, text₂⟩, hvalue, h⟩ := except_bind_eq_ok.mp h
      obtain ⟨s₁, -, h⟩ := except_bind_eq_ok.mp h
      rw [← htext] at hname
      have hlength := (record_suffix hname hvalue).2
      obtain ⟨records, hreads⟩ := ih (by omega) h
      exact ⟨_, .cons hname hvalue hreads⟩

theorem parse_of_reads {records : List Record} (hreads : Reads text records) :
    parse store s text = records.foldlM store s :=
  parseLoop_of_reads hreads le_rfl

theorem parse_eq_ok_iff :
    parse store s text = .ok s' ↔
      ∃ records, Reads text records ∧ records.foldlM store s = .ok s' := by
  constructor
  · intro h
    obtain ⟨records, hreads⟩ := exists_reads_of_parseLoop le_rfl h
    exact ⟨records, hreads, parse_of_reads (s := s) hreads ▸ h⟩
  · rintro ⟨records, hreads, h⟩
    rw [parse_of_reads hreads, h]

end Loop

variable {records : List Record}

theorem Reads.unique {records' : List Record} (h : Reads text records) (h' : Reads text records') :
    records = records' := by
  induction h generalizing records' with
  | nil hblank =>
    cases h' with
    | nil => rfl
    | cons hname =>
      rw [hblank] at hname
      cases hname
  | cons hname hvalue hrest ih =>
    cases h' with
    | nil hblank =>
      rw [hblank] at hname
      cases hname
    | cons hname' hvalue' hrest' =>
      rw [hname] at hname'
      cases hname'
      rw [hvalue] at hvalue'
      cases hvalue'
      rw [ih hrest']

/-! ### Writing -/

def escape (value : List Char) : List Char :=
  value.flatMap fun c => if c = '\\' ∨ c = '\'' then ['\\', c] else [c]

theorem escape_cons_special (hc : c = '\\' ∨ c = '\'') (value : List Char) :
    escape (c :: value) = '\\' :: c :: escape value := by
  simp [escape, hc]

theorem escape_cons_other (hc : ¬(c = '\\' ∨ c = '\'')) (value : List Char) :
    escape (c :: value) = c :: escape value := by
  simp [escape, hc]

theorem scanQuoted_escape (value rest : List Char) :
    scanQuoted false (escape value ++ '\'' :: rest) = .ok (value, rest) := by
  induction value with
  | nil => rfl
  | cons c value ih =>
    by_cases hc : c = '\\' ∨ c = '\''
    · have htaken : scanQuoted true (c :: (escape value ++ '\'' :: rest)) =
          .ok (c :: value, rest) := by
        rw [scanQuoted, if_pos rfl, ih]
        rfl
      rw [escape_cons_special hc, List.cons_append, List.cons_append]
      exact htaken
    · rw [escape_cons_other hc, List.cons_append, scanQuoted, if_neg Bool.false_ne_true,
        if_neg fun h => hc (.inl h), if_neg fun h => hc (.inr h), ih]
      rfl

theorem scanValue_quoted (value rest : List Char) :
    scanValue ('\'' :: (escape value ++ '\'' :: rest)) = .ok (value, rest) := by
  have hdrop : ('\'' :: (escape value ++ '\'' :: rest)).dropWhile isspace =
      '\'' :: (escape value ++ '\'' :: rest) := List.dropWhile_cons_of_neg (by decide)
  exact scanQuoted_escape value rest

/-- The character is not one that ends a value or changes how it is read. -/
def isPlain (c : Char) : Bool := !isspace c && c ≠ '\\' && c ≠ '\''

theorem isPlain_iff : isPlain c = true ↔ isspace c = false ∧ c ≠ '\\' ∧ c ≠ '\'' := by
  simp [isPlain, and_assoc]

theorem scanPlain_append (hvalue : ∀ c ∈ value, isPlain c = true) :
    scanPlain false (value ++ rest) =
      (value ++ (scanPlain false rest).1, (scanPlain false rest).2) := by
  induction value with
  | nil => rfl
  | cons c value ih =>
    obtain ⟨hc, hvalue⟩ := List.forall_mem_cons.mp hvalue
    obtain ⟨hblank, hback, -⟩ := isPlain_iff.mp hc
    rw [List.cons_append, scanPlain, if_neg Bool.false_ne_true, if_neg (by simp [hblank]),
      if_neg hback, ih hvalue]
    rfl

theorem scanValue_plain (hne : value ≠ []) (hvalue : ∀ c ∈ value, isPlain c = true)
    (hrest : (scanPlain false rest).1 = []) :
    scanValue (value ++ rest) = .ok (value, (scanPlain false rest).2) := by
  have hscan : scanPlain false (value ++ rest) =
      (value ++ (scanPlain false rest).1, (scanPlain false rest).2) := scanPlain_append hvalue
  obtain ⟨c, cs, rfl⟩ := List.exists_cons_of_ne_nil hne
  obtain ⟨hblank, -, hquote⟩ := isPlain_iff.mp (hvalue c List.mem_cons_self)
  rw [List.cons_append] at hscan ⊢
  rw [scanValue, List.dropWhile_cons_of_neg (by simp [hblank])]
  dsimp only
  rw [if_neg hquote, hscan, hrest, List.append_nil]

theorem reads_blank_iff {b : Char} (hb : isspace b = true) :
    Reads (b :: text) records ↔ Reads text records := by
  have hdrop : (b :: text).dropWhile isspace = text.dropWhile isspace :=
    List.dropWhile_cons_of_pos hb
  constructor
  · intro h
    cases h with
    | nil h => exact .nil (hdrop ▸ h)
    | cons hname hvalue hrest => exact .cons (hdrop ▸ hname) hvalue hrest
  · intro h
    cases h with
    | nil h => exact .nil (hdrop.trans h)
    | cons hname hvalue hrest => exact .cons (hdrop ▸ hname) hvalue hrest

theorem reads_name_iff (hname : ∀ c ∈ name, extendsName c = true) :
    Reads (name ++ '=' :: rest) records ↔
      ∃ value rest' records', scanValue rest = .ok (value, rest') ∧ Reads rest' records' ∧
        records = (name, value) :: records' := by
  have hdrop : (name ++ '=' :: rest).dropWhile isspace = name ++ '=' :: rest := by
    refine (@span_append _ isspace [] (by simp) fun c hc => ?_).2
    cases name with
    | nil =>
      cases hc
      decide
    | cons d name =>
      cases hc
      exact isspace_of_extendsName (hname _ List.mem_cons_self)
  have hscan : scanName (name ++ '=' :: rest) = .ok (name, rest) :=
    scanName_eq_ok_iff.mpr ⟨hname, [], by simp, rfl⟩
  constructor
  · intro h
    cases h with
    | nil hblank =>
      rw [hdrop] at hblank
      simp at hblank
    | cons hname' hvalue hrest =>
      rw [hdrop, hscan] at hname'
      cases hname'
      exact ⟨_, _, _, hvalue, hrest, rfl⟩
  · rintro ⟨value, rest', records', hvalue, hrest, rfl⟩
    exact .cons (by rw [hdrop, hscan]) hvalue hrest

/-! ### Values that are empty -/

theorem scanQuoted_eq_nil (h : scanQuoted false text = .ok ([], rest)) : text = '\'' :: rest := by
  have htaken : ∀ text, scanQuoted true text ≠ .ok ([], rest) := by
    intro text htext
    cases text with
    | nil => cases htext
    | cons c text =>
      obtain ⟨found, -, hpair⟩ := except_map_eq_ok.mp htext
      cases hpair
  cases text with
  | nil => cases h
  | cons c text =>
    rw [scanQuoted, if_neg Bool.false_ne_true] at h
    split_ifs at h with hback hquote
    · exact absurd h (htaken text)
    · cases h
      rw [hquote]
    · obtain ⟨found, -, hpair⟩ := except_map_eq_ok.mp h
      cases hpair

theorem scanPlain_eq_nil (hc : isspace c = false) (h : (scanPlain false (c :: text)).1 = []) :
    c :: text = ['\\'] := by
  rw [scanPlain, if_neg Bool.false_ne_true, if_neg (by simp [hc])] at h
  split_ifs at h with hback
  · cases text with
    | nil => rw [hback]
    | cons d text => cases h

theorem scanValue_eq_nil (h : scanValue text = .ok ([], rest)) :
    (∀ c ∈ text, isspace c = true) ∨
      (∃ blanks, (∀ c ∈ blanks, isspace c = true) ∧ text = blanks ++ '\'' :: '\'' :: rest) ∨
      text.getLast? = some '\\' := by
  have hsplit : text.takeWhile isspace ++ text.dropWhile isspace = text :=
    List.takeWhile_append_dropWhile
  unfold scanValue at h
  cases htext : text.dropWhile isspace with
  | nil => exact .inl fun c hc => List.dropWhile_eq_nil_iff.mp htext c hc
  | cons c cs =>
    rw [htext] at h hsplit
    dsimp only at h
    have hc : isspace c = false := by
      have := List.head?_dropWhile_not isspace text
      rw [htext] at this
      simpa using this
    split_ifs at h with hquote
    · subst hquote
      refine .inr (.inl ⟨text.takeWhile isspace, fun c hc => List.mem_takeWhile_imp hc, ?_⟩)
      rw [← scanQuoted_eq_nil h, hsplit]
    · refine .inr (.inr ?_)
      have hvalue := congrArg Prod.fst (Except.ok.inj h)
      rw [← hsplit, scanPlain_eq_nil hc hvalue]
      simp

theorem Reads.empty_value {whole : List Char} (h : Reads text records) (hsuffix : text <:+ whole)
    (hmem : (name, []) ∈ records) :
    (∃ blanks, (∀ c ∈ blanks, isspace c = true) ∧ name ++ (blanks ++ ['=']) <:+ whole) ∨
      (∃ before c after, whole = before ++ c :: '\'' :: '\'' :: after ∧ c ≠ '\\') ∨
      ∃ c, whole.getLast? = some c ∧ (c = '\\' ∨ isspace c = true) := by
  induction h with
  | nil => cases hmem
  | @cons text text₁ text₂ name' value records hname hvalue hrest ih =>
    rcases List.mem_cons.mp hmem with hrecord | hmem
    · cases hrecord
      obtain ⟨-, blanks, hblanks, hsplit⟩ := scanName_eq_ok_iff.mp hname
      have hwhole : name ++ (blanks ++ '=' :: text₁) <:+ whole := by
        rw [← hsplit]
        exact (List.dropWhile_suffix isspace).trans hsuffix
      rcases scanValue_eq_nil hvalue with hblank | ⟨blanks', hspaces, rfl⟩ | hback
      · rcases List.eq_nil_or_concat text₁ with rfl | ⟨init, c, rfl⟩
        · exact .inl ⟨blanks, hblanks, hwhole⟩
        · refine .inr (.inr ⟨c, ?_, .inr (hblank c (by simp))⟩)
          obtain ⟨before, rfl⟩ := hwhole
          simp [List.getLast?_cons]
      · refine .inr (.inl ?_)
        obtain ⟨before, rfl⟩ := hwhole
        -- the character before the quotes is a blank or the `=`
        rcases List.eq_nil_or_concat blanks' with rfl | ⟨init, c, rfl⟩
        · exact ⟨before ++ name ++ blanks, '=', text₂, by simp, by decide⟩
        · refine ⟨before ++ name ++ blanks ++ '=' :: init, c, text₂, by simp, ?_⟩
          rintro rfl
          exact absurd (hspaces '\\' (by simp)) (by decide)
      · refine .inr (.inr ⟨'\\', ?_, .inl rfl⟩)
        obtain ⟨before, rfl⟩ := hwhole
        rw [List.getLast?_append, List.getLast?_append, List.getLast?_append, List.getLast?_cons,
          hback]
        rfl
    · exact ih ((record_suffix hname hvalue).1.trans hsuffix) hmem

/-! ### The client library -/

/-- The values of the keywords, `none` if there is none. -/
abbrev Values := List Char → Option (List Char)

/-- An option that the client library knows. -/
structure Keyword where
  keyword : List Char
  /-- How a client should show the value: `*` if it is secret, `D` for debug options. -/
  dispchar : List Char
deriving DecidableEq

def isKeywordChar (c : Char) : Bool := c.isLower || c.isDigit || c = '_'

theorem ne_of_mem_of_all_not {p : Char → Bool} {c : Char} {s : List Char} (hc : p c = true)
    (hs : s.all (!p ·) = true) : ∀ d ∈ s, c ≠ d := by
  rintro d hd rfl
  have := List.all_eq_true.mp hs c hd
  simp [hc] at this

theorem extendsName_of_isKeywordChar (h : isKeywordChar c = true) : extendsName c = true := by
  have hne : ∀ d ∈ ['=', ' ', '\t', '\n', '\x0b', '\x0c', '\r'], c ≠ d :=
    ne_of_mem_of_all_not h (by decide)
  simp [extendsName, isspace, hne]

/-- The client library. -/
structure Libpq where
  /-- `PQconndefaults`. -/
  options : List Keyword
  nodup : (options.map Keyword.keyword).Nodup
  chars : ∀ o ∈ options, ∀ c ∈ o.keyword, isKeywordChar c = true
  uri : List Char → Option Values

def uriPrefixes : List (List Char) :=
  [['p', 'o', 's', 't', 'g', 'r', 'e', 's', 'q', 'l', ':', '/', '/'],
    ['p', 'o', 's', 't', 'g', 'r', 'e', 's', ':', '/', '/']]

def isUri (text : List Char) : Bool := uriPrefixes.any (·.isPrefixOf text)

theorem isUri_name (hname : ∀ c ∈ name, isKeywordChar c = true) (rest : List Char) :
    isUri (name ++ '=' :: rest) = false := by
  have hprefixes : ∀ p ∈ uriPrefixes, ':' ∈ p ∧ '=' ∉ p := by decide
  refine Bool.eq_false_iff.mpr fun huri => ?_
  obtain ⟨p, hp, hprefix⟩ := List.any_eq_true.mp huri
  obtain ⟨hcolon, hequals⟩ := hprefixes p hp
  obtain ⟨more, hmore⟩ := List.isPrefixOf_iff_prefix.mp hprefix
  rcases List.append_eq_append_iff.mp hmore with ⟨part, rfl, -⟩ | ⟨part, rfl, hpart⟩
  · exact absurd (hname ':' (List.mem_append_left _ hcolon)) (by decide)
  · cases part with
    | nil =>
      rw [List.append_nil] at hcolon
      exact absurd (hname ':' hcolon) (by decide)
    | cons c part =>
      rw [List.cons_append, List.cons.injEq] at hpart
      rw [← hpart.1] at hequals
      exact hequals (List.mem_append_right name List.mem_cons_self)

namespace Libpq

variable (pq : Libpq)

def known (name : List Char) : Bool := pq.options.any (·.keyword = name)

def storeval (values : Values) (r : Record) : Except Error Values :=
  if pq.known r.1 then .ok (Function.update values r.1 (some r.2)) else .error (.invalidName r.1)

/-- `PQconninfoParse`: the values in the string, without defaults. -/
def conninfoParse (text : List Char) : Option Values :=
  if isUri text then pq.uri text
  else
    match parse pq.storeval (fun _ => none) text with
    | .ok values => some values
    | .error _ => none

def entries (values : Values) : List (List Char × Option (List Char)) :=
  pq.options.map fun o => (o.keyword, values o.keyword)

end Libpq

def stored (values : Values) (records : List Record) : Values :=
  records.foldl (fun values r => Function.update values r.1 (some r.2)) values

section Stored

variable {pq : Libpq} {values values' : Values} {records : List Record} {name value : List Char}

theorem Libpq.known_iff : pq.known name = true ↔ name ∈ pq.options.map Keyword.keyword := by
  simp [known]

theorem Libpq.isKeywordChar_of_known (h : pq.known name = true) :
    ∀ c ∈ name, isKeywordChar c = true := by
  obtain ⟨o, ho, rfl⟩ := List.mem_map.mp (known_iff.mp h)
  exact pq.chars o ho

theorem Libpq.entries_eq_iff (pq : Libpq) {values values' : Values} :
    pq.entries values = pq.entries values' ↔
      ∀ k, pq.known k = true → values k = values' k := by
  simp [entries, known]

theorem foldlM_storeval :
    records.foldlM pq.storeval values = .ok values' ↔
      (∀ r ∈ records, pq.known r.1 = true) ∧ stored values records = values' := by
  induction records generalizing values with
  | nil => simp [stored, pure, Except.pure]
  | cons r records ih =>
    rw [foldlM_cons_eq_ok, List.forall_mem_cons]
    simp only [ih, Libpq.storeval]
    by_cases hr : pq.known r.1 = true
    · simp [hr, stored]
    · simp [hr]

theorem stored_of_notMem (h : name ∉ records.map Prod.fst) :
    stored values records name = values name := by
  induction records generalizing values with
  | nil => rfl
  | cons r records ih =>
    rw [List.map_cons, List.mem_cons, not_or] at h
    exact (ih h.2).trans (Function.update_of_ne h.1 _ _)

theorem stored_of_mem (hnodup : (records.map Prod.fst).Nodup) (h : (name, value) ∈ records) :
    stored values records name = some value := by
  induction records generalizing values with
  | nil => cases h
  | cons r records ih =>
    rw [List.map_cons, List.nodup_cons] at hnodup
    rcases List.mem_cons.mp h with rfl | h
    · exact (stored_of_notMem hnodup.1).trans (Function.update_self _ _ _)
    · exact ih hnodup.2 h

theorem stored_eq_some (h : stored values records name = some value) :
    (name, value) ∈ records ∨ values name = some value := by
  induction records generalizing values with
  | nil => exact .inr h
  | cons r records ih =>
    rw [stored, List.foldl_cons] at h
    rcases ih h with hmem | hbefore
    · exact .inl (List.mem_cons_of_mem r hmem)
    · by_cases hname : name = r.1
      · subst hname
        rw [Function.update_self, Option.some.injEq] at hbefore
        rw [← hbefore]
        exact .inl List.mem_cons_self
      · rw [Function.update_of_ne hname] at hbefore
        exact .inr hbefore

theorem Libpq.conninfoParse_eq_some {text : List Char} (huri : isUri text = false) :
    pq.conninfoParse text = some values ↔
      ∃ records, Reads text records ∧ (∀ r ∈ records, pq.known r.1 = true) ∧
        stored (fun _ => none) records = values := by
  simp only [← foldlM_storeval, ← parse_eq_ok_iff]
  rw [conninfoParse, if_neg (by simp [huri])]
  cases parse pq.storeval (fun _ => none) text with
  | ok values' => simp
  | error e => simp

end Stored

end Conninfo
