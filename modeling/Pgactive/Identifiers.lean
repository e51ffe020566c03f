import Pgactive.Scanf
import Mathlib.Algebra.GroupWithZero.Nat

/-!
# Lists of SQL identifiers

How a server writes a name into SQL text, in double quotes if the lexer would not read it back
unchanged, and how it reads a list of names: names without quotes are folded to lower case, and a
name that is too long is cut. Names with separators between them are read back; a text without
enough separators is not.
-/

namespace Identifiers

open Scanf (isspace)

/-! ### Writing -/

/-- What a server needs to know to write a name. -/
structure Quoting where
  /-- `quote_all_identifiers`. -/
  quoteAll : Bool
  keyword : List Char → Bool

def isStart (c : Char) : Bool := c.isLower || c = '_'

def isPart (c : Char) : Bool := isStart c || c.isDigit

def Quoting.safe (q : Quoting) (name : List Char) : Bool :=
  name.head?.any isStart && name.all isPart && !q.quoteAll && !q.keyword name

def doubled (name : List Char) : List Char :=
  name.flatMap fun c => if c = '"' then ['"', '"'] else [c]

def Quoting.quoteIdentifier (q : Quoting) (name : List Char) : List Char :=
  if q.safe name then name else '"' :: (doubled name ++ ['"'])

/-! ### Reading -/

/-- What a server needs to know to read a name. -/
structure Reading where
  width : Char → ℕ
  /-- The lower case of a character outside of ASCII, in the locale of the server. -/
  lowerHigh : Char → Char
  lowerHigh_ne_comma : ∀ c, 128 ≤ c.toNat → lowerHigh c ≠ ','

def maxWidth : ℕ := 63

def Reading.clip (r : Reading) : ℕ → List Char → List Char
  | _, [] => []
  | room, c :: name => if r.width c ≤ room then c :: r.clip (room - r.width c) name else []

def Reading.truncateIdentifier (r : Reading) (name : List Char) : List Char := r.clip maxWidth name

def Reading.lowerChar (r : Reading) (c : Char) : Char :=
  if c.isUpper then c.toLower else if 128 ≤ c.toNat then r.lowerHigh c else c

def Reading.downcaseIdentifier (r : Reading) (name : List Char) : List Char :=
  name.map r.lowerChar

def scanQuoted : List Char → Option (List Char × List Char)
  | [] => none
  | '"' :: '"' :: text => (scanQuoted text).map fun found => ('"' :: found.1, found.2)
  | c :: text =>
    if c = '"' then some ([], text)
    else (scanQuoted text).map fun found => (c :: found.1, found.2)

def extendsName (c : Char) : Bool := c ≠ ',' && !isspace c

def Reading.scanUnquoted (r : Reading) (text : List Char) : Option (List Char × List Char) :=
  match text.takeWhile extendsName with
  | [] => none
  | name =>
    some (r.truncateIdentifier (r.downcaseIdentifier name), text.dropWhile extendsName)

def Reading.scanName (r : Reading) : List Char → Option (List Char × List Char)
  | '"' :: text => scanQuoted text
  | text => r.scanUnquoted text

/-! ### What a scanner reads -/

theorem doubled_cons_quote (name : List Char) :
    doubled ('"' :: name) = '"' :: '"' :: doubled name :=
  rfl

theorem doubled_cons {c : Char} (hc : c ≠ '"') (name : List Char) :
    doubled (c :: name) = c :: doubled name := by
  simp [doubled, hc]

theorem doubled_of_ne_quote {name : List Char} (h : ∀ c ∈ name, c ≠ '"') : doubled name = name := by
  induction name with
  | nil => rfl
  | cons c name ih =>
    rw [doubled_cons (h c List.mem_cons_self), ih fun c hc => h c (List.mem_cons_of_mem _ hc)]

theorem scanQuoted_quote {text : List Char} (h : text.head? ≠ some '"') :
    scanQuoted ('"' :: text) = some ([], text) := by
  cases text with
  | nil => rfl
  | cons c text =>
    have hc : c ≠ '"' := by simpa using h
    rw [scanQuoted]
    · rfl
    · simpa using hc

theorem scanQuoted_cons {c : Char} (hc : c ≠ '"') (text : List Char) :
    scanQuoted (c :: text) = (scanQuoted text).map fun found => (c :: found.1, found.2) := by
  rw [scanQuoted, if_neg hc]
  simp [hc]

theorem scanQuoted_eq_some_iff {text name rest : List Char} :
    scanQuoted text = some (name, rest) ↔
      text = doubled name ++ '"' :: rest ∧ rest.head? ≠ some '"' := by
  constructor
  · intro h
    induction text using scanQuoted.induct generalizing name with
    | case1 => cases h
    | case2 text ih =>
      obtain ⟨⟨name', rest'⟩, hfound, heq⟩ := Option.map_eq_some_iff.mp h
      cases heq
      obtain ⟨htext, hrest⟩ := ih hfound
      exact ⟨by rw [htext, doubled_cons_quote]; rfl, hrest⟩
    | case3 text hdouble =>
      have hhead : text.head? ≠ some '"' := by
        intro hhead
        obtain ⟨text', rfl⟩ := List.head?_eq_some_iff.mp hhead
        exact hdouble text' rfl rfl
      rw [scanQuoted_quote hhead] at h
      cases h
      exact ⟨rfl, hhead⟩
    | case4 c text hdouble hc ih =>
      rw [scanQuoted_cons hc] at h
      obtain ⟨⟨name', rest'⟩, hfound, heq⟩ := Option.map_eq_some_iff.mp h
      cases heq
      obtain ⟨htext, hrest⟩ := ih hfound
      exact ⟨by rw [htext, doubled_cons hc]; rfl, hrest⟩
  · rintro ⟨rfl, hrest⟩
    induction name with
    | nil => exact scanQuoted_quote hrest
    | cons c name ih =>
      by_cases hc : c = '"'
      · subst hc
        rw [doubled_cons_quote, List.cons_append, List.cons_append, scanQuoted, ih]
        rfl
      · rw [doubled_cons hc, List.cons_append, scanQuoted_cons hc, ih]
        rfl

theorem count_comma_doubled (name : List Char) : (doubled name).count ',' = name.count ',' := by
  induction name with
  | nil => rfl
  | cons c name ih =>
    by_cases hc : c = '"'
    · subst hc
      rw [doubled_cons_quote, List.count_cons_of_ne (by decide), List.count_cons_of_ne (by decide),
        List.count_cons_of_ne (by decide), ih]
    · rw [doubled_cons hc, List.count_cons, List.count_cons, ih]

theorem count_comma_quoteIdentifier (q : Quoting) (name : List Char) :
    (q.quoteIdentifier name).count ',' = name.count ',' := by
  unfold Quoting.quoteIdentifier
  split_ifs
  · rfl
  · rw [List.count_cons_of_ne (by decide), List.count_append, count_comma_doubled]
    rfl

namespace Reading

variable (r : Reading)

theorem clip_isPrefix (room : ℕ) (name : List Char) : r.clip room name <+: name := by
  induction name generalizing room with
  | nil => exact List.nil_prefix
  | cons c name ih =>
    unfold clip
    split_ifs
    · exact List.cons_prefix_cons.mpr ⟨rfl, ih _⟩
    · exact List.nil_prefix

theorem count_comma_truncateIdentifier (name : List Char) :
    (r.truncateIdentifier name).count ',' ≤ name.count ',' :=
  (r.clip_isPrefix maxWidth name).sublist.count_le _

theorem lowerChar_ne_comma {c : Char} (hc : c ≠ ',') : r.lowerChar c ≠ ',' := by
  unfold lowerChar
  split_ifs with hupper hhigh
  · intro h
    have hlower : c.toLower.val = c.val + 32 :=
      congrArg Char.val (dif_pos (of_decide_eq_true hupper))
    have hval : c.val + 32 = 44 := hlower.symm.trans (congrArg Char.val h)
    have hbounds : 65 ≤ c.val.toNat ∧ c.val.toNat ≤ 90 := of_decide_eq_true hupper
    have hsum := congrArg UInt32.toNat hval
    simp only [UInt32.toNat_add, UInt32.reduceToNat] at hsum
    omega
  · exact r.lowerHigh_ne_comma c hhigh
  · exact hc

theorem count_comma_downcaseIdentifier {name : List Char} (h : ',' ∉ name) :
    (r.downcaseIdentifier name).count ',' = 0 := by
  refine List.count_eq_zero.mpr fun hmem => ?_
  obtain ⟨c, hc, hlower⟩ := List.mem_map.mp hmem
  exact r.lowerChar_ne_comma (fun heq => h (heq ▸ hc)) hlower

theorem scanName_spec {text name rest : List Char} (h : r.scanName text = some (name, rest)) :
    ∃ written, written ≠ [] ∧ text = written ++ rest ∧ name.count ',' ≤ written.count ',' := by
  unfold scanName at h
  split at h
  · next text =>
    obtain ⟨rfl, -⟩ := scanQuoted_eq_some_iff.mp h
    refine ⟨'"' :: (doubled name ++ ['"']), List.cons_ne_nil _ _, by simp, ?_⟩
    rw [List.count_cons_of_ne (by decide), List.count_append, count_comma_doubled]
    omega
  · unfold scanUnquoted at h
    split at h
    · cases h
    · next hne =>
      cases h
      refine ⟨text.takeWhile extendsName, hne, List.takeWhile_append_dropWhile.symm, ?_⟩
      have hcomma : ',' ∉ text.takeWhile extendsName := fun hmem => by
        simpa [extendsName] using List.mem_takeWhile_imp hmem
      calc (r.truncateIdentifier (r.downcaseIdentifier _)).count ','
          ≤ (r.downcaseIdentifier _).count ',' := r.count_comma_truncateIdentifier _
        _ = 0 := r.count_comma_downcaseIdentifier hcomma
        _ ≤ _ := Nat.zero_le _

end Reading

def Reading.splitNames (r : Reading) (text : List Char) : Option (List (List Char)) :=
  match _hname : r.scanName text with
  | none => none
  | some (name, rest) =>
    match _hrest : rest.dropWhile isspace with
    | [] => some [r.truncateIdentifier name]
    | c :: next =>
      if c = ',' then
        (r.splitNames (next.dropWhile isspace)).map (r.truncateIdentifier name :: ·)
      else none
termination_by text.length
decreasing_by
  obtain ⟨written, hne, rfl, -⟩ := r.scanName_spec _hname
  have hwritten := List.length_pos_iff.mpr hne
  have hspace := (List.dropWhile_suffix isspace (l := rest)).length_le
  have hnext := (List.dropWhile_suffix isspace (l := next)).length_le
  rw [_hrest, List.length_cons] at hspace
  rw [List.length_append]
  omega

def Reading.splitIdentifierString (r : Reading) (text : List Char) : Option (List (List Char)) :=
  match text.dropWhile isspace with
  | [] => some []
  | text => r.splitNames text

namespace Reading

variable (r : Reading)

variable {text : List Char} {names : List (List Char)}

theorem splitNames_eq_some_iff :
    r.splitNames text = some names ↔
      ∃ name rest, r.scanName text = some (name, rest) ∧
        ((rest.dropWhile isspace = [] ∧ names = [r.truncateIdentifier name]) ∨
          ∃ next others, rest.dropWhile isspace = ',' :: next ∧
            r.splitNames (next.dropWhile isspace) = some others ∧
            names = r.truncateIdentifier name :: others) := by
  constructor
  · intro h
    rw [splitNames] at h
    split at h
    · cases h
    · next name rest hname =>
      refine ⟨name, rest, hname, ?_⟩
      split at h
      · next hrest => exact .inl ⟨hrest, (Option.some.inj h).symm⟩
      · next c next hrest =>
        split_ifs at h with hc
        obtain ⟨others, hothers, rfl⟩ := Option.map_eq_some_iff.mp h
        exact .inr ⟨next, others, hc ▸ hrest, hothers, rfl⟩
  · rintro ⟨name, rest, hname, h⟩
    rw [splitNames]
    split
    · next hnone => cases hnone.symm.trans hname
    · next name' rest' hname' =>
      cases hname'.symm.trans hname
      obtain ⟨hrest, rfl⟩ | ⟨next, others, hrest, hothers, rfl⟩ := h
      · split
        · rfl
        · next hrest' => cases hrest'.symm.trans hrest
      · split
        · next hrest' => cases hrest'.symm.trans hrest
        · next hrest' =>
          cases hrest'.symm.trans hrest
          rw [if_pos rfl, hothers]
          rfl

theorem count_comma_splitNames (h : r.splitNames text = some names) :
    (names.map (·.count ',')).sum + names.length ≤ text.count ',' + 1 := by
  induction names generalizing text with
  | nil =>
    obtain ⟨name, rest, -, ⟨-, h⟩ | ⟨next, others, -, -, h⟩⟩ := r.splitNames_eq_some_iff.mp h
    all_goals cases h
  | cons first names ih =>
    obtain ⟨name, rest, hname, hbehind⟩ := r.splitNames_eq_some_iff.mp h
    obtain ⟨written, -, rfl, hcount⟩ := r.scanName_spec hname
    have htruncate := r.count_comma_truncateIdentifier name
    rw [List.count_append]
    obtain ⟨-, heq⟩ | ⟨next, others, hrest, hnext, heq⟩ := hbehind
    · cases heq
      simp only [List.map_cons, List.map_nil, List.sum_cons, List.sum_nil, List.length_cons,
        List.length_nil]
      omega
    · cases heq
      have hbehind := (List.dropWhile_suffix isspace (l := rest)).sublist.count_le ','
      have hspace := (List.dropWhile_suffix isspace (l := next)).sublist.count_le ','
      have hothers := ih hnext
      rw [hrest, List.count_cons_self] at hbehind
      simp only [List.map_cons, List.sum_cons, List.length_cons]
      omega

theorem count_comma_splitIdentifierString (h : r.splitIdentifierString text = some names) :
    (names.map (·.count ',')).sum + names.length ≤ text.count ',' + 1 := by
  unfold splitIdentifierString at h
  split at h
  · cases h
    simp
  · have hspace := (List.dropWhile_suffix isspace (l := text)).sublist.count_le ','
    have := r.count_comma_splitNames h
    omega

/-! ### Reading back what was written -/

def Fits (name : List Char) : Prop := (name.map r.width).sum ≤ maxWidth

variable {r}

variable {name : List Char}

theorem clip_eq_self {room : ℕ} (h : (name.map r.width).sum ≤ room) : r.clip room name = name := by
  induction name generalizing room with
  | nil => rfl
  | cons c name ih =>
    rw [List.map_cons, List.sum_cons] at h
    rw [clip, if_pos (by omega), ih (by omega)]

theorem Fits.truncateIdentifier (h : r.Fits name) : r.truncateIdentifier name = name :=
  clip_eq_self h

/-- The text behind a name that was written: it ends or there is a separator. -/
def AtEnd (rest : List Char) : Prop := rest = [] ∨ ∃ next, rest = ',' :: next

variable {c : Char}

theorem isPart_bounds (h : isPart c = true) :
    48 ≤ c.toNat ∧ c.toNat < 128 ∧ (c.toNat < 65 ∨ 90 < c.toNat) := by
  simp only [isPart, isStart, Char.isDigit, Bool.or_eq_true, Bool.and_eq_true,
    decide_eq_true_eq, UInt32.le_iff_toNat_le, ge_iff_le, UInt32.reduceToNat, Char.reduceVal] at h
  have hval : c.toNat = c.val.toNat := rfl
  obtain (h | rfl) | h := h
  · obtain ⟨hge, hle⟩ := (Bool.and_eq_true _ _).mp h
    have hge : 97 ≤ c.val.toNat := of_decide_eq_true hge
    have hle : c.val.toNat ≤ 122 := of_decide_eq_true hle
    omega
  · decide
  · omega

theorem isPart_extendsName (h : isPart c = true) : extendsName c = true := by
  have hbounds := isPart_bounds h
  have hspace : isspace c = false := by
    refine Bool.eq_false_iff.mpr fun hspace => ?_
    simp only [isspace, List.contains_iff_mem, List.mem_cons, List.not_mem_nil, or_false] at hspace
    obtain rfl | rfl | rfl | rfl | rfl | rfl := hspace <;> revert hbounds <;> decide
  have hc : c ≠ ',' := by
    rintro rfl
    revert hbounds
    decide
  simp [extendsName, hc, hspace]

theorem isPart_lowerChar (r : Reading) (h : isPart c = true) : r.lowerChar c = c := by
  have hbounds := isPart_bounds h
  have hupper : ¬c.isUpper = true := by
    intro hupper
    have hval : 65 ≤ c.toNat ∧ c.toNat ≤ 90 := of_decide_eq_true hupper
    omega
  rw [lowerChar, if_neg hupper, if_neg (by omega)]

theorem scanUnquoted_append {rest : List Char} (hne : name ≠ [])
    (hpart : ∀ c ∈ name, isPart c = true) (hname : r.Fits name) (hrest : AtEnd rest) :
    r.scanUnquoted (name ++ rest) = some (name, rest) := by
  have hextends : ∀ c ∈ name, extendsName c = true := fun c hc => isPart_extendsName (hpart c hc)
  have hlower : r.downcaseIdentifier name = name :=
    (List.map_congr_left fun c hc => isPart_lowerChar r (hpart c hc)).trans (List.map_id name)
  have hbehind : rest.takeWhile extendsName = [] ∧ rest.dropWhile extendsName = rest := by
    obtain rfl | ⟨next, rfl⟩ := hrest
    · exact ⟨rfl, rfl⟩
    · exact ⟨rfl, rfl⟩
  unfold scanUnquoted
  rw [List.takeWhile_append_of_pos hextends, List.dropWhile_append_of_pos hextends, hbehind.1,
    hbehind.2, List.append_nil]
  split
  · exact absurd rfl hne
  · rw [hlower, hname.truncateIdentifier]

theorem safe_eq_cons {q : Quoting} (h : q.safe name = true) :
    ∃ first others, name = first :: others ∧ ∀ c ∈ name, isPart c = true := by
  simp only [Quoting.safe, Bool.and_eq_true, List.all_eq_true, Option.any_eq_true] at h
  obtain ⟨⟨⟨⟨first, hfirst, -⟩, hpart⟩, -⟩, -⟩ := h
  obtain ⟨others, heq⟩ := List.head?_eq_some_iff.mp hfirst
  exact ⟨first, others, heq, hpart⟩

theorem scanName_quoteIdentifier (q : Quoting) {rest : List Char} (hname : r.Fits name)
    (hrest : AtEnd rest) : r.scanName (q.quoteIdentifier name ++ rest) = some (name, rest) := by
  unfold Quoting.quoteIdentifier
  split_ifs with hsafe
  · obtain ⟨first, others, rfl, hpart⟩ := safe_eq_cons hsafe
    have hquote : first ≠ '"' := by
      rintro rfl
      exact absurd (hpart _ List.mem_cons_self) (by decide)
    rw [List.cons_append, scanName]
    · exact scanUnquoted_append (List.cons_ne_nil _ _) hpart hname hrest
    · simpa using hquote
  · rw [List.cons_append, List.append_assoc]
    refine scanQuoted_eq_some_iff.mpr ⟨rfl, ?_⟩
    obtain rfl | ⟨next, rfl⟩ := hrest
    · simp
    · simp

theorem exists_quoteIdentifier_eq_cons (q : Quoting) (name : List Char) :
    ∃ c text, q.quoteIdentifier name = c :: text ∧ isspace c = false := by
  unfold Quoting.quoteIdentifier
  split_ifs with hsafe
  · obtain ⟨first, others, rfl, hpart⟩ := safe_eq_cons hsafe
    have hfirst := isPart_extendsName (hpart first List.mem_cons_self)
    simp only [extendsName, Bool.and_eq_true, Bool.not_eq_true'] at hfirst
    exact ⟨first, others, rfl, hfirst.2⟩
  · exact ⟨'"', _, rfl, rfl⟩

def written (q : Quoting) : List (List Char) → List Char
  | [] => []
  | [name] => q.quoteIdentifier name
  | name :: others => q.quoteIdentifier name ++ ',' :: written q others

theorem exists_written_eq_append (q : Quoting) (name : List Char) (others : List (List Char)) :
    ∃ rest, written q (name :: others) = q.quoteIdentifier name ++ rest := by
  cases others with
  | nil => exact ⟨[], (List.append_nil _).symm⟩
  | cons second others => exact ⟨_, rfl⟩

theorem dropWhile_isspace_written (q : Quoting) (names : List (List Char)) :
    (written q names).dropWhile isspace = written q names := by
  cases names with
  | nil => rfl
  | cons name others =>
    obtain ⟨rest, hrest⟩ := exists_written_eq_append q name others
    obtain ⟨c, text, htext, hc⟩ := exists_quoteIdentifier_eq_cons q name
    rw [hrest, htext, List.cons_append, List.dropWhile_cons_of_neg (by simp [hc])]

theorem splitNames_written (q : Quoting) {others : List (List Char)} (hname : r.Fits name)
    (hothers : ∀ other ∈ others, r.Fits other) :
    r.splitNames (written q (name :: others)) = some (name :: others) := by
  induction others generalizing name with
  | nil =>
    have hscan := scanName_quoteIdentifier q hname (.inl rfl)
    rw [List.append_nil] at hscan
    refine r.splitNames_eq_some_iff.mpr ⟨name, [], hscan, .inl ⟨rfl, ?_⟩⟩
    rw [hname.truncateIdentifier]
  | cons second others ih =>
    have hscan := scanName_quoteIdentifier q hname (.inr ⟨written q (second :: others), rfl⟩)
    refine r.splitNames_eq_some_iff.mpr
      ⟨name, _, hscan, .inr ⟨_, second :: others, rfl, ?_, ?_⟩⟩
    · rw [dropWhile_isspace_written]
      exact ih (hothers second List.mem_cons_self) fun other h =>
        hothers other (List.mem_cons_of_mem second h)
    · rw [hname.truncateIdentifier]

theorem splitIdentifierString_written (q : Quoting) (hnames : ∀ name ∈ names, r.Fits name) :
    r.splitIdentifierString (written q names) = some names := by
  unfold splitIdentifierString
  rw [dropWhile_isspace_written]
  cases names with
  | nil => rfl
  | cons name others =>
    obtain ⟨rest, hrest⟩ := exists_written_eq_append q name others
    obtain ⟨c, text, htext, -⟩ := exists_quoteIdentifier_eq_cons q name
    have hsplit := splitNames_written q (hnames name List.mem_cons_self) fun other h =>
      hnames other (List.mem_cons_of_mem name h)
    rw [hrest, htext] at hsplit ⊢
    exact hsplit

end Reading

end Identifiers
