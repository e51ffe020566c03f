import Mathlib.Data.List.DropRight
import Pgactive.CString
import Pgactive.Scanf

/-!
# Array literals

How a server reads an array of texts with one dimension: elements between braces and commas, in
quotes or not. Blanks around an element do not count, a backslash takes the next character as it is,
and the word `NULL` without quotes is a null.
-/

namespace ArrayLiteral

open CString Scanf

abbrev Elem := Option (List Char)

/-! ### The automaton -/

/-- What has been read of the text behind the elements that are complete. -/
inductive State
  | outside
  | started
  | delimited
  /-- The beginning of an element without quotes; each character with whether a backslash was
  before it. -/
  | unquoted (chars : List (Char × Bool))
  /-- The same with a backslash at the end. -/
  | unquotedEscape (chars : List (Char × Bool))
  | quoted (chars : List Char)
  /-- The same with a backslash at the end. -/
  | quotedEscape (chars : List Char)
  /-- An element with both of its quotes. -/
  | completed (chars : List Char)
  | ended
deriving DecidableEq

def isPlain (c : Char) : Bool := !isspace c && !(['{', '}', ',', '"', '\\'].contains c)

def wordElem (word : List Char) : Elem :=
  if strcasecmpEq Char.toLower word ['n', 'u', 'l', 'l'] then none else some word

/-- An element without quotes. Blanks at its end do not count, and a word with a backslash is never
null. -/
def unquotedElem (chars : List (Char × Bool)) : Elem :=
  let chars := chars.rdropWhile fun c => !c.2 && isspace c.1
  if chars.any (·.2) then some (chars.map (·.1)) else wordElem (chars.map (·.1))

def first (c : Char) : Option State :=
  if c = '"' then some (.quoted [])
  else if c = '\\' then some (.unquotedEscape [])
  else if ['{', '}', ','].contains c then none
  else some (.unquoted [(c, false)])

def close (elems : List Elem) (elem : Elem) (c : Char) : Option (List Elem × State) :=
  if c = ',' then some (elems ++ [elem], .delimited)
  else if c = '}' then some (elems ++ [elem], .ended)
  else none

def next : List Elem × State → Char → Option (List Elem × State)
  | (elems, .outside), c =>
    if isspace c then some (elems, .outside) else if c = '{' then some (elems, .started) else none
  | (elems, .started), c =>
    if isspace c then some (elems, .started)
    else if c = '}' then some (elems, .ended)
    else (first c).map fun state => (elems, state)
  | (elems, .delimited), c =>
    if isspace c then some (elems, .delimited) else (first c).map fun state => (elems, state)
  | (elems, .unquoted chars), c =>
    if c = '\\' then some (elems, .unquotedEscape chars)
    else if c = '"' ∨ c = '{' then none
    else if c = ',' ∨ c = '}' then close elems (unquotedElem chars) c
    else some (elems, .unquoted (chars ++ [(c, false)]))
  | (elems, .unquotedEscape chars), c => some (elems, .unquoted (chars ++ [(c, true)]))
  | (elems, .quoted chars), c =>
    if c = '"' then some (elems, .completed chars)
    else if c = '\\' then some (elems, .quotedEscape chars)
    else some (elems, .quoted (chars ++ [c]))
  | (elems, .quotedEscape chars), c => some (elems, .quoted (chars ++ [c]))
  | (elems, .completed chars), c =>
    if isspace c then some (elems, .completed chars) else close elems (some chars) c
  | (elems, .ended), c => if isspace c then some (elems, .ended) else none

/-- `array_in` for a literal with one dimension. -/
def parse (text : List Char) : Option (List Elem) :=
  match text.foldlM next ([], .outside) with
  | some (elems, .ended) => some elems
  | _ => none

/-! ### Writing elements -/

/-- The text is read as an element, at the beginning of the array and behind a comma. -/
def IsItem (text : List Char) (elem : Elem) : Prop :=
  ∀ elems state, state = .started ∨ state = .delimited →
    ∃ state', text.foldlM next (elems, state) = some (elems, state') ∧
      next (elems, state') ',' = some (elems ++ [elem], .delimited) ∧
      next (elems, state') '}' = some (elems ++ [elem], .ended)

def listed {α : Type} (blanks : List Char) (f : α → List Char) : List α → List Char
  | [] => []
  | a :: as => f a ++ as.flatMap fun a => ',' :: (blanks ++ f a)

def braces (text : List Char) : List Char := '{' :: (text ++ ['}'])

theorem foldlM_blanks {blanks : List Char} (h : ∀ c ∈ blanks, isspace c = true)
    (elems : List Elem) :
    blanks.foldlM next (elems, .delimited) = some (elems, .delimited) := by
  induction blanks with
  | nil => rfl
  | cons c blanks ih =>
    have hc : next (elems, .delimited) c = some (elems, .delimited) :=
      if_pos (h c List.mem_cons_self)
    rw [List.foldlM_cons, hc]
    exact ih fun c hmem => h c (List.mem_cons_of_mem _ hmem)

theorem isPlain_iff {c : Char} :
    isPlain c = true ↔ isspace c = false ∧ c ≠ '{' ∧ c ≠ '}' ∧ c ≠ ',' ∧ c ≠ '"' ∧ c ≠ '\\' := by
  simp [isPlain]

theorem foldlM_plain {word : List Char} (h : ∀ c ∈ word, isPlain c = true) (elems : List Elem)
    (chars : List (Char × Bool)) :
    word.foldlM next (elems, .unquoted chars) =
      some (elems, .unquoted (chars ++ word.map fun c => (c, false))) := by
  induction word generalizing chars with
  | nil => simp
  | cons c word ih =>
    obtain ⟨-, hopen, hclose, hcomma, hquote, hbackslash⟩ :=
      isPlain_iff.mp (h c List.mem_cons_self)
    have hc : next (elems, .unquoted chars) c =
        some (elems, .unquoted (chars ++ [(c, false)])) := by
      simp [next, hopen, hclose, hcomma, hquote, hbackslash]
    rw [List.foldlM_cons, hc]
    refine (ih (fun c hmem => h c (List.mem_cons_of_mem _ hmem)) _).trans ?_
    rw [List.map_cons, List.append_assoc, List.singleton_append]

theorem first_plain {c : Char} (h : isPlain c = true) :
    first c = some (.unquoted [(c, false)]) := by
  obtain ⟨-, hopen, hclose, hcomma, hquote, hbackslash⟩ := isPlain_iff.mp h
  simp [first, hopen, hclose, hcomma, hquote, hbackslash]

theorem next_first {c : Char} {state state' : State} (hspace : isspace c = false) (hc : c ≠ '}')
    (hfirst : first c = some state') (hstate : state = .started ∨ state = .delimited)
    (elems : List Elem) : next (elems, state) c = some (elems, state') := by
  rcases hstate with rfl | rfl
  · simp [next, hspace, hc, hfirst]
  · simp [next, hspace, hfirst]

theorem unquotedElem_plain {word : List Char} (h : ∀ c ∈ word, isPlain c = true) :
    unquotedElem (word.map fun c => (c, false)) = wordElem word := by
  have htrim : (word.map fun c => (c, false)).rdropWhile (fun c => !c.2 && isspace c.1) =
      word.map fun c => (c, false) := by
    rw [List.rdropWhile_eq_self_iff]
    intro hne hlast
    obtain ⟨c, hc, heq⟩ := List.mem_map.mp (List.getLast_mem hne)
    rw [← heq, (isPlain_iff.mp (h c hc)).1] at hlast
    cases hlast
  have hany : ((word.map fun c => (c, false)).any fun c => c.2) = false := by simp
  have hfst : (word.map fun c => (c, false)).map (fun c => c.1) = word := by
    rw [List.map_map]
    exact List.map_id word
  rw [unquotedElem, htrim, hany, hfst]
  rfl

theorem isItem_plain {word : List Char} (hne : word ≠ []) (h : ∀ c ∈ word, isPlain c = true) :
    IsItem word (wordElem word) := by
  intro elems state hstate
  cases word with
  | nil => exact absurd rfl hne
  | cons c word =>
    have hc := h c List.mem_cons_self
    obtain ⟨hspace, -, hclose, -⟩ := isPlain_iff.mp hc
    refine ⟨.unquoted ((c :: word).map fun c => (c, false)), ?_, ?_, ?_⟩
    · rw [List.foldlM_cons, next_first hspace hclose (first_plain hc) hstate]
      exact foldlM_plain (fun c hmem => h c (List.mem_cons_of_mem _ hmem)) elems [(c, false)]
    · rw [← unquotedElem_plain h]
      rfl
    · rw [← unquotedElem_plain h]
      rfl

theorem foldlM_quoted {text : List Char} (h : ∀ c ∈ text, c ≠ '"' ∧ c ≠ '\\') (elems : List Elem)
    (chars : List Char) :
    text.foldlM next (elems, .quoted chars) = some (elems, .quoted (chars ++ text)) := by
  induction text generalizing chars with
  | nil => simp
  | cons c text ih =>
    obtain ⟨hquote, hbackslash⟩ := h c List.mem_cons_self
    have hc : next (elems, .quoted chars) c = some (elems, .quoted (chars ++ [c])) := by
      simp [next, hquote, hbackslash]
    rw [List.foldlM_cons, hc]
    refine (ih (fun c hmem => h c (List.mem_cons_of_mem _ hmem)) _).trans ?_
    rw [List.append_assoc, List.singleton_append]

theorem isItem_quoted {text : List Char} (h : ∀ c ∈ text, c ≠ '"' ∧ c ≠ '\\') :
    IsItem ('"' :: (text ++ ['"'])) (some text) := by
  intro elems state hstate
  refine ⟨.completed text, ?_, rfl, rfl⟩
  have hopen : next (elems, state) '"' = some (elems, .quoted []) :=
    next_first rfl (by decide) rfl hstate elems
  rw [List.foldlM_cons, hopen]
  change (text ++ ['"']).foldlM next (elems, .quoted []) = _
  rw [List.foldlM_append, foldlM_quoted h]
  rfl

/-! ### Writing arrays -/

section Listed

variable {α : Type} {blanks : List Char} {f : α → List Char} {g : α → Elem} {as : List α}

theorem foldlM_further (hblanks : ∀ c ∈ blanks, isspace c = true)
    (h : ∀ a ∈ as, IsItem (f a) (g a)) {elems : List Elem} {elem : Elem} {state : State}
    (hcomma : next (elems, state) ',' = some (elems ++ [elem], .delimited))
    (hbrace : next (elems, state) '}' = some (elems ++ [elem], .ended)) :
    ((as.flatMap fun a => ',' :: (blanks ++ f a)) ++ ['}']).foldlM next (elems, state) =
      some (elems ++ elem :: as.map g, .ended) := by
  induction as generalizing elems elem state with
  | nil =>
    rw [List.flatMap_nil, List.nil_append, List.foldlM_cons, hbrace]
    rfl
  | cons a as ih =>
    obtain ⟨state', hitem, hcomma', hbrace'⟩ :=
      h a List.mem_cons_self (elems ++ [elem]) .delimited (.inr rfl)
    rw [List.flatMap_cons, List.cons_append, List.cons_append, List.foldlM_cons, hcomma]
    change (blanks ++ f a ++ _ ++ ['}']).foldlM next (elems ++ [elem], .delimited) = _
    rw [List.append_assoc, List.append_assoc, List.foldlM_append, foldlM_blanks hblanks]
    change (f a ++ _).foldlM next (elems ++ [elem], .delimited) = _
    rw [List.foldlM_append, hitem]
    refine (ih (fun a hmem => h a (List.mem_cons_of_mem _ hmem)) hcomma' hbrace').trans ?_
    rw [List.append_assoc, List.singleton_append, List.map_cons]

theorem parse_listed (hblanks : ∀ c ∈ blanks, isspace c = true)
    (h : ∀ a ∈ as, IsItem (f a) (g a)) :
    parse (braces (listed blanks f as)) = some (as.map g) := by
  have hread : (braces (listed blanks f as)).foldlM next ([], .outside) =
      some (as.map g, .ended) := by
    change (listed blanks f as ++ ['}']).foldlM next ([], .started) = _
    cases as with
    | nil => rfl
    | cons a as =>
      obtain ⟨state, hitem, hcomma, hbrace⟩ := h a List.mem_cons_self [] .started (.inl rfl)
      rw [listed, List.append_assoc, List.foldlM_append, hitem]
      exact foldlM_further hblanks (fun a hmem => h a (List.mem_cons_of_mem _ hmem)) hcomma hbrace
  rw [parse, hread]

end Listed

end ArrayLiteral
