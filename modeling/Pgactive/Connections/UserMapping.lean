import Pgactive.Conninfo
import Pgactive.CString
import Pgactive.Ddl.SearchPath

/-!
# Connection strings from user mappings

A connection string may name a user mapping and a foreign server instead. `user_mapping_parse` reads
the two names and `get_connect_string` builds a string from the options, every value in quotes. The
names are compared only as far as they go, and nobody looks whether both were given.
-/

namespace Pgactive.Connections

open Conninfo Identifiers CString FallibleState

/-! ### The two names -/

def userMappingKey : List Char := ['u', 's', 'e', 'r', '_', 'm', 'a', 'p', 'p', 'i', 'n', 'g']

def foreignServerKey : List Char :=
  ['p', 'g', 'a', 'c', 't', 'i', 'v', 'e', '_', 'f', 'o', 'r', 'e', 'i', 'g', 'n', '_',
    's', 'e', 'r', 'v', 'e', 'r']

/-- What `user_mapping_parse` sets, `none` for a name that it leaves unset. -/
structure MappingNames where
  usermapping : Option (List Char)
  foreignserver : Option (List Char)
deriving DecidableEq

variable (r : Reading)

def storeName (names : MappingNames) (record : Record) : Except Error MappingNames :=
  if strncasecmpEq r.lowerChar 12 record.1 userMappingKey then
    .ok { names with usermapping := some (r.truncateIdentifier record.2) }
  else if strncasecmpEq r.lowerChar 23 record.1 foreignServerKey then
    .ok { names with foreignserver := some (r.truncateIdentifier record.2) }
  else .error (.invalidName record.1)

/-- `user_mapping_parse`, which reads the records as the client library does. -/
def userMappingParse (usermappinginfo : List Char) : Except Error MappingNames :=
  parse (storeName r) ⟨none, none⟩ usermappinginfo

/-! ### The options -/

/-- The object that an option belongs to. -/
inductive Context
  | foreignDataWrapper
  | foreignServer
  | userMapping
deriving DecidableEq

def clientEncodingKey : List Char :=
  ['c', 'l', 'i', 'e', 'n', 't', '_', 'e', 'n', 'c', 'o', 'd', 'i', 'n', 'g']

def userOption : List Char := ['u', 's', 'e', 'r']

variable (pq : Libpq)

def isValidDsnOption (option : List Char) (context : Context) : Bool :=
  match pq.options.find? (·.keyword = option) with
  | none => false
  | some opt =>
    if opt.dispchar.contains 'D' then false
    else if opt.keyword = clientEncodingKey then false
    else if opt.keyword = userOption || opt.dispchar.contains '*' then context = .userMapping
    else context = .foreignServer

abbrev escapeParamStr : List Char → List Char := escape

def optionText (option : Record) : List Char :=
  option.1 ++ '=' :: '\'' :: (escapeParamStr option.2 ++ ['\'', ' '])

def optionsText (context : Context) (options : List Record) : List Char :=
  options.flatMap fun option =>
    if isValidDsnOption pq option.1 context then optionText option else []

def connectText (fdw server mapping : List Record) : List Char :=
  optionsText pq .foreignDataWrapper fdw ++ optionsText pq .foreignServer server ++
    optionsText pq .userMapping mapping

/-! ### The catalogs -/

structure ForeignDataWrapper where
  fdwname : List Char
  options : List Record

structure ForeignServer where
  srvname : List Char
  fdw : ForeignDataWrapper
  options : List Record

structure UserMapping where
  usename : List Char
  srvname : List Char
  umuser : ℕ
  options : List Record

structure ForeignCatalog where
  servers : List ForeignServer
  mappings : List UserMapping
  usage : ℕ → List Char → Bool

def pgactiveFdw : List Char := ['p', 'g', 'a', 'c', 't', 'i', 'v', 'e', '_', 'f', 'd', 'w']

inductive ConnectError
  | syntaxError (e : Error)
  | unsetName
  | notPgactiveFdw (fsname : List Char)
  | noUserMapping
  | noUsage (srvname : List Char)
deriving DecidableEq

def mappingText (cat : ForeignCatalog) (server : ForeignServer) :
    Option (List Char) → Except ConnectError (List Char)
  | none => .error .unsetName
  | some umname =>
    match cat.mappings.find? fun m => m.usename = umname && m.srvname = server.srvname with
    | none => .error .noUserMapping
    | some m =>
      if cat.usage m.umuser server.srvname then
        .ok (connectText pq server.fdw.options server.options m.options)
      else .error (.noUsage server.srvname)

def serverText (cat : ForeignCatalog) (names : MappingNames) :
    Except ConnectError (List Char) :=
  match names.foreignserver with
  | none => .error .unsetName
  | some fsname =>
    match cat.servers.find? fun s => s.fdw.fdwname = pgactiveFdw && s.srvname = fsname with
    | none => .error (.notPgactiveFdw fsname)
    | some server => mappingText pq cat server names.usermapping

def getConnectString (cat : ForeignCatalog) (usermappinginfo : List Char) :
    Except ConnectError (Option (List Char)) :=
  match pq.conninfoParse usermappinginfo with
  | some _ => .ok none
  | none =>
    match userMappingParse r usermappinginfo with
    | .error e => .error (.syntaxError e)
    | .ok names => some <$> serverText pq cat names

/-! ### Reading the options back -/

def acceptedOptions (context : Context) (options : List Record) : List Record :=
  options.filter fun option => isValidDsnOption pq option.1 context

def connectOptions (fdw server mapping : List Record) : List Record :=
  acceptedOptions pq .foreignDataWrapper fdw ++ acceptedOptions pq .foreignServer server ++
    acceptedOptions pq .userMapping mapping

theorem optionsText_eq (context : Context) (options : List Record) :
    optionsText pq context options = (acceptedOptions pq context options).flatMap optionText := by
  induction options with
  | nil => rfl
  | cons option options ih =>
    rw [optionsText, List.flatMap_cons, acceptedOptions, List.filter_cons]
    split_ifs with hvalid
    · rw [List.flatMap_cons]
      exact congrArg _ ih
    · exact ih

theorem connectText_eq (fdw server mapping : List Record) :
    connectText pq fdw server mapping =
      (connectOptions pq fdw server mapping).flatMap optionText := by
  simp only [connectText, connectOptions, optionsText_eq, List.flatMap_append]

variable {r pq}

theorem known_of_isValidDsnOption {option : List Char} {context : Context}
    (h : isValidDsnOption pq option context = true) : pq.known option = true := by
  unfold isValidDsnOption at h
  cases hfind : pq.options.find? (·.keyword = option) with
  | none =>
    rw [hfind] at h
    cases h
  | some opt =>
    have hkeyword := List.find?_some hfind
    exact List.any_eq_true.mpr ⟨opt, List.mem_of_find?_eq_some hfind, hkeyword⟩

theorem known_of_mem_connectOptions {fdw server mapping : List Record} {option : Record}
    (h : option ∈ connectOptions pq fdw server mapping) : pq.known option.1 = true := by
  simp only [connectOptions, acceptedOptions, List.mem_append, List.mem_filter] at h
  rcases h with (h | h) | h
  · exact known_of_isValidDsnOption h.2
  · exact known_of_isValidDsnOption h.2
  · exact known_of_isValidDsnOption h.2

theorem reads_optionText {options : List Record}
    (hnames : ∀ option ∈ options, ∀ c ∈ option.1, isKeywordChar c = true) :
    Reads (options.flatMap optionText) options := by
  induction options with
  | nil => exact .nil rfl
  | cons option options ih =>
    obtain ⟨hname, hnames⟩ := List.forall_mem_cons.mp hnames
    have hsplit : (option :: options).flatMap optionText =
        option.1 ++ '=' :: ('\'' :: (escape option.2 ++ '\'' :: ' ' ::
          options.flatMap optionText)) := by
      simp [optionText, escapeParamStr]
    rw [hsplit, reads_name_iff fun c hc => extendsName_of_isKeywordChar (hname c hc)]
    exact ⟨_, _, _, scanValue_quoted _ _, (reads_blank_iff rfl).mpr (ih hnames), rfl⟩

theorem isUri_optionText {options : List Record}
    (hnames : ∀ option ∈ options, ∀ c ∈ option.1, isKeywordChar c = true) :
    isUri (options.flatMap optionText) = false := by
  cases options with
  | nil => decide
  | cons option options =>
    rw [List.flatMap_cons, optionText, List.append_assoc, List.cons_append]
    exact isUri_name (hnames option List.mem_cons_self) _

/-- Whoever reads the text finds the accepted options with their values and nothing else. -/
theorem connectText_parses (pq : Libpq) (fdw server mapping : List Record) :
    (∀ (σ : Type) (store : σ → Record → Except Error σ) (s : σ),
      parse store s (connectText pq fdw server mapping) =
        (connectOptions pq fdw server mapping).foldlM store s) ∧
      pq.conninfoParse (connectText pq fdw server mapping) =
        some (stored (fun _ => none) (connectOptions pq fdw server mapping)) := by
  have hknown : ∀ option ∈ connectOptions pq fdw server mapping, pq.known option.1 = true :=
    fun option hoption => known_of_mem_connectOptions hoption
  have hnames := fun option hoption => Libpq.isKeywordChar_of_known (hknown option hoption)
  have hreads := reads_optionText hnames
  rw [connectText_eq]
  refine ⟨fun σ store s => parse_of_reads hreads, ?_⟩
  rw [Libpq.conninfoParse_eq_some (isUri_optionText hnames)]
  exact ⟨_, hreads, hknown, rfl⟩

/-! ### Reading the names -/

section Names

variable {name : List Char} {names names' : MappingNames} {records : List Record}

def IsKey (r : Reading) (key name : List Char) : Prop := name.map r.lowerChar = key

def BeginsWith (r : Reading) (key name : List Char) : Prop := key <+: name.map r.lowerChar

theorem IsKey.beginsWith {key : List Char} (h : IsKey r key name) : BeginsWith r key name := by
  rw [BeginsWith, h]

theorem strncasecmpEq_iff (key : List Char) (hkey : ∀ c ∈ key, isPart c = true) :
    strncasecmpEq r.lowerChar key.length name key = true ↔ BeginsWith r key name := by
  have hlower : key.map r.lowerChar = key := by
    conv_rhs => rw [← List.map_id key]
    exact List.map_congr_left fun c hc => Reading.isPart_lowerChar r (hkey c hc)
  rw [strncasecmpEq, hlower, strncmpEq_comm, strncmpEq_length_iff]
  rfl

theorem strncasecmpEq_userMappingKey :
    strncasecmpEq r.lowerChar 12 name userMappingKey = true ↔
      BeginsWith r userMappingKey name :=
  strncasecmpEq_iff userMappingKey (List.all_eq_true.mp (by decide))

theorem strncasecmpEq_foreignServerKey :
    strncasecmpEq r.lowerChar 23 name foreignServerKey = true ↔
      BeginsWith r foreignServerKey name :=
  strncasecmpEq_iff foreignServerKey (List.all_eq_true.mp (by decide))

theorem not_beginsWith_both (h : BeginsWith r userMappingKey name) :
    ¬BeginsWith r foreignServerKey name := by
  intro h'
  exact absurd (List.prefix_of_prefix_length_le h h' (by decide)) (by decide)

theorem storeName_eq_ok {record : Record} (h : storeName r names record = .ok names') :
    (names'.usermapping.isSome ↔
      BeginsWith r userMappingKey record.1 ∨ names.usermapping.isSome) ∧
    (names'.foreignserver.isSome ↔
      BeginsWith r foreignServerKey record.1 ∨ names.foreignserver.isSome) ∧
    (BeginsWith r userMappingKey record.1 ∨ BeginsWith r foreignServerKey record.1) := by
  unfold storeName at h
  split_ifs at h with hmapping hserver
  · rw [strncasecmpEq_userMappingKey] at hmapping
    cases h
    simp [hmapping, not_beginsWith_both hmapping]
  · rw [strncasecmpEq_userMappingKey] at hmapping
    rw [strncasecmpEq_foreignServerKey] at hserver
    cases h
    simp [hmapping, hserver]

theorem exists_storeName_eq_ok (names : MappingNames) {record : Record}
    (h : BeginsWith r userMappingKey record.1 ∨ BeginsWith r foreignServerKey record.1) :
    ∃ names', storeName r names record = .ok names' := by
  rw [← strncasecmpEq_userMappingKey, ← strncasecmpEq_foreignServerKey] at h
  unfold storeName
  split_ifs with hmapping hserver
  · exact ⟨_, rfl⟩
  · exact ⟨_, rfl⟩
  · exact absurd (h.resolve_left hmapping) hserver

theorem foldlM_storeName_eq_ok (h : records.foldlM (storeName r) names = .ok names') :
    (names'.usermapping.isSome ↔
      (∃ record ∈ records, BeginsWith r userMappingKey record.1) ∨ names.usermapping.isSome) ∧
    (names'.foreignserver.isSome ↔
      (∃ record ∈ records, BeginsWith r foreignServerKey record.1) ∨
        names.foreignserver.isSome) ∧
    ∀ record ∈ records,
      BeginsWith r userMappingKey record.1 ∨ BeginsWith r foreignServerKey record.1 := by
  induction records generalizing names with
  | nil =>
    cases h
    simp
  | cons record records ih =>
    obtain ⟨names₁, hstore, hrest⟩ := foldlM_cons_eq_ok.mp h
    obtain ⟨hmapping, hserver, hbegins⟩ := storeName_eq_ok hstore
    obtain ⟨hmapping', hserver', hbegins'⟩ := ih hrest
    simp only [List.exists_mem_cons_iff, List.forall_mem_cons]
    refine ⟨?_, ?_, hbegins, hbegins'⟩
    · rw [hmapping', hmapping, or_left_comm, or_assoc]
    · rw [hserver', hserver, or_left_comm, or_assoc]

theorem exists_foldlM_storeName_eq_ok (names : MappingNames) (h : ∀ record ∈ records,
      BeginsWith r userMappingKey record.1 ∨ BeginsWith r foreignServerKey record.1) :
    ∃ names', records.foldlM (storeName r) names = .ok names' := by
  induction records generalizing names with
  | nil => exact ⟨names, rfl⟩
  | cons record records ih =>
    obtain ⟨hrecord, h⟩ := List.forall_mem_cons.mp h
    obtain ⟨names₁, hstore⟩ := exists_storeName_eq_ok names hrecord
    obtain ⟨names', hrest⟩ := ih names₁ h
    exact ⟨names', foldlM_cons_eq_ok.mpr ⟨names₁, hstore, hrest⟩⟩

end Names

theorem mappingText_ne_unsetName {cat : ForeignCatalog} {server : ForeignServer}
    {umname : List Char} : mappingText pq cat server (some umname) ≠ .error .unsetName := by
  unfold mappingText
  intro h
  dsimp only at h
  split at h
  · cases h
  · split_ifs at h with husage
    cases h

theorem getConnectString_ne_unsetName {cat : ForeignCatalog} {text : List Char}
    (hset : ∀ names, userMappingParse r text = .ok names →
      names.usermapping.isSome = true ∧ names.foreignserver.isSome = true) :
    getConnectString r pq cat text ≠ .error .unsetName := by
  unfold getConnectString
  cases pq.conninfoParse text with
  | some values => simp
  | none =>
    cases hparse : userMappingParse r text with
    | error e => simp
    | ok names =>
      obtain ⟨hmapping, hserver⟩ := hset names hparse
      obtain ⟨umname, humname⟩ := Option.isSome_iff_exists.mp hmapping
      obtain ⟨fsname, hfsname⟩ := Option.isSome_iff_exists.mp hserver
      have htext : serverText pq cat names ≠ .error .unsetName := by
        rw [serverText, hfsname, humname]
        dsimp only
        split
        · simp
        · exact mappingText_ne_unsetName
      dsimp only
      cases hresult : serverText pq cat names with
      | ok result =>
        intro h
        cases h
      | error e =>
        rw [hresult] at htext
        intro h
        exact htext (congrArg _ (Except.error.inj h))

/-- Both names are set and only the two keys are accepted, and no unset name is used, exactly if a
text whose keys all begin with one of the two has both of them, and no longer ones. -/
theorem userMappingParse_strict_iff (pq : Libpq) (r : Reading) (text : List Char) :
    ((∀ names, userMappingParse r text = .ok names →
        (names.usermapping.isSome = true ∧ names.foreignserver.isSome = true) ∧
          ∀ records, Reads text records → ∀ record ∈ records,
            IsKey r userMappingKey record.1 ∨ IsKey r foreignServerKey record.1) ∧
      ∀ cat, getConnectString r pq cat text ≠ .error .unsetName) ↔
      ∀ records, Reads text records →
        (∀ record ∈ records,
          BeginsWith r userMappingKey record.1 ∨ BeginsWith r foreignServerKey record.1) →
        (∃ record ∈ records, IsKey r userMappingKey record.1) ∧
          (∃ record ∈ records, IsKey r foreignServerKey record.1) ∧
          ∀ record ∈ records,
            IsKey r userMappingKey record.1 ∨ IsKey r foreignServerKey record.1 := by
  constructor
  · rintro ⟨hstrict, -⟩ records hreads hbegins
    obtain ⟨names, hnames⟩ := exists_foldlM_storeName_eq_ok ⟨none, none⟩ hbegins
    have hparse := parse_eq_ok_iff.mpr ⟨records, hreads, hnames⟩
    obtain ⟨⟨hmapping, hserver⟩, hkeys⟩ := hstrict names hparse
    obtain ⟨hmapping', hserver', -⟩ := foldlM_storeName_eq_ok hnames
    have hkeys := hkeys records hreads
    refine ⟨?_, ?_, hkeys⟩
    · obtain ⟨record, hrecord, hbegin⟩ := (hmapping'.mp hmapping).resolve_right (by simp)
      refine ⟨record, hrecord, (hkeys record hrecord).resolve_right fun h => ?_⟩
      exact not_beginsWith_both hbegin h.beginsWith
    · obtain ⟨record, hrecord, hbegin⟩ := (hserver'.mp hserver).resolve_right (by simp)
      refine ⟨record, hrecord, (hkeys record hrecord).resolve_left fun h => ?_⟩
      exact not_beginsWith_both h.beginsWith hbegin
  · intro hright
    have hstrict : ∀ names, userMappingParse r text = .ok names →
        (names.usermapping.isSome = true ∧ names.foreignserver.isSome = true) ∧
          ∀ records, Reads text records → ∀ record ∈ records,
            IsKey r userMappingKey record.1 ∨ IsKey r foreignServerKey record.1 := by
      intro names hparse
      obtain ⟨records, hreads, hnames⟩ := parse_eq_ok_iff.mp hparse
      obtain ⟨hmapping, hserver, hbegins⟩ := foldlM_storeName_eq_ok hnames
      obtain ⟨⟨m, hm, hmKey⟩, ⟨f, hf, hfKey⟩, hkeys⟩ := hright records hreads hbegins
      refine ⟨⟨hmapping.mpr (.inl ⟨m, hm, hmKey.beginsWith⟩),
        hserver.mpr (.inl ⟨f, hf, hfKey.beginsWith⟩)⟩, fun records' hreads' => ?_⟩
      rw [hreads'.unique hreads]
      exact hkeys
    exact ⟨hstrict, fun cat => getConnectString_ne_unsetName fun names h => (hstrict names h).1⟩

def emptyLibpq : Libpq where
  options := []
  nodup := by decide
  chars := by decide
  uri := fun _ => none

/-- `user_mapping=m` leaves the server unset and `user_mappings=m` is taken for `user_mapping=m`. -/
theorem userMappingParse_unset_server :
    userMappingParse Ddl.asciiReading (userMappingKey ++ ['=', 'm']) = .ok ⟨some ['m'], none⟩ ∧
      getConnectString Ddl.asciiReading emptyLibpq ⟨[], [], fun _ _ => true⟩
        (userMappingKey ++ ['=', 'm']) = .error .unsetName ∧
      userMappingParse Ddl.asciiReading
        (userMappingKey ++ ['s', '=', 'm', ' '] ++ foreignServerKey ++ ['=', 'f']) =
          .ok ⟨some ['m'], some ['f']⟩ := by
  have hserver : userMappingParse Ddl.asciiReading (userMappingKey ++ ['=', 'm']) =
      .ok ⟨some ['m'], none⟩ := rfl
  have hvalues : emptyLibpq.conninfoParse (userMappingKey ++ ['=', 'm']) = none := rfl
  refine ⟨hserver, ?_, rfl⟩
  rfl

end Pgactive.Connections
