import Pgactive.Identifiers
import Pgactive.Ddl.QueuedOnce

/-!
# The search path of a queued command

`pgactive_capture_ddl` writes the search path into the row that it queues, and
`pgactive_execute_ddl_command` sets `search_path` to this text. The loop that writes the names never
clears `first`, so that there is no comma between them.
-/

namespace Pgactive.Ddl

open FallibleState Identifiers

def Env.keptSchemas (env : Env) : List String :=
  (env.searchPath.filter fun nspid => !env.isSystemNamespace nspid).map env.namespaceName

/-- The server quotes names as documented, and those of the search path are not too long for the
server that reads them. -/
structure Env.Documented (env : Env) (q : Quoting) (r : Reading) : Prop where
  quote : ∀ name, (env.quoteIdentifier name).toList = q.quoteIdentifier name.toList
  fits : ∀ nspid ∈ env.searchPath, r.Fits (env.namespaceName nspid).toList

/-- The schemas that `search_path` names after `pgactive_execute_ddl_command` has set it, and `none`
if the text is no list of names. -/
def setSearchPath (r : Reading) (searchPath : String) : Option (List String) :=
  (r.splitIdentifierString searchPath.toList).map fun names => names.map String.ofList

theorem setSearchPath_eq_some_iff {r : Reading} {searchPath : String} {schemas : List String} :
    setSearchPath r searchPath = some schemas ↔
      r.splitIdentifierString searchPath.toList = some (schemas.map String.toList) := by
  unfold setSearchPath
  constructor
  · intro h
    obtain ⟨names, hnames, rfl⟩ := Option.map_eq_some_iff.mp h
    simpa using hnames
  · intro h
    simp [h]

variable {env : Env} {q : Quoting} {r : Reading}

theorem foldl_capturedSearchPath (env : Env) (path : List Oid) (si : String) :
    (path.foldl (fun si nspid =>
      if env.isSystemNamespace nspid then si
      else si ++ env.quoteIdentifier (env.namespaceName nspid)) si).toList =
    si.toList ++ ((path.filter fun nspid => !env.isSystemNamespace nspid).map
      env.namespaceName).flatMap fun name => (env.quoteIdentifier name).toList := by
  induction path generalizing si with
  | nil => simp
  | cons nspid path ih =>
    rw [List.foldl_cons, ih]
    by_cases hsystem : env.isSystemNamespace nspid = true
    · simp [hsystem]
    · simp [hsystem]

theorem Env.Documented.capturedSearchPath (h : env.Documented q r) :
    env.capturedSearchPath.toList =
      (env.keptSchemas.map String.toList).flatMap q.quoteIdentifier := by
  have hloop := foldl_capturedSearchPath env env.searchPath ""
  simp only [h.quote] at hloop
  simpa [Env.capturedSearchPath, Env.keptSchemas, List.flatMap_map] using hloop

theorem Env.Documented.fits_keptSchemas (h : env.Documented q r) :
    ∀ name ∈ env.keptSchemas.map String.toList, r.Fits name := by
  intro name hname
  obtain ⟨schema, hschema, rfl⟩ := List.mem_map.mp hname
  obtain ⟨nspid, hnspid, rfl⟩ := List.mem_map.mp hschema
  exact h.fits nspid (List.mem_of_mem_filter hnspid)

theorem count_comma_flatMap_quoteIdentifier (q : Quoting) (names : List (List Char)) :
    (names.flatMap q.quoteIdentifier).count ',' = (names.map (·.count ',')).sum := by
  rw [List.count_flatMap]
  congr 1
  exact List.map_congr_left fun name _ => count_comma_quoteIdentifier q name

theorem Env.Documented.setSearchPath_iff (h : env.Documented q r) :
    setSearchPath r env.capturedSearchPath = some env.keptSchemas ↔
      env.keptSchemas.length ≤ 1 := by
  rw [setSearchPath_eq_some_iff, h.capturedSearchPath]
  constructor
  · intro hsplit
    have hcommas := r.count_comma_splitIdentifierString hsplit
    rw [count_comma_flatMap_quoteIdentifier, List.length_map] at hcommas
    omega
  · intro hlength
    have hwritten := Reading.splitIdentifierString_written q h.fits_keptSchemas
    match hkept : env.keptSchemas with
    | [] => rfl
    | [name] =>
      rw [hkept] at hwritten
      simpa [Reading.written] using hwritten
    | _ :: _ :: _ =>
      rw [hkept] at hlength
      simp at hlength

theorem Call.captureDdl_row {c : Call} {s s' : Session} {row : Row}
    (h : c.captureDdl s = .ok s') (hrow : s'.queuedCommands = s.queuedCommands ++ [row]) :
    row = c.row := by
  have hunchanged : s ≠ s' := by
    rintro rfl
    simp at hrow
  unfold captureDdl at h
  split_ifs at h
  · exact absurd (Except.ok.inj h) hunchanged
  · exact absurd (Except.ok.inj h) hunchanged
  · exact absurd (Except.ok.inj h) hunchanged
  · rw [Env.queueDdlCommand_eq_ok h] at hrow
    simpa using hrow.symm

/-- Whenever `pgactive_capture_ddl` queues a command: the search path in the row is read on the
other node as the schemas of the active search path that are not catalog, toast or temporary
schemas, in the same order, exactly if there is at most one such schema. -/
theorem captureDdl_searchPath (q : Quoting) (r : Reading) (c : Call) (s s' : Session) (row : Row)
    (hdocumented : c.env.Documented q r) (hcapture : c.captureDdl s = .ok s')
    (hrow : s'.queuedCommands = s.queuedCommands ++ [row]) :
    setSearchPath r row.searchPath = some c.env.keptSchemas ↔ c.env.keptSchemas.length ≤ 1 := by
  rw [Call.captureDdl_row hcapture hrow]
  exact hdocumented.setSearchPath_iff

def plainQuoting : Quoting where
  quoteAll := false
  keyword _ := false

/-- A server with an encoding of one byte and no letters outside of ASCII. -/
def asciiReading : Reading where
  width _ := 1
  lowerHigh := id
  lowerHigh_ne_comma := by
    rintro c hc rfl
    revert hc
    decide

def createTable (searchPath : List Oid) : Call where
  env :=
    { activeEnv with
      searchPath := searchPath
      namespaceName := fun nspid => if nspid = 2200 then "public" else "app"
      quoteIdentifier := fun name => String.ofList (plainQuoting.quoteIdentifier name.toList) }
  stmt := .create ⟨⟨none, "t", .permanent⟩, none, [], []⟩
  tag := "CREATE TABLE"
  queryString := "CREATE TABLE t (id int PRIMARY KEY)"
  context := .toplevel

theorem createTable_documented (searchPath : List Oid) :
    (createTable searchPath).env.Documented plainQuoting asciiReading where
  quote name := String.toList_ofList
  fits nspid _ := by
    change asciiReading.Fits (if nspid = 2200 then "public" else "app").toList
    split_ifs <;> unfold Reading.Fits <;> decide

theorem captureDdl_searchPath_of_one :
    setSearchPath asciiReading (createTable [2200]).row.searchPath = some ["public"] :=
  (captureDdl_searchPath plainQuoting asciiReading (createTable [2200]) Session.fresh
    { Session.fresh with queuedCommands := [(createTable [2200]).row] } _
    (createTable_documented _) rfl rfl).mpr (by decide)

/-- With `public, app` the command is queued for the schema `publicapp`. -/
theorem captureDdl_searchPath_of_two :
    (createTable [2200, 16500]).env.keptSchemas = ["public", "app"] ∧
    (createTable [2200, 16500]).captureDdl Session.fresh =
      .ok { Session.fresh with
        queuedCommands := [⟨.command "CREATE TABLE",
          "CREATE TABLE t (id int PRIMARY KEY)", "publicapp"⟩] } ∧
    setSearchPath asciiReading "publicapp" = some ["publicapp"] := by
  refine ⟨rfl, ?_, ?_⟩
  · decide
  · have hfits : ∀ name ∈ ["publicapp".toList], asciiReading.Fits name := by
      unfold Reading.Fits
      decide
    exact setSearchPath_eq_some_iff.mpr (Reading.splitIdentifierString_written plainQuoting hfits)

end Pgactive.Ddl
