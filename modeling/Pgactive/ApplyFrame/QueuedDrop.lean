import Pgactive.ApplyFrame.Queues

/-!
# How queued drops find their objects

`process_queued_drop` unpacks the objects in three ways, by their type, looks each one up and drops
those that it has found. Arguments are not given to `get_object_address`, so that it cannot tell
overloaded functions apart, and the loop over the arguments of other objects ends at the number of
names.
-/

namespace Pgactive.ApplyFrame.QueuedDrop

open FallibleState

/-- `ObjectType`, as far as they are told apart. -/
inductive ObjectType
  | type
  | domain
  | function
  | aggregate
  | operator
  | other (name : String)
deriving DecidableEq

def ObjectType.overloads : ObjectType → Bool
  | .function | .aggregate | .operator => true
  | .type | .domain | .other _ => false

/-- A composite value of type `dropped_object`; `none` is `NULL`. -/
structure DroppedObject where
  objtype : Option String
  objnames : Option (List String)
  objargs : Option (List String)
deriving DecidableEq

/-- `TypeName`, as `typeStringToTypeName` makes it. -/
structure TypeName where
  names : List String
  arrayBounds : ℕ
deriving DecidableEq

/-- An element of the list `objargs`. -/
inductive ObjArg
  | typeName (name : TypeName)
  /-- `NULL`, for the missing operand of an operator. -/
  | null
  | string (text : String)
deriving DecidableEq

/-- The `Node` that names an object: a list of names, or an `ObjectWithArgs`. -/
inductive Node
  | list (names : List String)
  | objectWithArgs (objname : List String) (objargs : List ObjArg)
deriving DecidableEq

def Node.names : Node → List String
  | .list names => names
  | .objectWithArgs objname _ => objname

def Node.arguments : Node → Option (List ObjArg)
  | .list _ => none
  | .objectWithArgs _ objargs => some objargs

/-- `ObjectAddress`. -/
structure Address where
  classId : ℕ
  objectId : ℕ
deriving DecidableEq

/-- What the loop asks of PostgreSQL. -/
structure Catalog where
  /-- `read_objtype_from_string`; `none` is -1. -/
  readObjtypeFromString : String → Except HandlerError (Option ObjectType)
  typeStringToTypeName : String → Except HandlerError TypeName
  /-- `get_object_address`; `none` is an address with an invalid class. -/
  getObjectAddress : ObjectType → Node → Except HandlerError (Option Address)
  /-- What stands behind the end of an array, where C does not say what a read returns. -/
  behindEnd : ℕ → String

/-- The variables of an iteration when the object is looked up. -/
structure Lookup where
  objtype : ObjectType
  objnames : List String
  objargs : List ObjArg
deriving DecidableEq

/-- The second argument of `get_object_address`. -/
def Lookup.object (lookup : Lookup) : Node := .list lookup.objnames

variable (catalog : Catalog)

def element (values : List String) (i : ℕ) : String := values.getD i (catalog.behindEnd i)

def operTypeStringToTypeName (str : String) : Except HandlerError ObjArg :=
  if str.toLower = "none" then .ok .null
  else (catalog.typeStringToTypeName str).map .typeName

/-- The element of `objargs` for an argument of a function, an aggregate or an operator. -/
def argumentType (objtype : ObjectType) (typestring : String) : Except HandlerError ObjArg :=
  if objtype = .operator then operTypeStringToTypeName catalog typestring
  else (catalog.typeStringToTypeName typestring).map .typeName

def unpackType (obj : DroppedObject) (objtype : ObjectType) :
    Except HandlerError (Option Lookup) :=
  match obj.objnames with
  | none => .ok none
  | some values => do
    let typeName ← catalog.typeStringToTypeName (element catalog values 0)
    .ok (some ⟨objtype, typeName.names, []⟩)

def unpackFunction (obj : DroppedObject) (objtype : ObjectType) :
    Except HandlerError (Option Lookup) :=
  match obj.objnames, obj.objargs with
  | none, _ => .ok none
  | some objnames, none =>
    if objtype = .operator then .ok none else .ok (some ⟨objtype, objnames, []⟩)
  | some objnames, some values => do
    let objargs ← values.mapM (argumentType catalog objtype)
    .ok (some ⟨objtype, objnames, objargs⟩)

def unpackOther (obj : DroppedObject) (objtype : ObjectType) : Option Lookup :=
  match obj.objnames with
  | none => none
  | some objnames =>
    let nelems := objnames.length
    let objargs := match obj.objargs with
      | none => []
      | some pvalues => (List.range nelems).map fun j => .string (element catalog pvalues j)
    some ⟨objtype, objnames, objargs⟩

/-- An iteration up to the lookup. `none`: the object is passed over, most often with a warning. -/
def unpack (obj : DroppedObject) : Except HandlerError (Option Lookup) :=
  match obj.objtype with
  | none => .ok none
  | some type => do
    match ← catalog.readObjtypeFromString type with
    | none => .ok none
    | some .type => unpackType catalog obj .type
    | some .domain => unpackType catalog obj .domain
    | some .function => unpackFunction catalog obj .function
    | some .aggregate => unpackFunction catalog obj .aggregate
    | some .operator => unpackFunction catalog obj .operator
    | some (.other name) => .ok (unpackOther catalog obj (.other name))

def Lookup.address (lookup : Lookup) : Except HandlerError (Option Address) :=
  catalog.getObjectAddress lookup.objtype lookup.object

/-- The loop of `process_queued_drop`: the addresses of the objects that are dropped. -/
def objectAddresses : List DroppedObject → Except HandlerError (List Address)
  | [] => .ok []
  | obj :: rest => do
    match ← unpack catalog obj with
    | none => objectAddresses rest
    | some lookup =>
      let addr ← lookup.address catalog
      let addresses ← objectAddresses rest
      .ok (addr.toList ++ addresses)

def lookups : List DroppedObject → List (DroppedObject × Lookup)
  | [] => []
  | obj :: rest =>
    match unpack catalog obj with
    | .error _ => []
    | .ok none => lookups rest
    | .ok (some lookup) =>
      (obj, lookup) :: match lookup.address catalog with
        | .error _ => []
        | .ok _ => lookups rest

variable {catalog : Catalog} {objs : List DroppedObject} {obj : DroppedObject} {lookup : Lookup}
  {objtype : ObjectType}

/-! ### What an object is looked up by -/

theorem unpackType_eq_some (h : unpackType catalog obj objtype = .ok (some lookup)) :
    ∃ values typeName, obj.objnames = some values ∧
      catalog.typeStringToTypeName (element catalog values 0) = .ok typeName ∧
      lookup = ⟨objtype, typeName.names, []⟩ := by
  unfold unpackType at h
  cases hnames : obj.objnames with
  | none =>
    rw [hnames] at h
    cases h
  | some values =>
    rw [hnames] at h
    obtain ⟨typeName, htype, h⟩ := except_bind_eq_ok.mp h
    cases h
    exact ⟨values, typeName, rfl, htype, rfl⟩

theorem unpackFunction_eq_some (h : unpackFunction catalog obj objtype = .ok (some lookup)) :
    obj.objnames = some lookup.objnames ∧ lookup.objtype = objtype ∧
      (obj.objargs.getD []).mapM (argumentType catalog objtype) = .ok lookup.objargs := by
  unfold unpackFunction at h
  cases hnames : obj.objnames with
  | none =>
    rw [hnames] at h
    cases h
  | some objnames =>
    cases hargs : obj.objargs with
    | none =>
      rw [hnames, hargs] at h
      split_ifs at h
      · cases h
      · cases h
        exact ⟨rfl, rfl, List.mapM_nil⟩
    | some values =>
      rw [hnames, hargs] at h
      obtain ⟨objargs, htypes, h⟩ := except_bind_eq_ok.mp h
      cases h
      exact ⟨rfl, rfl, htypes⟩

theorem unpackOther_eq_some (h : unpackOther catalog obj objtype = some lookup) :
    obj.objnames = some lookup.objnames ∧ lookup.objtype = objtype ∧
      lookup.objargs = match obj.objargs with
        | none => []
        | some pvalues => (List.range lookup.objnames.length).map fun j =>
          .string (element catalog pvalues j) := by
  unfold unpackOther at h
  cases hnames : obj.objnames with
  | none =>
    rw [hnames] at h
    cases h
  | some objnames =>
    rw [hnames] at h
    cases h
    exact ⟨rfl, rfl, rfl⟩

theorem unpack_eq_some (h : unpack catalog obj = .ok (some lookup)) :
    match lookup.objtype with
    | .type | .domain => unpackType catalog obj lookup.objtype = .ok (some lookup)
    | .function | .aggregate | .operator =>
      unpackFunction catalog obj lookup.objtype = .ok (some lookup)
    | .other _ => unpackOther catalog obj lookup.objtype = some lookup := by
  unfold unpack at h
  cases htype : obj.objtype with
  | none =>
    rw [htype] at h
    cases h
  | some type =>
    rw [htype] at h
    obtain ⟨objtype, hread, h⟩ := except_bind_eq_ok.mp h
    cases objtype with
    | none => cases h
    | some objtype =>
      cases objtype with
      | type | domain =>
        obtain ⟨values, typeName, hnames, hname, rfl⟩ := unpackType_eq_some h
        exact h
      | function | aggregate | operator =>
        have hlookup := (unpackFunction_eq_some h).2.1
        rw [hlookup]
        exact h
      | other name =>
        have hother := Except.ok.inj h
        have hlookup := (unpackOther_eq_some hother).2.1
        rw [hlookup]
        exact hother

theorem unpack_of_mem_lookups {entry : DroppedObject × Lookup}
    (h : entry ∈ lookups catalog objs) : unpack catalog entry.1 = .ok (some entry.2) := by
  induction objs with
  | nil => cases h
  | cons obj rest ih =>
    rw [lookups] at h
    cases hunpack : unpack catalog obj with
    | error e =>
      rw [hunpack] at h
      cases h
    | ok unpacked =>
      rw [hunpack] at h
      cases unpacked with
      | none => exact ih h
      | some lookup =>
        rcases List.mem_cons.mp h with rfl | hrest
        · exact hunpack
        · cases haddress : lookup.address catalog with
          | error e =>
            rw [haddress] at hrest
            cases hrest
          | ok addr =>
            rw [haddress] at hrest
            exact ih hrest

/-- When the loop completes, it has collected what the lookups have found. -/
theorem objectAddresses_eq {addresses : List Address}
    (h : objectAddresses catalog objs = .ok addresses) :
    addresses = (lookups catalog objs).flatMap
      fun entry => (entry.2.address catalog).toOption.join.toList := by
  induction objs generalizing addresses with
  | nil =>
    cases h
    rfl
  | cons obj rest ih =>
    obtain ⟨unpacked, hunpack, h⟩ := except_bind_eq_ok.mp h
    rw [lookups, hunpack]
    cases unpacked with
    | none => exact ih h
    | some lookup =>
      obtain ⟨addr, haddr, h⟩ := except_bind_eq_ok.mp h
      obtain ⟨tail, htail, h⟩ := except_bind_eq_ok.mp h
      cases h
      simp [haddr, ih htail, Except.toOption]

section Handler

variable {υ κ D : Type}

/-- The server of the handlers, with this loop for the lookup of the objects. -/
def Catalog.server (catalog : Catalog) (droppedObjects : D → List DroppedObject)
    (performMultipleDeletions : List Address → Except HandlerError Unit) (server : Server υ κ D) :
    Server υ κ D :=
  { server with
    objectAddresses := fun datum => (objectAddresses catalog (droppedObjects datum)).map fun _ => ()
    performMultipleDeletions := fun datum =>
      objectAddresses catalog (droppedObjects datum) >>= performMultipleDeletions }

/-- A queued drop that is executed drops the objects that were looked up and found. -/
theorem processQueuedDrop_drops {server : Server υ κ D} {cmdtup : Row D} {datum : D}
    {droppedObjects : D → List DroppedObject} {s s' : Backend υ}
    {performMultipleDeletions : List Address → Except HandlerError Unit}
    (hcolumn : cmdtup[2]?.join = some datum)
    (h : processQueuedDrop (catalog.server droppedObjects performMultipleDeletions server) cmdtup s
      = (.ok (), s')) :
    performMultipleDeletions ((lookups catalog (droppedObjects datum)).flatMap
      fun entry => (entry.2.address catalog).toOption.join.toList) = .ok () := by
  rw [processQueuedDrop, hcolumn] at h
  obtain ⟨_, s₁, -, h⟩ := bind_eq_ok_iff.mp h
  rw [bind_of_ok pushErrorContext_run] at h
  obtain ⟨_, s₂, hrun, -⟩ := bind_eq_ok_iff.mp h
  obtain ⟨hdrop, -⟩ := stateless_eq_ok_iff.mp hrun
  obtain ⟨addresses, haddresses, hdrop⟩ := except_bind_eq_ok.mp hdrop
  rwa [← objectAddresses_eq haddresses]

end Handler

/-! ### Complete lookups -/

def NamesComplete (catalog : Catalog) (obj : DroppedObject) (lookup : Lookup) : Prop :=
  match lookup.objtype with
  | .type | .domain => ∃ typestring typeName, obj.objnames = some [typestring] ∧
      catalog.typeStringToTypeName typestring = .ok typeName ∧ lookup.object.names = typeName.names
  | _ => obj.objnames = some lookup.object.names

/-- Functions, aggregates and operators are looked up by the types of all their arguments, and the
argument list of other objects has the elements of the stored array. -/
def ArgumentsComplete (catalog : Catalog) (obj : DroppedObject) (lookup : Lookup) : Prop :=
  if lookup.objtype.overloads then
    ∃ objargs, (obj.objargs.getD []).mapM (argumentType catalog lookup.objtype) = .ok objargs ∧
      lookup.object.arguments = some objargs
  else lookup.objargs = (obj.objargs.getD []).map .string

def DifferInArguments (entry entry' : DroppedObject × Lookup) : Prop :=
  entry.2.objtype.overloads = true ∧ entry.2.objtype = entry'.2.objtype ∧
    entry.1.objnames = entry'.1.objnames ∧ entry.1.objargs ≠ entry'.1.objargs

/-- Every object is looked up by its type and its complete lists, and objects that differ only in
their arguments never resolve to one address. -/
structure Resolves (catalog : Catalog) (objs : List DroppedObject) : Prop where
  names : ∀ entry ∈ lookups catalog objs, NamesComplete catalog entry.1 entry.2
  arguments : ∀ entry ∈ lookups catalog objs, ArgumentsComplete catalog entry.1 entry.2
  apart : ∀ entry ∈ lookups catalog objs, ∀ entry' ∈ lookups catalog objs,
    DifferInArguments entry entry' → ∀ address,
      entry.2.address catalog = .ok (some address) → entry'.2.address catalog ≠ .ok (some address)

/-- What a lookup can do: no object that is looked up is a function, an aggregate or an operator; a
type has one name and no arguments; other objects have no array of arguments, or as many arguments
as names. -/
def Resolvable (obj : DroppedObject) (lookup : Lookup) : Prop :=
  match lookup.objtype with
  | .type | .domain => (∃ typestring, obj.objnames = some [typestring]) ∧ obj.objargs.getD [] = []
  | .function | .aggregate | .operator => False
  | .other _ => ∀ objargs, obj.objargs = some objargs → objargs.length = lookup.objnames.length

theorem range_element_eq_iff (pvalues : List String) (n : ℕ) :
    (List.range n).map (fun j => ObjArg.string (element catalog pvalues j)) =
      pvalues.map .string ↔ pvalues.length = n := by
  constructor
  · intro h
    have hlength := congrArg List.length h
    simpa using hlength.symm
  · rintro rfl
    apply List.ext_getElem
    · simp
    · intro i hi hi'
      simp [element, List.getD_eq_getElem?_getD, List.getElem?_eq_getElem (by simpa using hi')]

theorem complete_iff_resolvable (h : unpack catalog obj = .ok (some lookup)) :
    NamesComplete catalog obj lookup ∧ ArgumentsComplete catalog obj lookup ↔
      Resolvable obj lookup := by
  have hbranch := unpack_eq_some h
  unfold NamesComplete ArgumentsComplete Resolvable
  cases htype : lookup.objtype with
  | type | domain =>
    rw [htype] at hbranch
    obtain ⟨values, typeName, hnames, hname, rfl⟩ := unpackType_eq_some hbranch
    simp only [ObjectType.overloads, Bool.false_eq_true, if_false]
    refine and_congr ⟨?_, ?_⟩ (by rw [List.nil_eq, List.map_eq_nil_iff])
    · rintro ⟨typestring, -, hsingle, -⟩
      exact ⟨typestring, hsingle⟩
    · rintro ⟨typestring, hsingle⟩
      obtain rfl := Option.some.inj (hnames.symm.trans hsingle)
      exact ⟨typestring, typeName, hsingle, hname, rfl⟩
  | function | aggregate | operator => simp [ObjectType.overloads, Lookup.object, Node.arguments]
  | other name =>
    rw [htype] at hbranch
    obtain ⟨hnames, -, hargs⟩ := unpackOther_eq_some hbranch
    simp only [ObjectType.overloads, Bool.false_eq_true, if_false]
    rw [Lookup.object, Node.names, and_iff_right hnames, hargs]
    cases obj.objargs with
    | none => simp
    | some pvalues => simpa using range_element_eq_iff pvalues lookup.objnames.length

theorem Resolvable.not_overloads (h : Resolvable obj lookup) :
    lookup.objtype.overloads = false := by
  unfold Resolvable at h
  cases htype : lookup.objtype with
  | type | domain | other => rfl
  | function | aggregate | operator =>
    rw [htype] at h
    exact h.elim

/-- For every array of dropped objects: each object is looked up by its type, its complete names and
its complete argument types, and no two that differ only in arguments resolve to one address,
exactly if every object that is looked up is resolvable. -/
theorem queuedDrop_resolves (catalog : Catalog) (objs : List DroppedObject) :
    Resolves catalog objs ↔
      ∀ entry ∈ lookups catalog objs, Resolvable entry.1 entry.2 := by
  constructor
  · intro hresolves entry hentry
    exact (complete_iff_resolvable (unpack_of_mem_lookups hentry)).mp
      ⟨hresolves.names entry hentry, hresolves.arguments entry hentry⟩
  · intro hresolvable
    have hcomplete (entry) (hentry : entry ∈ lookups catalog objs) :=
      (complete_iff_resolvable (unpack_of_mem_lookups hentry)).mpr (hresolvable entry hentry)
    refine ⟨fun entry hentry => (hcomplete entry hentry).1,
      fun entry hentry => (hcomplete entry hentry).2, ?_⟩
    intro entry hentry entry' _ hdiffer
    have hoverloads := (hresolvable entry hentry).not_overloads
    exact absurd hdiffer.1 (by simp [hoverloads])

/-- A catalog with overloaded functions `public.f` and a table `public.t`. -/
def overloaded : Catalog where
  readObjtypeFromString type :=
    .ok (some (if type = "function" then .function else .other type))
  typeStringToTypeName typestring := .ok ⟨["pg_catalog", typestring], 0⟩
  getObjectAddress
    | .function, _ => .ok (some ⟨1255, 16500⟩)
    | _, _ => .ok (some ⟨1259, 16400⟩)
  behindEnd _ := ""

def dropFunctions : List DroppedObject :=
  [⟨some "function", some ["public", "f"], some ["int4"]⟩,
    ⟨some "function", some ["public", "f"], some ["text"]⟩]

/-- `DROP TABLE public.t`, for which the event trigger function returns no arguments. -/
def dropTable : List DroppedObject := [⟨some "table", some ["public", "t"], some []⟩]

/-- The two functions resolve to one object, and for the table two arguments are read behind the end
of an empty array. -/
theorem queuedDrop_not_resolves :
    ¬Resolves overloaded dropFunctions ∧
      objectAddresses overloaded dropFunctions = .ok [⟨1255, 16500⟩, ⟨1255, 16500⟩] ∧
      ¬Resolves overloaded dropTable ∧
      (lookups overloaded dropTable).map (fun entry => entry.2.objargs) =
        [[.string "", .string ""]] := by
  refine ⟨fun h => ?_, by decide, fun h => ?_, by decide⟩
  · refine h.apart _ (List.mem_cons_self ..) _ (List.mem_cons_of_mem _ (List.mem_cons_self ..))
      ⟨rfl, rfl, rfl, by decide⟩ ⟨1255, 16500⟩ rfl rfl
  · exact absurd (congrArg List.length (h.arguments _ (List.mem_cons_self ..))) (by decide)

end Pgactive.ApplyFrame.QueuedDrop
