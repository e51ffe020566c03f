import Pgactive.CString
import Pgactive.Membership.Nodes
import Pgactive.Workers.DetachCleanup

/-!
# Removing pgactive from a database

`pgactive_remove` ends the workers and drops the slots, the origins and the truncate triggers of the
database. It parses the names of all origins of the server and fails at the first one that is not
from pgactive. After a trigger it deletes the rows of `pg_depend` for all triggers that refer to the
table: in the condition an `AND` binds stronger than the `OR` behind it.
-/

namespace Pgactive.Catalog

open CString FallibleState Names
open Pgactive.Membership (NodeStatus)
open Pgactive.Stream (NodeId)
open Pgactive.Workers (ReplicationSlot ReplicationOrigin)

/-- The catalogs that `pg_depend` refers to. -/
inductive ClassId
  | pgTrigger
  | pgClass
  | pgProc
  | other
deriving DecidableEq

/-- A row of `pg_depend`. -/
structure DependRow where
  classid : ClassId
  objid : ℕ
  refclassid : ClassId
  refobjid : ℕ
deriving DecidableEq

/-- A row of `pg_trigger`. -/
structure TriggerRow where
  oid : ℕ
  tgrelid : ℕ
  tgname : List Char
  droppable : Bool
deriving DecidableEq

def TriggerRow.key (t : TriggerRow) : ℕ × List Char := (t.tgrelid, t.tgname)

/-- The rows that `pgactive_remove` looks at. -/
structure RemoveCatalog where
  /-- `pg_replication_slots`. -/
  slots : List ReplicationSlot
  /-- `pg_replication_origin`. -/
  origins : List ReplicationOrigin
  triggers : List TriggerRow
  depend : List DependRow
  key : (triggers.map TriggerRow.key).Nodup

/-- What does not change. -/
structure RemoveEnv where
  dboid : UInt32
  queueTruncate : ℕ
  /-- There is such a relation, and it is not in the schema `pgactive`. -/
  relation : ℕ → Bool
  /-- The directory `pgactive.temp_dump_directory` can be read. -/
  dumpDirectory : Bool

/-- Who still holds a slot or an origin two seconds after the workers were told to end: a worker may
take longer, and a peer may have connected again. -/
structure Remaining where
  slotActive : NameData → Bool
  originInUse : List Char → Bool

def RemoveCatalog.terminateWorkers (c : RemoveCatalog) (remaining : Remaining) : RemoveCatalog :=
  { c with
    slots := c.slots.map fun slot => { slot with active := remaining.slotActive slot.name }
    origins := c.origins.map fun o => { o with inUse := remaining.originInUse o.name } }

inductive RemoveError
  /-- "this pgactive node might still be active, not removing" -/
  | mightBeActive
  | parse (e : ParseError)
  /-- "replication slot is active" -/
  | slotActive (name : NameData)
  /-- "could not drop replication origin, in use" -/
  | originInUse (name : List Char)
  /-- "trigger for table does not exist" -/
  | noTrigger (tgrelid : ℕ) (tgname : List Char)
  /-- "cannot drop trigger because other objects depend on it" -/
  | triggerRequired (oid : ℕ)
  /-- "could not open directory" -/
  | dumpDirectory
deriving DecidableEq

/-! ### Slots and origins -/

section Rows

variable {α : Type} {check : α → Except RemoveError Bool}

def dropRows (check : α → Except RemoveError Bool) : List α → Except RemoveError (List α)
  | [] => .ok []
  | row :: rows => do
    let drop ← check row
    let kept ← dropRows check rows
    .ok (if drop then kept else row :: kept)

theorem dropRows_eq_ok {rows kept : List α} (h : dropRows check rows = .ok kept) :
    (∀ row ∈ rows, ∃ drop, check row = .ok drop) ∧
      ∀ row, row ∈ kept ↔ row ∈ rows ∧ check row = .ok false := by
  induction rows generalizing kept with
  | nil =>
    cases h
    simp
  | cons row rows ih =>
    obtain ⟨drop, hcheck, h⟩ := except_bind_eq_ok.mp h
    obtain ⟨rest, hrest, h⟩ := except_bind_eq_ok.mp h
    cases h
    obtain ⟨hall, hkept⟩ := ih hrest
    refine ⟨List.forall_mem_cons.mpr ⟨⟨drop, hcheck⟩, hall⟩, fun row' => ?_⟩
    cases drop with
    | false =>
      simp only [Bool.false_eq_true, if_false, List.mem_cons, hkept]
      constructor
      · rintro (rfl | hrow)
        · exact ⟨.inl rfl, hcheck⟩
        · exact ⟨.inr hrow.1, hrow.2⟩
      · rintro ⟨rfl | hrow, hkeep⟩
        · exact .inl rfl
        · exact .inr ⟨hrow, hkeep⟩
    | true =>
      simp only [if_true, List.mem_cons, hkept]
      constructor
      · exact fun hrow => ⟨.inr hrow.1, hrow.2⟩
      · rintro ⟨rfl | hrow, hkeep⟩
        · rw [hcheck] at hkeep
          cases hkeep
        · exact ⟨hrow, hkeep⟩

theorem exists_dropRows_iff {rows : List α} :
    (∃ kept, dropRows check rows = .ok kept) ↔ ∀ row ∈ rows, ∃ drop, check row = .ok drop := by
  constructor
  · rintro ⟨kept, h⟩
    exact (dropRows_eq_ok h).1
  · intro hall
    induction rows with
    | nil => exact ⟨[], rfl⟩
    | cons row rows ih =>
      obtain ⟨⟨drop, hcheck⟩, hrest⟩ := List.forall_mem_cons.mp hall
      obtain ⟨kept, hkept⟩ := ih hrest
      refine ⟨if drop then kept else row :: kept, ?_⟩
      rw [dropRows, hcheck, hkept]
      rfl

end Rows

variable (env : RemoveEnv)

/-- A slot in the query that drops slots: the condition on the plugin is checked before the name is
parsed. -/
def RemoveEnv.checkSlot (slot : ReplicationSlot) : Except RemoveError Bool :=
  if slot.isPgactive then
    match parseSlotName slot.name.chars with
    | .error e => .error (.parse e)
    | .ok (_, localDboid) =>
      if localDboid = env.dboid then
        if slot.active then .error (.slotActive slot.name) else .ok true
      else .ok false
  else .ok false

def RemoveEnv.checkOrigin (o : ReplicationOrigin) : Except RemoveError Bool :=
  match parseReplidentName o.name with
  | .error e => .error (.parse e)
  | .ok (_, localDboid) =>
    if localDboid = env.dboid then
      if o.inUse then .error (.originInUse o.name) else .ok true
    else .ok false

/-! ### Truncate triggers -/

/-- A row of the query over the truncate triggers. -/
structure TruncateTg where
  tgname : List Char
  tgobjid : ℕ
  tgrelid : ℕ
deriving DecidableEq

def TruncateTg.key (tg : TruncateTg) : ℕ × List Char := (tg.tgrelid, tg.tgname)

def truncatePattern : List Char :=
  ['t', 'r', 'u', 'n', 'c', 'a', 't', 'e', '_', 't', 'r', 'i', 'g', 'g', 'e', 'r', '_', '%']

def RemoveEnv.truncateTgs (c : RemoveCatalog) : List TruncateTg :=
  c.depend.flatMap fun d => c.triggers.flatMap fun t => c.depend.filterMap fun d2 =>
    if d.refclassid = .pgClass ∧ env.relation d.refobjid ∧ d.classid = .pgTrigger ∧
        d.objid = t.oid ∧ d2.classid = d.classid ∧ d2.objid = d.objid ∧
        like truncatePattern t.tgname ∧ d2.refclassid = .pgProc ∧
        d2.refobjid = env.queueTruncate then
      some ⟨t.tgname, d.objid, d.refobjid⟩
    else none

def RemoveCatalog.dropTrigger (c : RemoveCatalog) (tgrelid : ℕ) (tgname : List Char) :
    Except RemoveError RemoveCatalog :=
  match c.triggers.find? (·.key = (tgrelid, tgname)) with
  | none => .error (.noTrigger tgrelid tgname)
  | some t =>
    if t.droppable then
      .ok { c with
        triggers := c.triggers.filter (·.key ≠ (tgrelid, tgname))
        depend := c.depend.filter fun row => ¬(row.classid = .pgTrigger ∧ row.objid = t.oid)
        key := c.key.sublist (List.filter_sublist.map _) }
    else .error (.triggerRequired t.oid)

def RemoveEnv.dangling (tg : TruncateTg) (row : DependRow) : Bool :=
  row.classid = .pgTrigger ∧
    (row.objid = tg.tgobjid ∧ (row.refclassid = .pgProc ∧ row.refobjid = env.queueTruncate) ∨
      row.refclassid = .pgClass ∧ row.refobjid = tg.tgrelid)

def RemoveEnv.dropTruncateTg (c : RemoveCatalog) (tg : TruncateTg) :
    Except RemoveError RemoveCatalog := do
  let c ← c.dropTrigger tg.tgrelid tg.tgname
  .ok { c with depend := c.depend.filter fun row => !env.dangling tg row }

/-- `pgactive_remove`, as far as it works on slots, origins and triggers. -/
def RemoveEnv.pgactiveRemove (remaining : Remaining) (localNodeStatus : Option NodeStatus)
    (force : Bool) (c : RemoveCatalog) : Except RemoveError RemoveCatalog :=
  if ¬(localNodeStatus = some .killed ∨ localNodeStatus = none) ∧ force = false then
    .error .mightBeActive
  else do
    let c := c.terminateWorkers remaining
    let slots ← dropRows env.checkSlot c.slots
    let origins ← dropRows env.checkOrigin c.origins
    let c ← (env.truncateTgs c).foldlM env.dropTruncateTg
      { c with slots := slots, origins := origins }
    -- a dump that cannot be removed is only warned about
    if env.dumpDirectory then .ok c else .error .dumpDirectory

/-! ### What the loop over the triggers does -/

section Triggers

variable {env} {c c' : RemoveCatalog} {tgs : List TruncateTg}

def RemoveCatalog.CanDrop (c : RemoveCatalog) (tg : TruncateTg) : Prop :=
  ∃ t ∈ c.triggers, t.key = tg.key ∧ t.droppable = true

def RemoveCatalog.DependsOn (c : RemoveCatalog) (keys : List (ℕ × List Char)) (row : DependRow) :
    Prop :=
  row.classid = .pgTrigger ∧ ∃ t ∈ c.triggers, t.key ∈ keys ∧ row.objid = t.oid

theorem RemoveCatalog.trigger_unique {t t' : TriggerRow} (h : t ∈ c.triggers)
    (h' : t' ∈ c.triggers) (heq : t.key = t'.key) : t = t' :=
  List.inj_on_of_nodup_map c.key h h' heq

variable {tg : TruncateTg}

theorem exists_dropTruncateTg_iff : (∃ c', env.dropTruncateTg c tg = .ok c') ↔ c.CanDrop tg := by
  unfold RemoveEnv.dropTruncateTg RemoveCatalog.dropTrigger RemoveCatalog.CanDrop
  simp only [except_bind_eq_ok]
  cases hfind : c.triggers.find? (·.key = (tg.tgrelid, tg.tgname)) with
  | none =>
    refine iff_of_false (by simp) ?_
    rintro ⟨t, hmem, hkey, -⟩
    exact absurd (decide_eq_true hkey) (List.find?_eq_none.mp hfind t hmem)
  | some t =>
    have hmem := List.mem_of_find?_eq_some hfind
    have hkey : t.key = tg.key := by simpa [TruncateTg.key] using List.find?_some hfind
    constructor
    · rintro ⟨c', c₁, hdrop, -⟩
      dsimp only at hdrop
      split_ifs at hdrop with hdroppable
      exact ⟨t, hmem, hkey, hdroppable⟩
    · rintro ⟨t', hmem', hkey', hdroppable⟩
      rw [RemoveCatalog.trigger_unique hmem' hmem (hkey'.trans hkey.symm)] at hdroppable
      simp [hdroppable]

theorem dropTruncateTg_eq_ok (h : env.dropTruncateTg c tg = .ok c') :
    c'.slots = c.slots ∧ c'.origins = c.origins ∧
      (∀ t, t ∈ c'.triggers ↔ t ∈ c.triggers ∧ t.key ≠ tg.key) ∧
      ∀ row, row ∈ c'.depend ↔
        row ∈ c.depend ∧ ¬c.DependsOn [tg.key] row ∧ env.dangling tg row = false := by
  obtain ⟨c₁, hdrop, h⟩ := except_bind_eq_ok.mp h
  cases h
  unfold RemoveCatalog.dropTrigger at hdrop
  cases hfind : c.triggers.find? (·.key = (tg.tgrelid, tg.tgname)) with
  | none =>
    rw [hfind] at hdrop
    cases hdrop
  | some t =>
    have hmem := List.mem_of_find?_eq_some hfind
    have hkey : t.key = tg.key := by simpa [TruncateTg.key] using List.find?_some hfind
    have hdepends : ∀ row, c.DependsOn [tg.key] row ↔
        row.classid = .pgTrigger ∧ row.objid = t.oid := by
      intro row
      refine and_congr_right fun _ => ⟨?_, fun hoid => ⟨t, hmem, by simp [hkey], hoid⟩⟩
      rintro ⟨t', hmem', hkey', hoid⟩
      rwa [RemoveCatalog.trigger_unique hmem hmem'
        (hkey.trans (List.mem_singleton.mp hkey').symm)]
    rw [hfind] at hdrop
    dsimp only at hdrop
    split_ifs at hdrop
    cases hdrop
    refine ⟨rfl, rfl, fun t' => ?_, fun row => ?_⟩
    · simp [TruncateTg.key]
    · rw [hdepends]
      simp only [List.mem_filter, decide_eq_true_eq, Bool.not_eq_true', and_assoc]

theorem forall_canDrop_iff (h : env.dropTruncateTg c tg = .ok c') :
    (∀ tg' ∈ tgs, c'.CanDrop tg') ↔
      tg.key ∉ tgs.map TruncateTg.key ∧ ∀ tg' ∈ tgs, c.CanDrop tg' := by
  obtain ⟨-, -, htriggers, -⟩ := dropTruncateTg_eq_ok h
  constructor
  · intro hall
    constructor
    · intro hmem
      obtain ⟨tg', htg', hkey⟩ := List.mem_map.mp hmem
      obtain ⟨t, ht, hkey', -⟩ := hall tg' htg'
      exact ((htriggers t).mp ht).2 (hkey'.trans hkey)
    · intro tg' htg'
      obtain ⟨t, ht, hdrop⟩ := hall tg' htg'
      exact ⟨t, ((htriggers t).mp ht).1, hdrop⟩
  · rintro ⟨hnotin, hall⟩ tg' htg'
    obtain ⟨t, ht, hkey, hdroppable⟩ := hall tg' htg'
    refine ⟨t, (htriggers t).mpr ⟨ht, fun heq => hnotin ?_⟩, hkey, hdroppable⟩
    rw [← heq, hkey]
    exact List.mem_map_of_mem htg'

theorem exists_foldlM_iff :
    (∃ c', tgs.foldlM env.dropTruncateTg c = .ok c') ↔
      (tgs.map TruncateTg.key).Nodup ∧ ∀ tg ∈ tgs, c.CanDrop tg := by
  induction tgs generalizing c with
  | nil =>
    refine iff_of_true ⟨c, rfl⟩ ?_
    simp
  | cons tg tgs ih =>
    rw [List.map_cons, List.nodup_cons, List.forall_mem_cons, ← exists_dropTruncateTg_iff]
    constructor
    · rintro ⟨c', h⟩
      obtain ⟨c₁, hfirst, hrest⟩ := foldlM_cons_eq_ok.mp h
      obtain ⟨hnodup, hall⟩ := ih.mp ⟨c', hrest⟩
      obtain ⟨hnotin, hall⟩ := (forall_canDrop_iff hfirst).mp hall
      exact ⟨⟨hnotin, hnodup⟩, ⟨c₁, hfirst⟩, hall⟩
    · rintro ⟨⟨hnotin, hnodup⟩, ⟨c₁, hfirst⟩, hall⟩
      obtain ⟨c', hrest⟩ := ih.mpr ⟨hnodup, (forall_canDrop_iff hfirst).mpr ⟨hnotin, hall⟩⟩
      exact ⟨c', (foldlM_cons_of_ok hfirst tgs).trans hrest⟩

theorem foldlM_dropTruncateTg (h : tgs.foldlM env.dropTruncateTg c = .ok c') :
    c'.slots = c.slots ∧ c'.origins = c.origins ∧
      (∀ t, t ∈ c'.triggers ↔ t ∈ c.triggers ∧ t.key ∉ tgs.map TruncateTg.key) ∧
      ∀ row, row ∈ c'.depend ↔ row ∈ c.depend ∧
        ¬c.DependsOn (tgs.map TruncateTg.key) row ∧ ∀ tg ∈ tgs, env.dangling tg row = false := by
  induction tgs generalizing c with
  | nil =>
    cases h
    refine ⟨rfl, rfl, by simp, fun row => ?_⟩
    simp [RemoveCatalog.DependsOn]
  | cons tg tgs ih =>
    obtain ⟨c₁, hfirst, hrest⟩ := foldlM_cons_eq_ok.mp h
    obtain ⟨hslots₁, horigins₁, htriggers₁, hdepend₁⟩ := dropTruncateTg_eq_ok hfirst
    obtain ⟨hslots, horigins, htriggers, hdepend⟩ := ih hrest
    refine ⟨hslots.trans hslots₁, horigins.trans horigins₁, fun t => ?_, fun row => ?_⟩
    · rw [htriggers, htriggers₁, List.map_cons, List.mem_cons, not_or, and_assoc]
    · have hdependsOn : c.DependsOn ((tg :: tgs).map TruncateTg.key) row ↔
          c.DependsOn [tg.key] row ∨ c₁.DependsOn (tgs.map TruncateTg.key) row := by
        unfold RemoveCatalog.DependsOn
        simp only [htriggers₁, List.map_cons, List.mem_cons, List.not_mem_nil, or_false]
        constructor
        · rintro ⟨hclass, t, ht, hkey, hoid⟩
          by_cases hfirst : t.key = tg.key
          · exact .inl ⟨hclass, t, ht, hfirst, hoid⟩
          · exact .inr ⟨hclass, t, ⟨ht, hfirst⟩, hkey.resolve_left hfirst, hoid⟩
        · rintro (⟨hclass, t, ht, hkey, hoid⟩ | ⟨hclass, t, ⟨ht, -⟩, hkey, hoid⟩)
          · exact ⟨hclass, t, ht, .inl hkey, hoid⟩
          · exact ⟨hclass, t, ht, .inr hkey, hoid⟩
      rw [hdepend, hdepend₁, hdependsOn, List.forall_mem_cons, not_or]
      tauto

end Triggers

/-! ### The frame -/

def RemoveEnv.LocalSlot (slot : ReplicationSlot) : Prop :=
  slot.isPgactive = true ∧ ∃ remote, parseSlotName slot.name.chars = .ok (remote, env.dboid)

def RemoveEnv.LocalOrigin (o : ReplicationOrigin) : Prop :=
  ∃ remote, o.name = replidentName remote env.dboid

/-- Exactly the slots and origins of the current database are gone, and rows of `pg_depend` only if
the dependent object is a trigger that is gone. -/
def RemoveEnv.Framed (c c' : RemoveCatalog) : Prop :=
  (∀ slot, slot ∈ c'.slots ↔ slot ∈ c.slots ∧ ¬env.LocalSlot slot) ∧
    (∀ o, o ∈ c'.origins ↔ o ∈ c.origins ∧ ¬env.LocalOrigin o) ∧
    ∀ row ∈ c.depend, row ∉ c'.depend →
      row.classid = .pgTrigger ∧ ∃ t ∈ c.triggers, t ∉ c'.triggers ∧ row.objid = t.oid

/-- The conditions on the catalogs. -/
structure RemoveEnv.Removable (c : RemoveCatalog) : Prop where
  /-- The names of the slots of pgactive can be parsed, and those of the database are not active. -/
  slots : ∀ slot ∈ c.slots, slot.isPgactive = true → ∃ remote localDboid,
    parseSlotName slot.name.chars = .ok (remote, localDboid) ∧
      (localDboid = env.dboid → slot.active = false)
  /-- The names of all origins can be parsed; those that are read as origins of the database are
  from pgactive, and not in use. -/
  origins : ∀ o ∈ c.origins, ∃ remote localDboid,
    parseReplidentName o.name = .ok (remote, localDboid) ∧
      (localDboid = env.dboid → o.name = replidentName remote env.dboid ∧ o.inUse = false)
  /-- The query lists no table and name of a trigger twice. -/
  nodup : ((env.truncateTgs c).map TruncateTg.key).Nodup
  canDrop : ∀ tg ∈ env.truncateTgs c, c.CanDrop tg
  /-- All triggers with a dependency on a table that it lists are listed, too. -/
  depend : ∀ tg ∈ env.truncateTgs c, ∀ row ∈ c.depend, env.dangling tg row = true →
    c.DependsOn ((env.truncateTgs c).map TruncateTg.key) row
  dumpDirectory : env.dumpDirectory = true

section Frame

variable {env} {c c' : RemoveCatalog}

theorem exists_checkSlot_iff {slot : ReplicationSlot} :
    (∃ drop, env.checkSlot slot = .ok drop) ↔
      (slot.isPgactive = true → ∃ remote localDboid,
        parseSlotName slot.name.chars = .ok (remote, localDboid) ∧
          (localDboid = env.dboid → slot.active = false)) := by
  unfold RemoveEnv.checkSlot
  by_cases hplugin : slot.isPgactive = true
  · rw [if_pos hplugin]
    cases parseSlotName slot.name.chars with
    | error e => simp [hplugin]
    | ok parsed =>
      obtain ⟨remote, localDboid⟩ := parsed
      by_cases hlocal : localDboid = env.dboid <;> cases hactive : slot.active <;>
        simp [hlocal, hplugin]
  · simp [hplugin]

theorem checkSlot_eq_false {slot : ReplicationSlot} {drop : Bool}
    (h : env.checkSlot slot = .ok drop) : drop = false ↔ ¬env.LocalSlot slot := by
  unfold RemoveEnv.checkSlot at h
  unfold RemoveEnv.LocalSlot
  by_cases hplugin : slot.isPgactive = true
  · rw [if_pos hplugin] at h
    cases hparse : parseSlotName slot.name.chars with
    | error e =>
      rw [hparse] at h
      cases h
    | ok parsed =>
      obtain ⟨remote, localDboid⟩ := parsed
      rw [hparse] at h
      dsimp only at h
      split_ifs at h with hlocal
      · cases h
        simp [hplugin, hlocal]
      · cases h
        simp [hplugin, hlocal]
  · rw [if_neg hplugin] at h
    cases h
    simp [hplugin]

variable {o : ReplicationOrigin}

theorem exists_checkOrigin_iff :
    (∃ drop, env.checkOrigin o = .ok drop) ↔
      ∃ remote localDboid, parseReplidentName o.name = .ok (remote, localDboid) ∧
        (localDboid = env.dboid → o.inUse = false) := by
  unfold RemoveEnv.checkOrigin
  cases parseReplidentName o.name with
  | error e => simp
  | ok parsed =>
    obtain ⟨remote, localDboid⟩ := parsed
    by_cases hlocal : localDboid = env.dboid <;> cases huse : o.inUse <;> simp [hlocal]

theorem checkOrigin_eq_true {drop : Bool} {remote : NodeId} {localDboid : UInt32}
    (h : env.checkOrigin o = .ok drop)
    (hparse : parseReplidentName o.name = .ok (remote, localDboid)) :
    drop = true ↔ localDboid = env.dboid := by
  unfold RemoveEnv.checkOrigin at h
  rw [hparse] at h
  dsimp only at h
  split_ifs at h with hlocal
  · cases h
    simp [hlocal]
  · cases h
    simp [hlocal]

theorem parse_of_localOrigin (h : env.LocalOrigin o) :
    ∃ remote, parseReplidentName o.name = .ok (remote, env.dboid) := by
  obtain ⟨remote, hname⟩ := h
  exact ⟨remote, by rw [hname, parseReplidentName_replidentName]⟩

variable {slots : List ReplicationSlot}

theorem mem_slots_iff {kept : List ReplicationSlot} (h : dropRows env.checkSlot slots = .ok kept)
    (slot : ReplicationSlot) : slot ∈ kept ↔ slot ∈ slots ∧ ¬env.LocalSlot slot := by
  obtain ⟨hall, hmem⟩ := dropRows_eq_ok h
  rw [hmem]
  refine and_congr_right fun hslot => ?_
  obtain ⟨drop, hcheck⟩ := hall slot hslot
  rw [← checkSlot_eq_false hcheck, hcheck, Except.ok.injEq]

theorem exists_keptSlots_iff :
    (∃ kept, dropRows env.checkSlot slots = .ok kept ∧
        ∀ slot, slot ∈ kept ↔ slot ∈ slots ∧ ¬env.LocalSlot slot) ↔
      ∀ slot ∈ slots, slot.isPgactive = true → ∃ remote localDboid,
        parseSlotName slot.name.chars = .ok (remote, localDboid) ∧
          (localDboid = env.dboid → slot.active = false) := by
  simp only [← exists_checkSlot_iff, ← exists_dropRows_iff]
  exact exists_congr fun kept => and_iff_left_of_imp mem_slots_iff

variable {origins : List ReplicationOrigin}

theorem mem_origins_iff {kept : List ReplicationOrigin}
    (h : dropRows env.checkOrigin origins = .ok kept) :
    (∀ o, o ∈ kept ↔ o ∈ origins ∧ ¬env.LocalOrigin o) ↔
      ∀ o ∈ origins, ∀ remote, parseReplidentName o.name = .ok (remote, env.dboid) →
        o.name = replidentName remote env.dboid := by
  obtain ⟨hall, hmem⟩ := dropRows_eq_ok h
  simp only [hmem]
  constructor
  · intro hframe o ho remote hparse
    obtain ⟨drop, hcheck⟩ := hall o ho
    have hdrop : drop = true := (checkOrigin_eq_true hcheck hparse).mpr rfl
    have hlocal : env.LocalOrigin o := by
      by_contra hother
      have hkept := ((hframe o).mpr ⟨ho, hother⟩).2
      rw [hcheck, hdrop] at hkept
      cases hkept
    obtain ⟨remote', hname⟩ := hlocal
    rw [hname, parseReplidentName_replidentName] at hparse
    cases hparse
    exact hname
  · intro hnames o
    refine and_congr_right fun ho => ?_
    obtain ⟨drop, hcheck⟩ := hall o ho
    obtain ⟨remote, localDboid, hparse, -⟩ := exists_checkOrigin_iff.mp ⟨drop, hcheck⟩
    rw [hcheck, Except.ok.injEq, ← Bool.not_eq_true, checkOrigin_eq_true hcheck hparse]
    refine not_congr ⟨?_, fun hlocal => ?_⟩
    · rintro rfl
      exact ⟨remote, hnames o ho remote hparse⟩
    · obtain ⟨remote', hparse'⟩ := parse_of_localOrigin hlocal
      rw [hparse] at hparse'
      cases hparse'
      rfl

theorem exists_keptOrigins_iff :
    (∃ kept, dropRows env.checkOrigin origins = .ok kept ∧
        ∀ o, o ∈ kept ↔ o ∈ origins ∧ ¬env.LocalOrigin o) ↔
      ∀ o ∈ origins, ∃ remote localDboid, parseReplidentName o.name = .ok (remote, localDboid) ∧
        (localDboid = env.dboid → o.name = replidentName remote env.dboid ∧ o.inUse = false) := by
  constructor
  · rintro ⟨kept, hdrop, hframe⟩ o ho
    obtain ⟨remote, localDboid, hparse, huse⟩ :=
      exists_checkOrigin_iff.mp ((dropRows_eq_ok hdrop).1 o ho)
    refine ⟨remote, localDboid, hparse, ?_⟩
    rintro rfl
    exact ⟨(mem_origins_iff hdrop).mp hframe o ho remote hparse, huse rfl⟩
  · intro hnames
    have hchecked : ∀ o ∈ origins, ∃ drop, env.checkOrigin o = .ok drop := by
      intro o ho
      obtain ⟨remote, localDboid, hparse, hlocal⟩ := hnames o ho
      exact exists_checkOrigin_iff.mpr ⟨remote, localDboid, hparse, fun heq => (hlocal heq).2⟩
    obtain ⟨kept, hdrop⟩ := exists_dropRows_iff.mpr hchecked
    refine ⟨kept, hdrop, (mem_origins_iff hdrop).mpr fun o ho remote hparse => ?_⟩
    obtain ⟨remote', localDboid, hparse', hlocal⟩ := hnames o ho
    rw [hparse] at hparse'
    cases hparse'
    exact (hlocal rfl).1

theorem depend_framed_iff {tgs : List TruncateTg}
    (h : tgs.foldlM env.dropTruncateTg { c with slots := slots, origins := origins } = .ok c') :
    (∀ row ∈ c.depend, row ∉ c'.depend →
        row.classid = .pgTrigger ∧ ∃ t ∈ c.triggers, t ∉ c'.triggers ∧ row.objid = t.oid) ↔
      ∀ tg ∈ tgs, ∀ row ∈ c.depend, env.dangling tg row = true →
        c.DependsOn (tgs.map TruncateTg.key) row := by
  obtain ⟨-, -, htriggers, hdepend⟩ := foldlM_dropTruncateTg h
  have hgone : ∀ t ∈ c.triggers, t ∉ c'.triggers ↔ t.key ∈ tgs.map TruncateTg.key := by
    intro t ht
    rw [htriggers, not_and, not_not]
    exact ⟨fun hkey => hkey ht, fun hkey _ => hkey⟩
  have hdropped : ∀ row : DependRow, (row.classid = .pgTrigger ∧
      ∃ t ∈ c.triggers, t ∉ c'.triggers ∧ row.objid = t.oid) ↔
        c.DependsOn (tgs.map TruncateTg.key) row := by
    intro row
    refine and_congr_right fun _ => exists_congr fun t => and_congr_right fun ht => ?_
    rw [hgone t ht]
  simp only [hdropped]
  constructor
  · intro hframe tg htg row hrow hdangling
    refine hframe row hrow fun hkept => ?_
    have hfalse := ((hdepend row).mp hkept).2.2 tg htg
    rw [hdangling] at hfalse
    cases hfalse
  · intro hlisted row hrow hdeleted
    by_contra hother
    refine hdeleted ((hdepend row).mpr ⟨hrow, hother, fun tg htg => ?_⟩)
    by_contra hdangling
    exact hother (hlisted tg htg row hrow (Bool.not_eq_false _ ▸ hdangling))

end Frame

/-- For all catalogs, on a node whose status is killed or absent: the function completes, drops
exactly the slots and origins of the current database, and deletes rows of `pg_depend` only with
their trigger, exactly if the conditions on the catalogs hold once the workers have been told to
end. -/
theorem pgactiveRemove_framed (remaining : Remaining) (localNodeStatus : Option NodeStatus)
    (force : Bool) (c : RemoveCatalog)
    (hstatus : localNodeStatus = some .killed ∨ localNodeStatus = none) :
    (∃ c', env.pgactiveRemove remaining localNodeStatus force c = .ok c' ∧
        env.Framed (c.terminateWorkers remaining) c') ↔
      env.Removable (c.terminateWorkers remaining) := by
  unfold RemoveEnv.pgactiveRemove RemoveEnv.Framed
  rw [if_neg fun h => h.1 hstatus]
  dsimp only
  generalize c.terminateWorkers remaining = c
  constructor
  · rintro ⟨c', h, hslots, horigins, hdepend⟩
    obtain ⟨slots, hdropSlots, h⟩ := except_bind_eq_ok.mp h
    obtain ⟨origins, hdropOrigins, h⟩ := except_bind_eq_ok.mp h
    obtain ⟨c', h, hdirectory⟩ := except_bind_eq_ok.mp h
    split_ifs at hdirectory with hreadable
    cases hdirectory
    obtain ⟨hslotsEq, horiginsEq, -, -⟩ := foldlM_dropTruncateTg h
    rw [hslotsEq] at hslots
    rw [horiginsEq] at horigins
    obtain ⟨hnodup, hcanDrop⟩ := exists_foldlM_iff.mp ⟨c', h⟩
    exact ⟨exists_keptSlots_iff.mp ⟨slots, hdropSlots, hslots⟩,
      exists_keptOrigins_iff.mp ⟨origins, hdropOrigins, horigins⟩, hnodup, hcanDrop,
      (depend_framed_iff h).mp hdepend, hreadable⟩
  · intro hremovable
    obtain ⟨slots, hdropSlots, hslots⟩ := exists_keptSlots_iff.mpr hremovable.slots
    obtain ⟨origins, hdropOrigins, horigins⟩ := exists_keptOrigins_iff.mpr hremovable.origins
    obtain ⟨c', h⟩ : ∃ c', (env.truncateTgs c).foldlM env.dropTruncateTg
        { c with slots := slots, origins := origins } = .ok c' :=
      exists_foldlM_iff.mpr ⟨hremovable.nodup, hremovable.canDrop⟩
    obtain ⟨(hslotsEq : c'.slots = slots), (horiginsEq : c'.origins = origins), -, -⟩ :=
      foldlM_dropTruncateTg h
    rw [← hslotsEq] at hslots
    rw [← horiginsEq] at horigins
    refine ⟨c', ?_, hslots, horigins, (depend_framed_iff h).mpr hremovable.depend⟩
    exact except_bind_eq_ok.mpr ⟨slots, hdropSlots, except_bind_eq_ok.mpr ⟨origins, hdropOrigins,
      except_bind_eq_ok.mpr ⟨c', h, if_pos hremovable.dumpDirectory⟩⟩⟩

def fifthDatabase : RemoveEnv := ⟨5, 50, fun relation => relation = 10, true⟩

def allEnded : Remaining := ⟨fun _ => false, fun _ => false⟩

def truncateTrigger : TriggerRow := ⟨100, 10, truncatePattern.dropLast ++ ['1', '0'], true⟩

def onePeerCatalog : RemoveCatalog where
  slots := [⟨slotName (Workers.peer 1) 5, true, 5, true⟩]
  origins := [⟨replidentName (Workers.peer 1) 5, true⟩]
  triggers := [truncateTrigger]
  depend := [⟨.pgTrigger, 100, .pgClass, 10⟩, ⟨.pgTrigger, 100, .pgProc, 50⟩]
  key := List.nodup_singleton _

/-- With nothing else on the server, and workers that end in time, the function does what it
should. -/
theorem pgactiveRemove_framed_onePeer :
    (none = some NodeStatus.killed ∨ (none : Option NodeStatus) = none) ∧
      ∃ c', fifthDatabase.pgactiveRemove allEnded none false onePeerCatalog = .ok c' ∧
        fifthDatabase.Framed (onePeerCatalog.terminateWorkers allEnded) c' := by
  refine ⟨.inr rfl, (pgactiveRemove_framed _ allEnded none false _ (.inr rfl)).mpr
    ⟨?_, ?_, ?_, ?_, ?_, rfl⟩⟩
  · intro slot hslot _
    rw [List.mem_singleton.mp hslot]
    exact ⟨Workers.peer 1, 5, parseSlotName_slotName _ _, fun _ => rfl⟩
  · intro o ho
    rw [List.mem_singleton.mp ho]
    exact ⟨Workers.peer 1, 5, parseReplidentName_replidentName _ _, fun _ => ⟨rfl, rfl⟩⟩
  · decide
  · intro tg htg
    rw [List.mem_singleton.mp htg]
    exact ⟨_, List.mem_singleton_self _, rfl, rfl⟩
  · intro tg _ row hrow _
    have hrows : ∀ row ∈ onePeerCatalog.depend,
        row.classid = .pgTrigger ∧ row.objid = truncateTrigger.oid := by decide
    obtain ⟨hclass, hoid⟩ := hrows row hrow
    exact ⟨hclass, truncateTrigger, List.mem_singleton_self _, by decide, hoid⟩

def userTriggerCatalog : RemoveCatalog where
  slots := []
  origins := []
  triggers := [truncateTrigger, ⟨200, 10, ['a', 'u', 'd', 'i', 't'], true⟩]
  depend := [⟨.pgTrigger, 100, .pgClass, 10⟩, ⟨.pgTrigger, 100, .pgProc, 50⟩,
    ⟨.pgTrigger, 200, .pgClass, 10⟩]
  key := by decide

/-- The origin of a subscription stops the function. And a trigger of the user on a table with a
truncate trigger is left without its dependency on the table. -/
theorem pgactiveRemove_unframed :
    fifthDatabase.pgactiveRemove allEnded none false { onePeerCatalog with
        origins := [⟨['p', 'g', '_', '1', '6', '3', '8', '9'], false⟩] } =
      .error (.parse (.couldNotParse ['p', 'g', '_', '1', '6', '3', '8', '9'])) ∧
    ∃ c', fifthDatabase.pgactiveRemove allEnded none false userTriggerCatalog = .ok c' ∧
      c'.triggers = [⟨200, 10, ['a', 'u', 'd', 'i', 't'], true⟩] ∧ c'.depend = [] :=
  ⟨rfl, _, rfl, rfl, rfl⟩

end Pgactive.Catalog
