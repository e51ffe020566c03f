import Pgactive.Names

/-!
# Joining the databases of a remote server

`pgactive_init_copy` reads the sets and the node identifier of each database, and then joins the
databases. The first loop ends at a database whose nodes have different sets, so that from there on
no identifier is read. The second one keeps the sets of the first database, if none are on the
command line.
-/

namespace Pgactive.InitCopy

open FallibleState Names Pgactive.Stream

/-! ### The program -/

/-- A database of the remote server that has a label of pgactive. -/
structure Database where
  dboid : UInt32
  dbname : List Char
  /-- The different lists of replication sets of its nodes as texts, or none if the query fails. -/
  setsRows : Option (List (List Char))
  /-- `pgactive_get_node_identifier`. -/
  nid : UInt64
  nidRead : Bool
  /-- The commands for this database on the local server succeed. -/
  joins : Bool

/-- The messages with which the program ends. -/
inductive Die
  /-- "Could fetch replication set info from database %s: %s" -/
  | setsQuery (dbname : List Char)
  /-- "The remote node is not configured as a pgactive node." -/
  | notConfigured
  /-- "Could not fetch pgactive node identifier: %s" -/
  | nidQuery
  /-- "Remote node does not have any pgactive enabled databases." -/
  | noDatabases
  /-- "Replication sets parameter is required when adding node to cluster with asymetric replication
  sets." -/
  | setsRequired
  | localCommand (dbname : List Char)
deriving DecidableEq

/-- The arrays of `RemoteInfo` that are filled for each database. -/
structure RemoteInfo where
  nids : List UInt64
  /-- `NULL`, or an array whose elements were set or not. -/
  replicationSets : Option (List (Option (List Char)))
deriving DecidableEq

def remoteLoop : RemoteInfo → ℕ → List Database → Except Die RemoteInfo
  | ri, _, [] => .ok ri
  | ri, i, db :: dbs =>
    match db.setsRows with
    | none => .error (.setsQuery db.dbname)
    | some [] => .error .notConfigured
    | some [sets] =>
      if db.nidRead then
        remoteLoop ⟨ri.nids.set i db.nid, ri.replicationSets.map fun all => all.set i (some sets)⟩
          (i + 1) dbs
      else .error .nidQuery
    | some (_ :: _ :: _) => .ok { ri with replicationSets := none }

variable (dbs : List Database)

def getRemoteInfo : Except Die RemoteInfo :=
  remoteLoop ⟨List.replicate dbs.length 0, some (List.replicate dbs.length none)⟩ 0 dbs

/-- What is done for a database on the local server: the sets that it is joined with, and the
replication origin that is created. -/
structure Joined where
  dbname : List Char
  replicationSets : Option (List Char)
  origin : List Char
deriving DecidableEq

def initializeReplicationIdentifier (tlid dboid : UInt32) (nid : UInt64) : List Char :=
  replidentName ⟨nid, tlid, dboid⟩ dboid

def RemoteInfo.setsAt (ri : RemoteInfo) (i : ℕ) : Option (List Char) :=
  (ri.replicationSets.bind fun all => all[i]?).join

/-- The last loop of `main`, with the variable `replication_sets`. -/
def joinLoop (tlid : UInt32) (ri : RemoteInfo) :
    Option (List Char) → ℕ → List Database → Except Die (List Joined)
  | _, _, [] => .ok []
  | replicationSets, i, db :: dbs =>
    let replicationSets := replicationSets.or (ri.setsAt i)
    if db.joins then
      (⟨db.dbname, replicationSets,
          initializeReplicationIdentifier tlid db.dboid (ri.nids.getD i 0)⟩ :: ·) <$>
        joinLoop tlid ri replicationSets (i + 1) dbs
    else .error (.localCommand db.dbname)

/-- The parts of `main` that depend on the databases. -/
def initCopy (tlid : UInt32) (replicationSets : Option (List Char)) (dbs : List Database) :
    Except Die (List Joined) := do
  let ri ← getRemoteInfo dbs
  if dbs.length < 1 then throw .noDatabases
  else if ri.replicationSets.isNone ∧ replicationSets.isNone then throw .setsRequired
  else joinLoop tlid ri replicationSets 0 dbs

/-! ### The first loop -/

def Database.sets (db : Database) : Option (List Char) :=
  match db.setsRows with
  | some [sets] => some sets
  | _ => none

def Database.symmetric (db : Database) : Bool := db.sets.isSome

def sameSets : List Database := dbs.takeWhile Database.symmetric

def fromDiffering : List Database := dbs.dropWhile Database.symmetric

/-- All queries of the first loop succeed. -/
structure Readable (dbs : List Database) : Prop where
  nids : ∀ db ∈ sameSets dbs, db.nidRead = true
  rows : ∀ db ∈ (fromDiffering dbs).head?, ∃ rows, db.setsRows = some rows ∧ rows ≠ []

def readNids : List UInt64 :=
  (sameSets dbs).map Database.nid ++ List.replicate (fromDiffering dbs).length 0

def readSets : Option (List (Option (List Char))) :=
  if dbs.all Database.symmetric then some (dbs.map Database.sets) else none

section Cons

variable {db : Database} (dbs : List Database)

theorem readable_cons_of_symmetric (h : db.symmetric = true) :
    Readable (db :: dbs) ↔ db.nidRead = true ∧ Readable dbs := by
  have hsame : sameSets (db :: dbs) = db :: sameSets dbs := List.takeWhile_cons_of_pos h
  have hfrom : fromDiffering (db :: dbs) = fromDiffering dbs := List.dropWhile_cons_of_pos h
  constructor
  · intro hread
    have hnids := hread.nids
    have hrows := hread.rows
    rw [hsame, List.forall_mem_cons] at hnids
    rw [hfrom] at hrows
    exact ⟨hnids.1, hnids.2, hrows⟩
  · rintro ⟨hnid, hread⟩
    refine ⟨?_, ?_⟩
    · rw [hsame, List.forall_mem_cons]
      exact ⟨hnid, hread.nids⟩
    · rw [hfrom]
      exact hread.rows

theorem readable_cons_of_not_symmetric (h : ¬db.symmetric = true) :
    Readable (db :: dbs) ↔ ∃ rows, db.setsRows = some rows ∧ rows ≠ [] := by
  have hsame : sameSets (db :: dbs) = [] := List.takeWhile_cons_of_neg h
  have hfrom : fromDiffering (db :: dbs) = db :: dbs := List.dropWhile_cons_of_neg h
  constructor
  · intro hread
    have hrows := hread.rows
    rw [hfrom] at hrows
    exact hrows db rfl
  · intro hrows
    refine ⟨?_, ?_⟩
    · rw [hsame]
      exact fun db hdb => absurd hdb List.not_mem_nil
    · rw [hfrom]
      rintro _ ⟨⟩
      exact hrows

theorem readNids_cons_of_symmetric (h : db.symmetric = true) :
    readNids (db :: dbs) = db.nid :: readNids dbs := by
  rw [readNids, sameSets, fromDiffering, List.takeWhile_cons_of_pos h,
    List.dropWhile_cons_of_pos h]
  rfl

theorem readNids_cons_of_not_symmetric (h : ¬db.symmetric = true) :
    readNids (db :: dbs) = List.replicate (db :: dbs).length 0 := by
  rw [readNids, sameSets, fromDiffering, List.takeWhile_cons_of_neg h,
    List.dropWhile_cons_of_neg h]
  rfl

end Cons

variable {db : Database} {sets : List Char}

theorem remoteLoop_cons_of_sets (h : db.sets = some sets) (hread : db.nidRead = true)
    (ri : RemoteInfo) (i : ℕ) (dbs : List Database) :
    remoteLoop ri i (db :: dbs) =
      remoteLoop ⟨ri.nids.set i db.nid, ri.replicationSets.map fun all => all.set i (some sets)⟩
        (i + 1) dbs := by
  unfold Database.sets at h
  split at h
  · next hrows =>
    cases h
    rw [remoteLoop, hrows]
    exact if_pos hread
  · cases h

theorem remoteLoop_cons_ne_ok (h : db.sets = some sets) (hread : ¬db.nidRead = true)
    (ri ri' : RemoteInfo) (i : ℕ) (dbs : List Database) :
    remoteLoop ri i (db :: dbs) ≠ .ok ri' := by
  unfold Database.sets at h
  split at h
  · next hrows =>
    rw [remoteLoop, hrows]
    dsimp only
    rw [if_neg hread]
    simp
  · cases h

variable {ri : RemoteInfo} {i : ℕ} {dbs : List Database}

theorem remoteLoop_cons_of_not_symmetric (h : ¬db.symmetric = true) {ri' : RemoteInfo} :
    remoteLoop ri i (db :: dbs) = .ok ri' ↔
      (∃ rows, db.setsRows = some rows ∧ rows ≠ []) ∧
        ri' = { ri with replicationSets := none } := by
  rw [remoteLoop]
  cases hrows : db.setsRows with
  | none => simp
  | some rows =>
    rcases rows with _ | ⟨first, _ | ⟨second, rows⟩⟩
    · simp
    · exact absurd (by simp [Database.symmetric, Database.sets, hrows]) h
    · simp [eq_comm]

theorem set_append_replicate {α : Type} {done : List α} (h : done.length = i) (n : ℕ) (a b : α) :
    (done ++ List.replicate (n + 1) a).set i b = (done ++ [b]) ++ List.replicate n a := by
  rw [← h, List.set_append_right _ _ le_rfl, Nat.sub_self, List.replicate_succ, List.set_cons_zero,
    List.append_assoc, List.singleton_append]

theorem remoteLoop_eq_ok {nids : List UInt64} {sets : List (Option (List Char))}
    (hnids : nids.length = i) (hsets : sets.length = i) :
    remoteLoop ⟨nids ++ List.replicate dbs.length 0, some (sets ++ List.replicate dbs.length none)⟩
        i dbs = .ok ri ↔
      Readable dbs ∧ ri = ⟨nids ++ readNids dbs, (readSets dbs).map fun read => sets ++ read⟩ := by
  induction dbs generalizing nids sets i with
  | nil =>
    have hread : Readable [] := by
      refine ⟨fun db hdb => absurd hdb List.not_mem_nil, fun db hdb => ?_⟩
      cases hdb
    rw [and_iff_right hread]
    exact ⟨fun h => (Except.ok.inj h).symm, fun h => congrArg Except.ok h.symm⟩
  | cons db dbs ih =>
    cases hdb : db.sets with
    | none =>
      have hsym : ¬db.symmetric = true := by simp [Database.symmetric, hdb]
      have hnone : readSets (db :: dbs) = none := by
        rw [readSets, List.all_cons, Bool.eq_false_iff.mpr hsym]
        rfl
      rw [remoteLoop_cons_of_not_symmetric hsym, readable_cons_of_not_symmetric dbs hsym,
        readNids_cons_of_not_symmetric dbs hsym, hnone]
      rfl
    | some first =>
      have hsym : db.symmetric = true := by simp [Database.symmetric, hdb]
      have hcons : (readSets (db :: dbs)).map (fun read => sets ++ read) =
          (readSets dbs).map fun read => (sets ++ [some first]) ++ read := by
        rw [readSets, readSets, List.all_cons, hsym, Bool.true_and]
        split_ifs
        · simp [hdb]
        · rfl
      rw [readable_cons_of_symmetric dbs hsym, readNids_cons_of_symmetric dbs hsym, hcons]
      by_cases hread : db.nidRead = true
      · have hstep := congrArg₂ RemoteInfo.mk (set_append_replicate hnids dbs.length 0 db.nid)
          (congrArg some (set_append_replicate hsets dbs.length none (some first)))
        have hloop := (remoteLoop_cons_of_sets hdb hread
          ⟨nids ++ List.replicate (dbs.length + 1) 0,
            some (sets ++ List.replicate (dbs.length + 1) none)⟩ i dbs).trans
          (congrArg (fun ri => remoteLoop ri (i + 1) dbs) hstep)
        have hnids' : (nids ++ [db.nid]).length = i + 1 := by simp [hnids]
        have hsets' : (sets ++ [some first]).length = i + 1 := by simp [hsets]
        rw [and_iff_right hread]
        refine (iff_of_eq (congrArg (· = _) hloop)).trans ((ih hnids' hsets').trans ?_)
        rw [List.append_assoc, List.singleton_append]
      · exact iff_of_false (remoteLoop_cons_ne_ok hdb hread _ _ _ _) fun h => hread h.1.1

theorem getRemoteInfo_eq_ok :
    getRemoteInfo dbs = .ok ri ↔ Readable dbs ∧ ri = ⟨readNids dbs, readSets dbs⟩ := by
  have hloop := @remoteLoop_eq_ok ri 0 dbs [] [] rfl rfl
  simp only [List.nil_append, Option.map_id'] at hloop
  exact hloop

/-! ### The second loop -/

def Database.joined (db : Database) (tlid : UInt32) (replicationSets : Option (List Char))
    (nid : UInt64) : Joined :=
  ⟨db.dbname, replicationSets, initializeReplicationIdentifier tlid db.dboid nid⟩

variable {tlid : UInt32} {joined : List Joined}

theorem joinLoop_eq_ok (hlength : ri.nids.length = i + dbs.length) :
    joinLoop tlid ri (some sets) i dbs = .ok joined ↔
      (∀ db ∈ dbs, db.joins = true) ∧
        joined = dbs.zipWith (fun db nid => db.joined tlid (some sets) nid) (ri.nids.drop i) := by
  induction dbs generalizing i joined with
  | nil =>
    rw [joinLoop, and_iff_right fun db hdb => absurd hdb List.not_mem_nil]
    exact ⟨fun h => (Except.ok.inj h).symm, fun h => congrArg Except.ok h.symm⟩
  | cons db dbs ih =>
    rw [List.length_cons] at hlength
    have hlt : i < ri.nids.length := by omega
    have hget : ri.nids.getD i 0 = ri.nids[i] := by simp [hlt]
    rw [joinLoop, List.drop_eq_getElem_cons hlt, List.zipWith_cons_cons, List.forall_mem_cons, hget]
    by_cases hjoins : db.joins = true
    · have hrest : ∀ {rest}, joinLoop tlid ri (some sets) (i + 1) dbs = .ok rest ↔ _ :=
        fun {rest} => ih (by omega)
      simp only [Option.some_or, hjoins, if_true, except_map_eq_ok, hrest, true_and]
      constructor
      · rintro ⟨rest, ⟨hall, rfl⟩, rfl⟩
        exact ⟨hall, rfl⟩
      · rintro ⟨hall, rfl⟩
        exact ⟨_, ⟨hall, rfl⟩, rfl⟩
    · exact iff_of_false (by simp [hjoins]) fun h => hjoins h.1.1

theorem joinLoop_none (h : ri.setsAt i = some sets) (tlid : UInt32) (db : Database)
    (dbs : List Database) :
    joinLoop tlid ri none i (db :: dbs) = joinLoop tlid ri (some sets) i (db :: dbs) := by
  rw [joinLoop, joinLoop, Option.none_or, Option.some_or, h]

/-! ### All databases -/

/-- The program comes to its end. -/
structure Completes (replicationSets : Option (List Char)) (dbs : List Database) : Prop where
  some_database : dbs ≠ []
  readable : Readable dbs
  sets_known : replicationSets = none → ∀ db ∈ dbs, db.symmetric = true
  joins : ∀ db ∈ dbs, db.joins = true

def usedSets (replicationSets : Option (List Char)) (dbs : List Database) : Option (List Char) :=
  replicationSets.or (dbs.head?.bind Database.sets)

theorem length_readNids (dbs : List Database) : (readNids dbs).length = dbs.length := by
  rw [readNids, List.length_append, List.length_map, List.length_replicate, ← List.length_append,
    sameSets, fromDiffering, List.takeWhile_append_dropWhile]

variable {replicationSets : Option (List Char)}

theorem exists_usedSets (hne : dbs ≠ [])
    (hknown : replicationSets = none → ∀ db ∈ dbs, db.symmetric = true) :
    ∃ sets, usedSets replicationSets dbs = some sets := by
  cases replicationSets with
  | some sets => exact ⟨sets, rfl⟩
  | none =>
    cases dbs with
    | nil => exact absurd rfl hne
    | cons db dbs => exact Option.isSome_iff_exists.mp (hknown rfl db List.mem_cons_self)

theorem joinLoop_start (hne : dbs ≠ [])
    (hknown : replicationSets = none → ∀ db ∈ dbs, db.symmetric = true) :
    joinLoop tlid ⟨readNids dbs, readSets dbs⟩ replicationSets 0 dbs = .ok joined ↔
      (∀ db ∈ dbs, db.joins = true) ∧
        joined = dbs.zipWith (fun db nid => db.joined tlid (usedSets replicationSets dbs) nid)
          (readNids dbs) := by
  obtain ⟨sets, hsets⟩ := exists_usedSets hne hknown
  have hlength : (readNids dbs).length = 0 + dbs.length := by rw [length_readNids, Nat.zero_add]
  have hsame : joinLoop tlid ⟨readNids dbs, readSets dbs⟩ replicationSets 0 dbs =
      joinLoop tlid ⟨readNids dbs, readSets dbs⟩ (some sets) 0 dbs := by
    cases replicationSets with
    | some given =>
      cases hsets
      rfl
    | none =>
      cases dbs with
      | nil => rfl
      | cons db dbs =>
        have hall : (db :: dbs).all Database.symmetric = true := List.all_eq_true.mpr (hknown rfl)
        refine joinLoop_none ?_ tlid db dbs
        rw [readSets, if_pos hall]
        exact hsets
  rw [hsame, joinLoop_eq_ok hlength, hsets, List.drop_zero]

theorem initCopy_eq_ok :
    initCopy tlid replicationSets dbs = .ok joined ↔
      Completes replicationSets dbs ∧
        joined = dbs.zipWith (fun db nid => db.joined tlid (usedSets replicationSets dbs) nid)
          (readNids dbs) := by
  have hempty : dbs.length < 1 ↔ dbs = [] := by
    rw [Nat.lt_one_iff, List.length_eq_zero_iff]
  have hrequired : ((readSets dbs).isNone = true ∧ replicationSets.isNone = true) ↔
      ¬(replicationSets = none → ∀ db ∈ dbs, db.symmetric = true) := by
    rw [readSets, ← List.all_eq_true, Option.isNone_iff_eq_none]
    split_ifs with hall
    · simp [hall]
    · simp [hall]
  rw [initCopy, except_bind_eq_ok]
  constructor
  · rintro ⟨ri, hri, h⟩
    obtain ⟨hread, rfl⟩ := getRemoteInfo_eq_ok.mp hri
    by_cases hnil : dbs.length < 1
    · rw [if_pos hnil] at h
      cases h
    · rw [if_neg hnil] at h
      by_cases hunknown : (readSets dbs).isNone = true ∧ replicationSets.isNone = true
      · rw [if_pos hunknown] at h
        cases h
      · rw [if_neg hunknown] at h
        have hne : dbs ≠ [] := mt hempty.mpr hnil
        have hknown := not_not.mp (mt hrequired.mpr hunknown)
        obtain ⟨hjoins, hjoined⟩ := (joinLoop_start hne hknown).mp h
        exact ⟨⟨hne, hread, hknown, hjoins⟩, hjoined⟩
  · rintro ⟨hcompletes, hjoined⟩
    refine ⟨_, getRemoteInfo_eq_ok.mpr ⟨hcompletes.readable, rfl⟩, ?_⟩
    rw [if_neg (mt hempty.mp hcompletes.some_database),
      if_neg fun h => hrequired.mp h hcompletes.sets_known]
    exact (joinLoop_start hcompletes.some_database hcompletes.sets_known).mpr
      ⟨hcompletes.joins, hjoined⟩

theorem zipWith_readNids {α : Type} (f : Database → UInt64 → α) (dbs : List Database) :
    dbs.zipWith f (readNids dbs) =
      (sameSets dbs).map (fun db => f db db.nid) ++ (fromDiffering dbs).map fun db => f db 0 := by
  have hlength : (sameSets dbs).length = ((sameSets dbs).map Database.nid).length := by
    rw [List.length_map]
  have hsplit : sameSets dbs ++ fromDiffering dbs = dbs := List.takeWhile_append_dropWhile
  calc
    dbs.zipWith f (readNids dbs)
      = (sameSets dbs ++ fromDiffering dbs).zipWith f (readNids dbs) := by rw [hsplit]
    _ = (sameSets dbs).zipWith f ((sameSets dbs).map Database.nid) ++
          (fromDiffering dbs).zipWith f (List.replicate (fromDiffering dbs).length 0) :=
        List.zipWith_append hlength
    _ = _ := by
        rw [← List.map_const', List.zipWith_map_right, List.zipWith_map_right, List.zipWith_self,
          List.zipWith_self]

theorem joined_inj {sets sets' : Option (List Char)} {nid nid' : UInt64} :
    db.joined tlid sets nid = db.joined tlid sets' nid' ↔ sets = sets' ∧ nid = nid' := by
  constructor
  · intro h
    have horigin := congrArg Joined.origin h
    exact ⟨congrArg Joined.replicationSets h, congrArg NodeId.sysid (replidentName_inj horigin).1⟩
  · rintro ⟨rfl, rfl⟩
    rfl

theorem usedSets_eq_iff :
    (∀ db ∈ dbs, usedSets replicationSets dbs = replicationSets.or db.sets) ↔
      (replicationSets = none → ∀ db ∈ dbs, ∀ db' ∈ dbs, db.sets = db'.sets) := by
  cases replicationSets with
  | some sets => simp [usedSets]
  | none =>
    cases dbs with
    | nil => simp
    | cons first dbs =>
      rw [forall_prop_of_true rfl]
      constructor
      · intro h db hdb db' hdb'
        exact (h db hdb).symm.trans (h db' hdb')
      · exact fun h db hdb => h first List.mem_cons_self db hdb

theorem zipWith_joined_eq_iff (tlid : UInt32) (used : Option (List Char))
    (sets : Database → Option (List Char)) (dbs : List Database) :
    dbs.zipWith (fun db nid => db.joined tlid used nid) (readNids dbs) =
        dbs.map (fun db => db.joined tlid (sets db) db.nid) ↔
      (∀ db ∈ dbs, used = sets db) ∧ ∀ db ∈ fromDiffering dbs, db.nid = 0 := by
  have hsplit : sameSets dbs ++ fromDiffering dbs = dbs := List.takeWhile_append_dropWhile
  have hwanted : dbs.map (fun db => db.joined tlid (sets db) db.nid) =
      (sameSets dbs).map (fun db => db.joined tlid (sets db) db.nid) ++
        (fromDiffering dbs).map fun db => db.joined tlid (sets db) db.nid := by
    rw [← List.map_append, hsplit]
  have hall : (∀ db ∈ dbs, used = sets db) ↔
      (∀ db ∈ sameSets dbs, used = sets db) ∧ ∀ db ∈ fromDiffering dbs, used = sets db := by
    rw [← List.forall_mem_append, hsplit]
  have hsame : (sameSets dbs).map (fun db => db.joined tlid used db.nid) =
      (sameSets dbs).map (fun db => db.joined tlid (sets db) db.nid) ↔
        ∀ db ∈ sameSets dbs, used = sets db := by
    simp only [List.map_inj_left, joined_inj, and_true]
  have hfrom : (fromDiffering dbs).map (fun db => db.joined tlid used 0) =
      (fromDiffering dbs).map (fun db => db.joined tlid (sets db) db.nid) ↔
        (∀ db ∈ fromDiffering dbs, used = sets db) ∧ ∀ db ∈ fromDiffering dbs, db.nid = 0 := by
    simp only [List.map_inj_left, joined_inj, forall₂_and, eq_comm]
  rw [zipWith_readNids, hwanted, hall, and_assoc, ← hfrom, ← hsame]
  constructor
  · exact fun h => List.append_inj h (by rw [List.length_map, List.length_map])
  · exact fun h => congrArg₂ (· ++ ·) h.1 h.2

/-- When the program ends, each database was joined with the sets of the command line or its own,
and its origin has its own identifier, exactly if without sets on the command line all databases
have the same sets and from the first one with differing sets on no identifier is set. -/
theorem initCopy_right_iff (tlid : UInt32) (replicationSets : Option (List Char))
    (dbs : List Database) :
    (∀ joined, initCopy tlid replicationSets dbs = .ok joined →
        joined = dbs.map fun db => ⟨db.dbname, replicationSets.or db.sets,
          replidentName ⟨db.nid, tlid, db.dboid⟩ db.dboid⟩) ↔
      (Completes replicationSets dbs →
        (replicationSets = none → ∀ db ∈ dbs, ∀ db' ∈ dbs, db.sets = db'.sets) ∧
          ∀ db ∈ fromDiffering dbs, db.nid = 0) := by
  rw [← usedSets_eq_iff, ← zipWith_joined_eq_iff tlid _ fun db => replicationSets.or db.sets]
  constructor
  · exact fun h hcompletes => h _ (initCopy_eq_ok.mpr ⟨hcompletes, rfl⟩)
  · intro h joined hcopy
    obtain ⟨hcompletes, rfl⟩ := initCopy_eq_ok.mp hcopy
    exact h hcompletes

/-- Two databases with the sets `a` and `b` are both joined with `a`. A database whose nodes have
different sets gets an origin with the identifier zero. -/
theorem initCopy_wrong :
    initCopy 0 none [⟨5, ['x'], some [['a']], 7, true, true⟩,
        ⟨6, ['y'], some [['b']], 8, true, true⟩] =
      .ok [⟨['x'], some ['a'], replidentName ⟨7, 0, 5⟩ 5⟩,
        ⟨['y'], some ['a'], replidentName ⟨8, 0, 6⟩ 6⟩] ∧
    initCopy 0 (some ['a']) [⟨5, ['x'], some [['a'], ['b']], 7, true, true⟩] =
      .ok [⟨['x'], some ['a'], replidentName ⟨0, 0, 5⟩ 5⟩] ∧
    replidentName ⟨0, 0, 5⟩ 5 ≠ replidentName ⟨7, 0, 5⟩ 5 := by
  refine ⟨rfl, rfl, ?_⟩
  decide +kernel

end Pgactive.InitCopy
