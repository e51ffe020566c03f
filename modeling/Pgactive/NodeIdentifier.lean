import Mathlib.Data.Fintype.Basic
import Pgactive.Transition

/-!
# The node identifier and its cache

The identifier of a database is stored in a getter function (`pgactive_generate_node_identifier`)
and kept in an array in shared memory (`pgactive_nid_shmem_set`). The array is changed at once, the
function at commit; a read that misses takes the identifier from the function and puts it into the
array (`pgactive_get_nid_internal`), in two steps.
-/

namespace Pgactive.NodeIdentifier

open Transition

/-! ### The array -/

/-- `pgactiveNodeIdentifier`. -/
structure Cell where
  dboid : ℕ
  nid : ℕ
deriving DecidableEq

def Cell.empty : Cell := ⟨0, 0⟩

def Cell.holds (dboid : ℕ) (w : Cell) : Bool := w.dboid == dboid && w.nid != 0

/-- `pgactive_nid_shmem_reset`: only the first cell of the database is cleared. -/
def shmemReset (dboid : ℕ) : List Cell → List Cell
  | [] => []
  | w :: nids => if w.holds dboid then .empty :: nids else w :: shmemReset dboid nids

def shmemResetAll (nids : List Cell) : List Cell := nids.map fun _ => .empty

/-- `pgactive_nid_shmem_set`: the first empty cell, whether or not the database has one already. -/
def shmemSet (dboid nid : ℕ) : List Cell → List Cell
  | [] => []
  | w :: nids => if w = .empty then ⟨dboid, nid⟩ :: nids else w :: shmemSet dboid nid nids

def shmemGet (dboid : ℕ) : List Cell → ℕ
  | [] => 0
  | w :: nids => if w.holds dboid then w.nid else shmemGet dboid nids

/-- The identifiers that the array has for a database. -/
def held (dboid : ℕ) (nids : List Cell) : List ℕ :=
  (nids.filter (Cell.holds dboid)).map Cell.nid

theorem held_cons (dboid : ℕ) (w : Cell) (nids : List Cell) :
    held dboid (w :: nids) =
      if w.holds dboid then w.nid :: held dboid nids else held dboid nids := by
  unfold held
  rw [List.filter_cons]
  split <;> rfl

@[simp] theorem empty_holds (dboid : ℕ) : Cell.empty.holds dboid = false := by
  simp [Cell.holds, Cell.empty]

variable {dboid : ℕ} {nids : List Cell}

theorem shmemGet_eq_zero_iff : shmemGet dboid nids = 0 ↔ held dboid nids = [] := by
  induction nids with
  | nil => simp [shmemGet, held]
  | cons w nids ih =>
    rw [shmemGet, held_cons]
    by_cases hw : w.holds dboid = true
    · have hne : w.nid ≠ 0 := by simpa [Cell.holds] using (Bool.and_eq_true_iff.mp hw).2
      simp [hw, hne]
    · simp [hw, ih]

theorem shmemGet_mem_held (h : shmemGet dboid nids ≠ 0) :
    shmemGet dboid nids ∈ held dboid nids := by
  induction nids with
  | nil => exact absurd rfl h
  | cons w nids ih =>
    rw [shmemGet] at h ⊢
    rw [held_cons]
    by_cases hw : w.holds dboid = true
    · simp [hw]
    · simp only [hw, Bool.false_eq_true, if_false] at h ⊢
      exact ih h

theorem held_shmemReset (dboid : ℕ) (nids : List Cell) :
    held dboid (shmemReset dboid nids) = (held dboid nids).tail := by
  induction nids with
  | nil => rfl
  | cons w nids ih =>
    rw [shmemReset, held_cons]
    by_cases hw : w.holds dboid = true
    · simp [hw, held_cons]
    · simp [hw, held_cons, ih]

theorem held_shmemReset_of_ne {d : ℕ} (h : d ≠ dboid) (nids : List Cell) :
    held d (shmemReset dboid nids) = held d nids := by
  induction nids with
  | nil => rfl
  | cons w nids ih =>
    rw [shmemReset]
    by_cases hw : w.holds dboid = true
    · have hd : w.holds d = false := by
        have hdb : w.dboid = dboid := by simpa using (Bool.and_eq_true_iff.mp hw).1
        simp [Cell.holds, hdb, h.symm]
      simp [hw, held_cons, hd]
    · simp [hw, held_cons, ih]

@[simp] theorem held_shmemResetAll (d : ℕ) (nids : List Cell) :
    held d (shmemResetAll nids) = [] := by
  induction nids with
  | nil => rfl
  | cons w nids ih =>
    rw [shmemResetAll, List.map_cons, held_cons, empty_holds]
    exact ih

theorem held_shmemSet (nid : ℕ) (h : held dboid nids = []) :
    held dboid (shmemSet dboid nid nids) = [] ∨ held dboid (shmemSet dboid nid nids) = [nid] := by
  induction nids with
  | nil => exact .inl rfl
  | cons w nids ih =>
    have hw : w.holds dboid = false := by
      by_contra hw
      rw [Bool.not_eq_false] at hw
      simp [held_cons, hw] at h
    rw [held_cons, hw] at h
    rw [shmemSet]
    split
    · rw [held_cons]
      split
      · exact .inr (by simpa using h)
      · exact .inl (by simpa using h)
    · rw [held_cons, hw]
      exact ih h

theorem held_shmemSet_of_ne {d : ℕ} (h : d ≠ dboid) (nid : ℕ) (nids : List Cell) :
    held d (shmemSet dboid nid nids) = held d nids := by
  induction nids with
  | nil => rfl
  | cons w nids ih =>
    rw [shmemSet]
    split
    · next hw =>
      have hd : Cell.holds d ⟨dboid, nid⟩ = false := by simp [Cell.holds, h.symm]
      simp [held_cons, hd, hw]
    · rw [held_cons, held_cons, ih]

/-! ### Sessions -/

variable {σ : Type}

/-- How far a transaction is with `pgactive_generate_node_identifier`. -/
inductive Generation
  | none
  | cleared
  | created (nid : ℕ)
  /-- The new identifier has been put into the array; the transaction is still open. -/
  | filled
deriving DecidableEq

/-- How far a session is with `pgactive_get_nid_internal`. -/
inductive Reading
  | idle
  | missed
  | loaded (nid : ℕ)
deriving DecidableEq

/-- A session. -/
structure Session where
  gen : Generation
  read : Reading
deriving DecidableEq

def Session.idle : Session := ⟨.none, .idle⟩

/-- The array, the getter functions of all databases and the sessions. -/
structure State (σ : Type) where
  /-- `pgactiveNodeIdentifierCtl->nids`. -/
  nids : List Cell
  /-- The identifier in the committed getter function of a database, if there is one. -/
  committed : ℕ → Option ℕ
  /-- A replaced getter function that is not yet committed, and whose it is. The row lock in
  the catalog allows one for each database. -/
  uncommitted : ℕ → Option (σ × ℕ)
  sess : σ → Session

/-- Shared memory has been set up, and no transaction is open. -/
def State.Initial (st : State σ) : Prop :=
  (∃ maxDatabases, st.nids = List.replicate maxDatabases .empty) ∧
    (∀ d, st.uncommitted d = none) ∧ ∀ s, st.sess s = .idle

/-- A step of a session, or a reset. -/
inductive Action (σ : Type)
  /-- `pgactive_generate_node_identifier` clears the array for its database. -/
  | reset (s : σ)
  | create (s : σ) (nid : ℕ)
  /-- It puts the new identifier into the array and returns. -/
  | set (s : σ)
  | commit (s : σ)
  /-- The transaction is rolled back, by an error or by the user. -/
  | abort (s : σ)
  /-- `pgactive_get_nid_internal` looks into the array. -/
  | get (s : σ)
  /-- It calls the getter function; that there is none is an error, which is an `abort`. -/
  | load (s : σ)
  /-- It puts the identifier into the array and returns it. -/
  | fill (s : σ)
  /-- `pgactive_nid_shmem_reset_all`. -/
  | resetAll
deriving DecidableEq

variable [DecidableEq σ]

def State.setSess (st : State σ) (s : σ) (x : Session) : State σ :=
  { st with sess := Function.update st.sess s x }

def State.getter (st : State σ) (d : ℕ) (s : σ) : Option ℕ :=
  match st.uncommitted d with
  | some (t, nid) => if t = s then some nid else st.committed d
  | none => st.committed d

variable (db : σ → ℕ)

/-- What the actions do; `db` is the database that a session is connected to. -/
def step (st : State σ) : Action σ → Option (State σ)
  | .reset s =>
    if ((st.sess s).gen = .none ∨ (st.sess s).gen = .filled) ∧ (st.sess s).read = .idle then
      some ({ st with nids := shmemReset (db s) st.nids }.setSess s ⟨.cleared, .idle⟩)
    else none
  | .create s nid =>
    -- another session that has replaced the function holds the lock on its catalog row
    if (st.sess s).gen = .cleared ∧ (st.uncommitted (db s)).all (·.1 = s) then
      some ({ st with uncommitted := Function.update st.uncommitted (db s) (some (s, nid)) }.setSess
        s ⟨.created nid, .idle⟩)
    else none
  | .set s =>
    match st.sess s with
    | ⟨.created nid, .idle⟩ =>
      some ({ st with nids := shmemSet (db s) nid st.nids }.setSess s ⟨.filled, .idle⟩)
    | _ => none
  | .commit s =>
    match st.sess s, st.uncommitted (db s) with
    | ⟨.filled, .idle⟩, some (_, nid) =>
      some ({ st with
        committed := Function.update st.committed (db s) (some nid)
        uncommitted := Function.update st.uncommitted (db s) none }.setSess s .idle)
    | _, _ => none
  | .abort s =>
    some ({ st with
      uncommitted := Function.update st.uncommitted (db s)
        ((st.uncommitted (db s)).filter (·.1 ≠ s)) }.setSess s .idle)
  | .get s =>
    if (st.sess s).read = .idle ∧ (st.sess s).gen ≠ .cleared then
      if shmemGet (db s) st.nids ≠ 0 then some st
      else some (st.setSess s ⟨(st.sess s).gen, .missed⟩)
    else none
  | .load s =>
    match (st.sess s).read, st.getter (db s) s with
    | .missed, some nid => some (st.setSess s ⟨(st.sess s).gen, .loaded nid⟩)
    | _, _ => none
  | .fill s =>
    match (st.sess s).read with
    | .loaded nid =>
      some ({ st with nids := shmemSet (db s) nid st.nids }.setSess s ⟨(st.sess s).gen, .idle⟩)
    | _ => none
  | .resetAll => some { st with nids := shmemResetAll st.nids }

def returned (st : State σ) : Action σ → Option (σ × ℕ)
  | .get s =>
    if (st.sess s).read = .idle ∧ shmemGet (db s) st.nids ≠ 0 then
      some (s, shmemGet (db s) st.nids)
    else none
  | .fill s =>
    match (st.sess s).read with
    | .loaded nid => some (s, nid)
    | _ => none
  | _ => none

/-- No transaction that generates an identifier for the database is open. -/
def State.Quiescent (st : State σ) (d : ℕ) : Prop :=
  ∀ s, db s = d → (st.sess s).gen = .none

def State.Alone (st : State σ) (s : σ) : Prop :=
  ∀ t, t ≠ s → db t = db s → st.sess t = .idle

/-- The steps of sessions that do not get in each other's way: an identifier is generated, and
taken from the getter function after a miss, only while no other session of the database does
either; and a transaction that has put its identifier into the array is not rolled back. -/
def Undisturbed (st : State σ) : Action σ → Prop
  | .reset s => st.Alone db s
  | .get s => shmemGet (db s) st.nids = 0 → st.Alone db s ∧
      ((st.sess s).gen = .none ∨ (st.sess s).gen = .filled)
  | .abort s => (st.sess s).gen ≠ .filled
  | _ => True

/-! ### What undisturbed sessions keep -/

variable {db} {st st' : State σ} {s t : σ} {d : ℕ}

@[simp] theorem setSess_self (x : Session) : (st.setSess s x).sess s = x := by
  simp [State.setSess]

theorem setSess_of_ne (h : t ≠ s) (x : Session) : (st.setSess s x).sess t = st.sess t := by
  simp [State.setSess, h]

def State.Caches (st : State σ) (d : ℕ) (nid : Option ℕ) : Prop :=
  held d st.nids = [] ∨ ∃ v, nid = some v ∧ held d st.nids = [v]

/-- Where the only session of its database that may not be idle stands. -/
structure Focus (db : σ → ℕ) (st : State σ) (s : σ) : Prop where
  alone : st.Alone db s
  /-- What has been generated is with this session, and in the array once it is filled. -/
  gen : match (st.sess s).gen with
    | .none => st.uncommitted (db s) = none ∧ st.Caches (db s) (st.committed (db s))
    | .cleared => held (db s) st.nids = [] ∧ (st.uncommitted (db s)).all (·.1 = s)
    | .created nid => held (db s) st.nids = [] ∧ st.uncommitted (db s) = some (s, nid)
    | .filled => ∃ nid, st.uncommitted (db s) = some (s, nid) ∧ st.Caches (db s) (some nid)
  /-- A read after a miss finds the array still empty when it fills it. -/
  read : match (st.sess s).read with
    | .idle => True
    | .missed => held (db s) st.nids = [] ∧
        ((st.sess s).gen = .none ∨ (st.sess s).gen = .filled)
    | .loaded nid => held (db s) st.nids = [] ∧
        ((st.sess s).gen = .none ∨ (st.sess s).gen = .filled) ∧ st.getter (db s) s = some nid

/-- Every database has a session that the others leave alone. -/
def Inv (db : σ → ℕ) (st : State σ) : Prop := ∀ s, ∃ t, db t = db s ∧ Focus db st t

omit [DecidableEq σ] in
theorem ne_idle_of_gen {g : Generation} (h : (st.sess s).gen = g) (hg : g ≠ .none) :
    st.sess s ≠ .idle :=
  fun hidle => hg (h.symm.trans (congrArg Session.gen hidle))

omit [DecidableEq σ] in
theorem ne_idle_of_read {r : Reading} (h : (st.sess s).read = r) (hr : r ≠ .idle) :
    st.sess s ≠ .idle :=
  fun hidle => hr (h.symm.trans (congrArg Session.read hidle))

theorem Inv.focus_of_busy (h : Inv db st) (hs : st.sess s ≠ .idle) : Focus db st s := by
  obtain ⟨t, hdb, hfocus⟩ := h s
  by_cases hst : s = t
  · exact hst ▸ hfocus
  · exact absurd (hfocus.alone s hst hdb.symm) hs

theorem Inv.focus_of_alone (h : Inv db st) (hs : st.Alone db s) : Focus db st s := by
  obtain ⟨t, hdb, hfocus⟩ := h s
  by_cases hst : s = t
  · exact hst ▸ hfocus
  · have hidle : st.sess s = .idle := hfocus.alone s hst hdb.symm
    have hidle' : st.sess t = .idle := hs t (Ne.symm hst) hdb
    obtain ⟨-, hgen, -⟩ := hfocus
    rw [hidle', hdb] at hgen
    exact ⟨hs, by rw [hidle]; exact hgen, by rw [hidle]; trivial⟩

def SameData (st st₁ : State σ) (d : ℕ) : Prop :=
  held d st₁.nids = held d st.nids ∧ st₁.committed d = st.committed d ∧
    st₁.uncommitted d = st.uncommitted d

theorem Focus.of_sameData (h : Focus db st s) (hsame : SameData st st' (db s))
    (hsess : ∀ t, db t = db s → st'.sess t = st.sess t) : Focus db st' s := by
  obtain ⟨hnids, hcommitted, huncommitted⟩ := hsame
  obtain ⟨halone, hgen, hread⟩ := h
  refine ⟨fun t hts hdb => ?_, ?_, ?_⟩
  · rw [hsess t hdb]
    exact halone t hts hdb
  · simpa only [State.Caches, hnids, hcommitted, huncommitted, hsess s rfl] using hgen
  · simpa only [State.getter, hnids, hcommitted, huncommitted, hsess s rfl] using hread

theorem Inv.of_focus {st₁ : State σ} {x : Session} (h : Inv db st) (hsess : st₁.sess = st.sess)
    (hsame : ∀ d, d ≠ db s → SameData st st₁ d) (hfocus : Focus db (st₁.setSess s x) s) :
    Inv db (st₁.setSess s x) := by
  intro t
  by_cases hdb : db t = db s
  · exact ⟨s, hdb.symm, hfocus⟩
  · obtain ⟨u, hu, hold⟩ := h t
    have hd : db u ≠ db s := hu ▸ hdb
    refine ⟨u, hu, hold.of_sameData (hsame _ hd) fun v hv => ?_⟩
    have hvs : v ≠ s := fun heq => hd (hv ▸ heq ▸ rfl)
    rw [setSess_of_ne hvs, hsess]

theorem alone_setSess {st₁ : State σ} (h : st.Alone db s) (hsess : st₁.sess = st.sess)
    (x : Session) : (st₁.setSess s x).Alone db s := by
  intro t hts hdb
  rw [setSess_of_ne hts, hsess]
  exact h t hts hdb

theorem Focus.held_tail (h : Focus db st s)
    (hgen : (st.sess s).gen = .none ∨ (st.sess s).gen = .filled) :
    (held (db s) st.nids).tail = [] := by
  have hcaches : ∃ nid, st.Caches (db s) nid := by
    have hg := h.gen
    obtain hnone | hfilled := hgen
    · rw [hnone] at hg
      exact ⟨_, hg.2⟩
    · rw [hfilled] at hg
      obtain ⟨nid, -, hc⟩ := hg
      exact ⟨_, hc⟩
  obtain ⟨nid, hempty | ⟨v, -, hv⟩⟩ := hcaches
  · rw [hempty]
    rfl
  · rw [hv]
    rfl

theorem Focus.uncommitted_all (h : Focus db st s) : (st.uncommitted (db s)).all (·.1 = s) := by
  have hg := h.gen
  split at hg
  · simp [hg.1]
  · exact hg.2
  · simp [hg.2]
  · obtain ⟨nid, hu, -⟩ := hg
    simp [hu]

theorem Inv.reset (h : Inv db st) (halone : st.Alone db s)
    (hgen : (st.sess s).gen = .none ∨ (st.sess s).gen = .filled) :
    Inv db ({ st with nids := shmemReset (db s) st.nids }.setSess s ⟨.cleared, .idle⟩) := by
  have hfocus := h.focus_of_alone halone
  refine h.of_focus rfl ?_ ⟨alone_setSess halone rfl _, ?_, ?_⟩
  · exact fun d hd => ⟨held_shmemReset_of_ne hd _, rfl, rfl⟩
  · rw [setSess_self]
    refine ⟨?_, hfocus.uncommitted_all⟩
    exact (held_shmemReset _ _).trans (hfocus.held_tail hgen)
  · rw [setSess_self]
    trivial

theorem Inv.create (h : Inv db st) (hgen : (st.sess s).gen = .cleared) (nid : ℕ) :
    Inv db ({ st with
      uncommitted := Function.update st.uncommitted (db s) (some (s, nid)) }.setSess s
        ⟨.created nid, .idle⟩) := by
  have hfocus := h.focus_of_busy (ne_idle_of_gen hgen (by simp))
  have hg := hfocus.gen
  rw [hgen] at hg
  refine h.of_focus rfl ?_ ⟨alone_setSess hfocus.alone rfl _, ?_, ?_⟩
  · exact fun d hd => ⟨rfl, rfl, Function.update_of_ne hd _ _⟩
  · rw [setSess_self]
    exact ⟨hg.1, by simp [State.setSess]⟩
  · rw [setSess_self]
    trivial

variable {nid : ℕ}

theorem Inv.set (h : Inv db st) (hsess : st.sess s = ⟨.created nid, .idle⟩) :
    Inv db ({ st with nids := shmemSet (db s) nid st.nids }.setSess s ⟨.filled, .idle⟩) := by
  have hfocus := h.focus_of_busy (ne_idle_of_gen (congrArg Session.gen hsess) (by simp))
  have hg := hfocus.gen
  rw [hsess] at hg
  refine h.of_focus rfl ?_ ⟨alone_setSess hfocus.alone rfl _, ?_, ?_⟩
  · exact fun d hd => ⟨held_shmemSet_of_ne hd _ _, rfl, rfl⟩
  · rw [setSess_self]
    refine ⟨nid, hg.2, ?_⟩
    exact (held_shmemSet nid hg.1).imp id fun heq => ⟨nid, rfl, heq⟩
  · rw [setSess_self]
    trivial

theorem Inv.commit (h : Inv db st) (hsess : st.sess s = ⟨.filled, .idle⟩)
    (hu : st.uncommitted (db s) = some (t, nid)) :
    Inv db ({ st with
      committed := Function.update st.committed (db s) (some nid)
      uncommitted := Function.update st.uncommitted (db s) none }.setSess s .idle) := by
  have hfocus := h.focus_of_busy (ne_idle_of_gen (congrArg Session.gen hsess) (by simp))
  have hg := hfocus.gen
  rw [hsess] at hg
  obtain ⟨nid', hu', hcaches⟩ := hg
  obtain ⟨-, rfl⟩ : s = t ∧ nid' = nid := by simpa [hu'] using hu
  refine h.of_focus rfl ?_ ⟨alone_setSess hfocus.alone rfl _, ?_, ?_⟩
  · exact fun d hd => ⟨rfl, Function.update_of_ne hd _ _, Function.update_of_ne hd _ _⟩
  · rw [setSess_self]
    exact ⟨by simp [State.setSess], by simpa [State.Caches, State.setSess] using hcaches⟩
  · rw [setSess_self]
    trivial

theorem Inv.abort (h : Inv db st) (hgen : (st.sess s).gen ≠ .filled) :
    Inv db ({ st with
      uncommitted := Function.update st.uncommitted (db s)
        ((st.uncommitted (db s)).filter (·.1 ≠ s)) }.setSess s .idle) := by
  obtain ⟨t, hdb, hfocus⟩ := h s
  by_cases hst : s = t
  · subst hst
    have hown : (st.uncommitted (db s)).filter (·.1 ≠ s) = none := by
      simpa [Option.all_eq_true, Option.filter_eq_none_iff] using hfocus.uncommitted_all
    have hcaches : st.Caches (db s) (st.committed (db s)) := by
      have hg := hfocus.gen
      split at hg
      · exact hg.2
      · exact .inl hg.1
      · exact .inl hg.1
      · next hfilled => exact absurd hfilled hgen
    refine h.of_focus rfl ?_ ⟨alone_setSess hfocus.alone rfl _, ?_, ?_⟩
    · exact fun d hd => ⟨rfl, rfl, Function.update_of_ne hd _ _⟩
    · rw [setSess_self]
      exact ⟨(Function.update_self _ _ _).trans hown, hcaches⟩
    · rw [setSess_self]
      trivial
  · -- an idle session has nothing to roll back
    have hidle : st.sess s = .idle := hfocus.alone s hst hdb.symm
    have hother : (st.uncommitted (db s)).filter (·.1 ≠ s) = st.uncommitted (db s) := by
      have hall := hfocus.uncommitted_all
      rw [hdb] at hall
      cases hu : st.uncommitted (db s) with
      | none => rfl
      | some w =>
        rw [hu] at hall
        have hw : w.1 = t := by simpa using hall
        simp [hw, Ne.symm hst]
    rw [hother, Function.update_eq_self, State.setSess, ← hidle, Function.update_eq_self]
    exact h

theorem Inv.miss (h : Inv db st) (halone : st.Alone db s)
    (hempty : shmemGet (db s) st.nids = 0)
    (hgen : (st.sess s).gen = .none ∨ (st.sess s).gen = .filled) :
    Inv db (st.setSess s ⟨(st.sess s).gen, .missed⟩) := by
  have hfocus := h.focus_of_alone halone
  refine h.of_focus rfl (fun d _ => ⟨rfl, rfl, rfl⟩) ⟨alone_setSess halone rfl _, ?_, ?_⟩
  · rw [setSess_self]
    exact hfocus.gen
  · rw [setSess_self]
    exact ⟨shmemGet_eq_zero_iff.mp hempty, hgen⟩

theorem Inv.load (h : Inv db st) (hread : (st.sess s).read = .missed)
    (hgetter : st.getter (db s) s = some nid) :
    Inv db (st.setSess s ⟨(st.sess s).gen, .loaded nid⟩) := by
  have hfocus := h.focus_of_busy (ne_idle_of_read hread (by simp))
  have hr := hfocus.read
  rw [hread] at hr
  refine h.of_focus rfl (fun d _ => ⟨rfl, rfl, rfl⟩) ⟨alone_setSess hfocus.alone rfl _, ?_, ?_⟩
  · rw [setSess_self]
    exact hfocus.gen
  · rw [setSess_self]
    exact ⟨hr.1, hr.2, hgetter⟩

theorem Focus.getter_eq (h : Focus db st s) :
    ((st.sess s).gen = .none → st.getter (db s) s = st.committed (db s)) ∧
      ∀ nid, st.uncommitted (db s) = some (s, nid) → st.getter (db s) s = some nid := by
  constructor
  · intro hgen
    have hg := h.gen
    rw [hgen] at hg
    simp [State.getter, hg.1]
  · intro nid hu
    simp [State.getter, hu]

theorem Inv.fill (h : Inv db st) (hread : (st.sess s).read = .loaded nid) :
    Inv db ({ st with nids := shmemSet (db s) nid st.nids }.setSess s
      ⟨(st.sess s).gen, .idle⟩) := by
  have hfocus := h.focus_of_busy (ne_idle_of_read hread (by simp))
  have hr := hfocus.read
  have hg := hfocus.gen
  rw [hread] at hr
  obtain ⟨hempty, hgen, hgetter⟩ := hr
  refine h.of_focus rfl ?_ ⟨alone_setSess hfocus.alone rfl _, ?_, ?_⟩
  · exact fun d hd => ⟨held_shmemSet_of_ne hd _ _, rfl, rfl⟩
  · rw [setSess_self]
    have hnew := held_shmemSet nid hempty
    obtain hnone | hfilled := hgen
    · rw [hnone] at hg
      rw [hfocus.getter_eq.1 hnone] at hgetter
      rw [hnone]
      exact ⟨hg.1, hnew.imp id fun heq => ⟨nid, hgetter, heq⟩⟩
    · rw [hfilled] at hg
      obtain ⟨nid', hu, -⟩ := hg
      obtain rfl : nid' = nid := by simpa [hfocus.getter_eq.2 nid' hu] using hgetter
      rw [hfilled]
      exact ⟨nid', hu, hnew.imp id fun heq => ⟨nid', rfl, heq⟩⟩
  · rw [setSess_self]
    trivial

theorem Inv.resetAll (h : Inv db st) : Inv db { st with nids := shmemResetAll st.nids } := by
  intro s
  obtain ⟨t, hdb, halone, hgen, hread⟩ := h s
  refine ⟨t, hdb, halone, ?_, ?_⟩
  · dsimp only
    split at hgen
    · exact ⟨hgen.1, .inl (held_shmemResetAll _ _)⟩
    · exact ⟨held_shmemResetAll _ _, hgen.2⟩
    · exact ⟨held_shmemResetAll _ _, hgen.2⟩
    · obtain ⟨nid, hu, -⟩ := hgen
      exact ⟨nid, hu, .inl (held_shmemResetAll _ _)⟩
  · dsimp only
    split at hread
    · trivial
    · exact ⟨held_shmemResetAll _ _, hread.2⟩
    · exact ⟨held_shmemResetAll _ _, hread.2⟩

theorem inv_step (a : Action σ) (h : Inv db st) (hok : Undisturbed db st a)
    (hstep : step db st a = some st') : Inv db st' := by
  cases a with
  | reset s =>
    simp only [step, Option.ite_none_right_eq_some, Option.some.injEq] at hstep
    obtain ⟨⟨hgen, -⟩, rfl⟩ := hstep
    exact h.reset hok hgen
  | create s nid =>
    simp only [step, Option.ite_none_right_eq_some, Option.some.injEq] at hstep
    obtain ⟨⟨hgen, -⟩, rfl⟩ := hstep
    exact h.create hgen nid
  | set s =>
    simp only [step] at hstep
    split at hstep
    · next hsess =>
      cases hstep
      exact h.set hsess
    · cases hstep
  | commit s =>
    simp only [step] at hstep
    split at hstep
    · next hsess hu =>
      cases hstep
      exact h.commit hsess hu
    · cases hstep
  | abort s =>
    cases hstep
    exact h.abort hok
  | get s =>
    simp only [step, Option.ite_none_right_eq_some] at hstep
    obtain ⟨-, hstep⟩ := hstep
    split at hstep
    · cases hstep
      exact h
    · next hempty =>
      cases hstep
      rw [not_not] at hempty
      exact h.miss (hok hempty).1 hempty (hok hempty).2
  | load s =>
    simp only [step] at hstep
    split at hstep
    · next hread hgetter =>
      cases hstep
      exact h.load hread hgetter
    · cases hstep
  | fill s =>
    simp only [step] at hstep
    split at hstep
    · next hread =>
      cases hstep
      exact h.fill hread
    · cases hstep
  | resetAll =>
    cases hstep
    exact h.resetAll

theorem inv_of_initial (h : st.Initial) : Inv db st := by
  obtain ⟨⟨n, hnids⟩, huncommitted, hidle⟩ := h
  have hheld : ∀ d, held d st.nids = [] := by
    intro d
    rw [hnids, held, List.filter_replicate, empty_holds]
    rfl
  intro s
  refine ⟨s, rfl, fun t _ _ => hidle t, ?_, ?_⟩
  · rw [hidle s]
    exact ⟨huncommitted _, .inl (hheld _)⟩
  · rw [hidle s]
    trivial

/-- As long as sessions do not get in each other's way, a read that returns while no generating
transaction of its database is open returns the identifier in the committed getter function. -/
theorem returned_committed (h : Reach State.Initial (step db) (Undisturbed db) st)
    {a : Action σ} {nid : ℕ} (hret : returned db st a = some (s, nid))
    (hquiet : st.Quiescent db (db s)) : st.committed (db s) = some nid := by
  have hinv : Inv db st :=
    h.invariant (fun _ hi => inv_of_initial hi) fun _ a _ _ hi hok hst => inv_step a hi hok hst
  cases a with
  | get t =>
    simp only [returned, Option.ite_none_right_eq_some, Option.some.injEq,
      Prod.mk.injEq] at hret
    obtain ⟨⟨-, hfound⟩, rfl, rfl⟩ := hret
    obtain ⟨u, hdb, hfocus⟩ := hinv t
    have hg := hfocus.gen
    rw [hquiet u hdb, hdb] at hg
    have hmem := shmemGet_mem_held hfound
    obtain ⟨-, hempty | ⟨v, hv, hheld⟩⟩ := hg
    · rw [hempty] at hmem
      cases hmem
    · rw [hheld, List.mem_singleton] at hmem
      rw [hv, hmem]
  | fill t =>
    simp only [returned] at hret
    split at hret
    · next hread =>
      cases hret
      have hfocus := hinv.focus_of_busy (ne_idle_of_read hread (by simp))
      have hr := hfocus.read
      rw [hread] at hr
      rw [← hfocus.getter_eq.1 (hquiet s rfl), hr.2.2]
    · cases hret
  | _ => cases hret

/-! ### Runs -/

section Runs

variable [Fintype σ]

instance (st : State σ) (d : ℕ) : Decidable (st.Quiescent db d) :=
  inferInstanceAs (Decidable (∀ _, _))

instance (st : State σ) (s : σ) : Decidable (st.Alone db s) := inferInstanceAs (Decidable (∀ _, _))

instance (st : State σ) (a : Action σ) : Decidable (Undisturbed db st a) := by
  rcases a <;> unfold Undisturbed <;> infer_instance

end Runs

def sameDatabase : Fin 2 → ℕ := fun _ => 1

def five : State (Fin 2) where
  nids := List.replicate 2 .empty
  committed := fun _ => some 5
  uncommitted := fun _ => none
  sess := fun _ => .idle

theorem five_initial : five.Initial := ⟨⟨2, rfl⟩, fun _ => rfl, fun _ => rfl⟩

/-- A session generates seven and commits, and the other one reads it. -/
theorem returned_committed_seven :
    ∃ st : State (Fin 2), returned sameDatabase st (.get 1) = some (1, 7) ∧
      st.committed 1 = some 7 := by
  have hinit : Reach State.Initial (step sameDatabase) (Undisturbed sameDatabase) five :=
    .init five_initial
  obtain ⟨st, hreach, hret, hquiet⟩ := hinit.exists_of_run
    [.get 1, .load 1, .fill 1, .reset 0, .create 0 7, .set 0, .commit 0]
    (fun st => returned sameDatabase st (.get 1) = some (1, 7) ∧ st.Quiescent sameDatabase 1)
    (by decide)
  exact ⟨st, hret, returned_committed hreach hret hquiet⟩

/-- After the rollback of a transaction that generated seven, seven is read although the getter
function gives five. And when another session reads the old identifier between the steps of a
generation, that one is read after the new one has been committed. -/
theorem returned_stale :
    (∃ st : State (Fin 2), Reach State.Initial (step sameDatabase) (fun _ _ => True) st ∧
      st.Quiescent sameDatabase 1 ∧ returned sameDatabase st (.get 1) = some (1, 7) ∧
        st.committed 1 = some 5) ∧
    ∃ st : State (Fin 2), Reach State.Initial (step sameDatabase) (fun _ _ => True) st ∧
      st.Quiescent sameDatabase 1 ∧ returned sameDatabase st (.get 1) = some (1, 5) ∧
        st.committed 1 = some 7 := by
  constructor
  · exact Reach.exists_of_run (.init five_initial) [.reset 0, .create 0 7, .set 0, .abort 0]
      (fun st => st.Quiescent sameDatabase 1 ∧ returned sameDatabase st (.get 1) = some (1, 7) ∧
        st.committed 1 = some 5) (by decide)
  · exact Reach.exists_of_run (.init five_initial)
      [.reset 0, .get 1, .load 1, .fill 1, .create 0 7, .set 0, .commit 0]
      (fun st => st.Quiescent sameDatabase 1 ∧ returned sameDatabase st (.get 1) = some (1, 5) ∧
        st.committed 1 = some 7) (by decide)

end Pgactive.NodeIdentifier
