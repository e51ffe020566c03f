import Pgactive.Names
import Pgactive.Workers.DetachSignals

/-!
# Slots and origins of detached nodes

A pass of `pgactive_maintain_db_workers` drops the slot of each detached node without connected
workers at once. The address of a local array with the name of its origin goes into a list, and a
later transaction drops the origins in the list, when all entries point to the same array, which is
out of scope. An origin without a slot is never put into the list.
-/

namespace Pgactive.Workers

open FallibleState Names Pgactive.Stream

/-- What is read of a replication slot. -/
structure ReplicationSlot where
  name : NameData
  /-- Its plugin is `pgactive`. -/
  isPgactive : Bool
  database : UInt32
  active : Bool
deriving DecidableEq

/-- A replication origin. -/
structure ReplicationOrigin where
  name : List Char
  inUse : Bool
deriving DecidableEq

/-- The slots and origins of a server. -/
structure Replication where
  slots : List ReplicationSlot
  origins : List ReplicationOrigin
  key : (slots.map ReplicationSlot.name).Nodup

inductive CleanupError
  /-- "replication slot is active" -/
  | slotActive (name : NameData)
  /-- "could not drop replication origin, in use" -/
  | originInUse
deriving DecidableEq

/-- A pass: its view of the nodes and of the workers. -/
structure Pass (n : ℕ) where
  view : DetachView UInt32 NodeId
  workers : Fin n → WorkerEntry UInt32 NodeId
  /-- `pgactive_make_my_nodeid`. -/
  myid : NodeId
  /-- `pgactive_nodes` has one row for each node. -/
  key : view.detachedNodes.Nodup

variable {n : ℕ}

/-! ### The pass -/

def Replication.removeSlot (s : Replication) (name : NameData) : Replication where
  slots := s.slots.filter (·.name ≠ name)
  origins := s.origins
  key := s.key.sublist (List.filter_sublist.map _)

def replicationSlotDrop (slot : ReplicationSlot) : Fallible CleanupError Replication Unit :=
  attempt fun s =>
    if slot.active then .error (.slotActive slot.name) else .ok (s.removeSlot slot.name)

def dropSlots : List ReplicationSlot → Fallible CleanupError Replication Unit
  | [] => pure ()
  | slot :: drop => do
    replicationSlotDrop slot
    dropSlots drop

/-- The slot is to be dropped for a detached node: if it is the local one, all slots of the
database are. -/
def Pass.drops (p : Pass n) (node : NodeId) (slot : ReplicationSlot) : Bool :=
  slot.isPgactive && ((node = p.myid && slot.database = p.myid.dboid) ||
    slot.name = slotName node p.myid.dboid)

def Pass.quiet (p : Pass n) (node : NodeId) : Bool := !p.view.foundAlive p.workers node

/-- The body of the loop over the detached nodes. The result is one entry of the list of origins for
each slot, with the node whose name has been written into the array. -/
def Pass.detach (p : Pass n) (node : NodeId) : Fallible CleanupError Replication (List NodeId) :=
  if p.quiet node then do
    let drop := (← get).slots.filter (p.drops node)
    dropSlots drop
    pure (if node = p.myid then [] else drop.map fun _ => node)
  else pure []

def Pass.detachAll (p : Pass n) : List NodeId → Fallible CleanupError Replication (List NodeId)
  | [] => pure []
  | node :: nodes => do
    let repOriginToRemove ← p.detach node
    let rest ← p.detachAll nodes
    pure (repOriginToRemove ++ rest)

def dropOrigins (names : List (List Char)) : Fallible CleanupError Replication Unit :=
  attempt fun s =>
    if s.origins.any fun o => o.inUse && names.contains o.name then .error .originInUse
    else .ok { s with origins := s.origins.filter (!names.contains ·.name) }

/-- The names that are read through the list of origins. Its entries are all the same address, of an
array that is out of scope, into which the last name has been written: `memory` tells what is found
there with each read. -/
def Pass.removedNames (p : Pass n) (memory : List Char → ℕ → List Char)
    (repOriginToRemove : List NodeId) : List (List Char) :=
  match repOriginToRemove.getLast? with
  | none => []
  | some last =>
    (List.range repOriginToRemove.length).map (memory (replidentName last p.myid.dboid))

/-- `pgactive_maintain_db_workers`, up to the start of new workers. -/
def Pass.maintainDbWorkers (p : Pass n) (memory : List Char → ℕ → List Char) :
    Fallible CleanupError Replication Unit := do
  let repOriginToRemove ← p.detachAll p.view.detachedNodes
  dropOrigins (p.removedNames memory repOriginToRemove)

/-- What is left by a pass that crashes when it has dropped the slots of the first nodes. -/
def Pass.crash (p : Pass n) (nodes : ℕ) (s : Replication) : Replication :=
  (p.detachAll (p.view.detachedNodes.take nodes) s).2

/-! ### What a pass drops -/

section Pass

variable (p : Pass n) {s s' : Replication} {node node' : NodeId}

def Pass.HasSlot (s : Replication) (node : NodeId) : Prop :=
  ∃ slot ∈ s.slots, slot.isPgactive = true ∧ slot.name = slotName node p.myid.dboid

instance (s : Replication) (node : NodeId) : Decidable (p.HasSlot s node) :=
  inferInstanceAs (Decidable (∃ _ ∈ _, _))

def Pass.HasOrigin (s : Replication) (node : NodeId) : Prop :=
  ∃ o ∈ s.origins, o.name = replidentName node p.myid.dboid

def Pass.dropped (s : Replication) (nodes : List NodeId) : List NodeId :=
  nodes.filter fun node => p.quiet node ∧ p.HasSlot s node

variable {p}

def Pass.Live (p : Pass n) : Prop := p.view.ourStatusKilled = false ∧ p.myid ∉ p.view.detachedNodes

variable {u : Unit}

theorem dropSlots_eq_ok {drop : List ReplicationSlot} (h : dropSlots drop s = (.ok u, s')) :
    s'.origins = s.origins ∧
      ∀ slot, slot ∈ s'.slots ↔ slot ∈ s.slots ∧ slot.name ∉ drop.map ReplicationSlot.name := by
  induction drop generalizing s with
  | nil =>
    cases h
    exact ⟨rfl, by simp⟩
  | cons slot drop ih =>
    obtain ⟨u, s₁, hdrop, hrest⟩ := bind_eq_ok_iff.mp h
    have hremove := attempt_eq_ok_iff.mp hdrop
    split_ifs at hremove
    cases hremove
    obtain ⟨horigins, hslots⟩ := ih hrest
    refine ⟨horigins, fun slot' => ?_⟩
    rw [hslots, Replication.removeSlot, List.mem_filter]
    simp [and_assoc]

section

variable (hne : node ≠ p.myid)
include hne

theorem drops_iff {slot : ReplicationSlot} : p.drops node slot = true ↔
      slot.isPgactive = true ∧ slot.name = slotName node p.myid.dboid := by
  simp [Pass.drops, hne]

theorem filter_drops : (s.slots.filter (p.drops node)).map (fun _ => node) =
      if p.HasSlot s node then [node] else [] := by
  have hsame : ∀ slot ∈ s.slots.filter (p.drops node), slot.name = slotName node p.myid.dboid :=
    fun slot hslot => ((drops_iff hne).mp (List.mem_filter.mp hslot).2).2
  have hnodup : ((s.slots.filter (p.drops node)).map ReplicationSlot.name).Nodup :=
    s.key.sublist (List.filter_sublist.map _)
  rw [List.map_eq_replicate_iff.mpr hsame, List.nodup_replicate] at hnodup
  split_ifs with hslot
  · obtain ⟨slot, hmem, hdrop⟩ := hslot
    have hpos := List.length_pos_of_mem (List.mem_filter.mpr ⟨hmem, (drops_iff hne).mpr hdrop⟩)
    rw [List.map_const', show (s.slots.filter (p.drops node)).length = 1 by omega]
    rfl
  · rw [List.map_eq_nil_iff, List.filter_eq_nil_iff]
    exact fun slot hmem hdrop => hslot ⟨slot, hmem, (drops_iff hne).mp hdrop⟩

theorem hasSlot_dropSlots (h : dropSlots (s.slots.filter (p.drops node)) s = (.ok u, s')) :
    p.HasSlot s' node' ↔ p.HasSlot s node' ∧ node' ≠ node := by
  obtain ⟨-, hslots⟩ := dropSlots_eq_ok h
  constructor
  · rintro ⟨slot, hmem, hplugin, hname⟩
    obtain ⟨hold, hkept⟩ := (hslots slot).mp hmem
    refine ⟨⟨slot, hold, hplugin, hname⟩, ?_⟩
    rintro rfl
    exact hkept (List.mem_map_of_mem
      (List.mem_filter.mpr ⟨hold, (drops_iff hne).mpr ⟨hplugin, hname⟩⟩))
  · rintro ⟨⟨slot, hmem, hplugin, hname⟩, hother⟩
    refine ⟨slot, (hslots slot).mpr ⟨hmem, ?_⟩, hplugin, hname⟩
    intro hdropped
    obtain ⟨slot', hmem', hsame⟩ := List.mem_map.mp hdropped
    obtain ⟨-, hname'⟩ := (drops_iff hne).mp (List.mem_filter.mp hmem').2
    rw [hsame, hname] at hname'
    exact hother (slotName_inj hname').1

theorem detach_eq_ok {entries : List NodeId} (h : p.detach node s = (.ok entries, s')) :
    entries = p.dropped s [node] ∧ s'.origins = s.origins ∧
      ∀ node', p.HasSlot s' node' ↔ p.HasSlot s node' ∧ ¬(p.quiet node' = true ∧ node' = node) := by
  unfold Pass.detach at h
  unfold Pass.dropped
  cases hquiet : p.quiet node with
  | false =>
    rw [hquiet] at h
    cases h
    refine ⟨by simp [hquiet], rfl, fun node' => (and_iff_left ?_).symm⟩
    rintro ⟨hquiet', rfl⟩
    rw [hquiet] at hquiet'
    cases hquiet'
  | true =>
    rw [hquiet, if_pos rfl] at h
    obtain ⟨s₁, s₂, hget, h⟩ := bind_eq_ok_iff.mp h
    cases hget
    obtain ⟨u, s₃, hdrop, h⟩ := bind_eq_ok_iff.mp h
    rw [if_neg hne, filter_drops hne] at h
    cases h
    refine ⟨?_, (dropSlots_eq_ok hdrop).1, fun node' => ?_⟩
    · by_cases hslot : p.HasSlot s node <;> simp [hquiet, hslot]
    · rw [hasSlot_dropSlots hne hdrop]
      refine and_congr_right fun _ => not_congr ?_
      refine ⟨?_, fun heq => heq.2⟩
      rintro rfl
      exact ⟨hquiet, rfl⟩

end

theorem detachAll_eq_ok {nodes entries : List NodeId} (hnodup : nodes.Nodup)
    (hne : ∀ node ∈ nodes, node ≠ p.myid) (h : p.detachAll nodes s = (.ok entries, s')) :
    entries = p.dropped s nodes ∧ s'.origins = s.origins ∧
      ∀ node', p.HasSlot s' node' ↔
        p.HasSlot s node' ∧ ¬(p.quiet node' = true ∧ node' ∈ nodes) := by
  induction nodes generalizing s entries with
  | nil =>
    cases h
    exact ⟨rfl, rfl, by simp⟩
  | cons node nodes ih =>
    obtain ⟨hnotin, hnodup⟩ := List.nodup_cons.mp hnodup
    obtain ⟨hnode, hnodes⟩ := List.forall_mem_cons.mp hne
    obtain ⟨first, s₁, hfirst, h⟩ := bind_eq_ok_iff.mp h
    obtain ⟨rest, s₂, hrest, h⟩ := bind_eq_ok_iff.mp h
    cases h
    obtain ⟨rfl, horigins₁, hslots₁⟩ := detach_eq_ok hnode hfirst
    obtain ⟨rfl, horigins₂, hslots₂⟩ := ih hnodup hnodes hrest
    refine ⟨?_, horigins₂.trans horigins₁, fun node' => ?_⟩
    · have hcongr : p.dropped s₁ nodes = p.dropped s nodes := by
        refine List.filter_congr fun node' hmem => ?_
        have hother : node' ≠ node := fun heq => hnotin (heq ▸ hmem)
        simp [hslots₁, hother]
      rw [hcongr]
      exact (List.filter_append [node] nodes).symm
    · rw [hslots₂, hslots₁, List.mem_cons]
      tauto

/-! ### Origins -/

variable {memory : List Char → ℕ → List Char}

def Pass.Quiet (p : Pass n) (node : NodeId) : Prop :=
  node ∈ p.view.detachedNodes ∧ p.quiet node = true

/-- The detached nodes without connected workers have neither a slot nor an origin, and no other
origin has been dropped. -/
def Pass.Clean (p : Pass n) (s s' : Replication) : Prop :=
  (∀ node, p.Quiet node → ¬p.HasSlot s' node ∧ ¬p.HasOrigin s' node) ∧
    ∀ o ∈ s.origins, o ∉ s'.origins →
      ∃ node, p.Quiet node ∧ o.name = replidentName node p.myid.dboid

theorem maintainDbWorkers_eq_ok (hlive : p.Live) (h : p.maintainDbWorkers memory s = (.ok u, s')) :
    (∀ node, p.Quiet node → ¬p.HasSlot s' node) ∧
      ∀ o, o ∈ s'.origins ↔
        o ∈ s.origins ∧ o.name ∉ p.removedNames memory (p.dropped s p.view.detachedNodes) := by
  obtain ⟨entries, s₁, hdetach, h⟩ := bind_eq_ok_iff.mp h
  have hne : ∀ node ∈ p.view.detachedNodes, node ≠ p.myid :=
    fun node hmem heq => hlive.2 (heq ▸ hmem)
  obtain ⟨rfl, horigins, hslots⟩ := detachAll_eq_ok p.key hne hdetach
  have hdrop := attempt_eq_ok_iff.mp h
  split_ifs at hdrop
  cases hdrop
  refine ⟨fun node hnode hslot => ((hslots node).mp hslot).2 hnode.symm, fun o => ?_⟩
  simp [horigins]

/-- The names that are read are those of the origins of the detached nodes without connected
workers, as far as there are such origins. -/
def Pass.ReadsRight (p : Pass n) (s : Replication) (names : List (List Char)) : Prop :=
  (∀ node, p.Quiet node → p.HasOrigin s node → replidentName node p.myid.dboid ∈ names) ∧
    ∀ o ∈ s.origins, o.name ∈ names →
      ∃ node, p.Quiet node ∧ o.name = replidentName node p.myid.dboid

theorem clean_iff (hlive : p.Live) (h : p.maintainDbWorkers memory s = (.ok u, s')) :
    p.Clean s s' ↔
      p.ReadsRight s (p.removedNames memory (p.dropped s p.view.detachedNodes)) := by
  obtain ⟨hslots, horigins⟩ := maintainDbWorkers_eq_ok hlive h
  unfold Pass.Clean Pass.ReadsRight Pass.HasOrigin
  simp only [horigins]
  refine and_congr (forall₂_congr fun node hnode => ?_) (forall₂_congr fun o ho => ?_)
  · rw [and_iff_right (hslots node hnode)]
    constructor
    · rintro hnone ⟨o, ho, hname⟩
      by_contra hkept
      rw [← hname] at hkept
      exact hnone ⟨o, ⟨ho, hkept⟩, hname⟩
    · rintro hread ⟨o, ⟨ho, hkept⟩, hname⟩
      rw [hname] at hkept
      exact hkept (hread ⟨o, ho, hname⟩)
  · rw [and_iff_right ho, not_not]

theorem mem_removedNames_intact {nodes : List NodeId} {name : List Char} :
    name ∈ p.removedNames (fun last _ => last) nodes ↔
      ∃ last, nodes.getLast? = some last ∧ name = replidentName last p.myid.dboid := by
  unfold Pass.removedNames
  cases hlast : nodes.getLast? with
  | none => simp
  | some last =>
    have hpos : 0 < nodes.length := by
      rw [List.length_pos_iff]
      rintro rfl
      cases hlast
    simp only [List.mem_map, List.mem_range, Option.some.injEq, exists_eq_left']
    constructor
    · rintro ⟨k, -, rfl⟩
      rfl
    · rintro rfl
      exact ⟨0, hpos, rfl⟩

theorem readsRight_intact :
    p.ReadsRight s (p.removedNames (fun last _ => last) (p.dropped s p.view.detachedNodes)) ↔
      ∀ node, p.Quiet node → p.HasOrigin s node →
        (p.dropped s p.view.detachedNodes).getLast? = some node := by
  unfold Pass.ReadsRight
  simp only [mem_removedNames_intact]
  constructor
  · rintro ⟨hread, -⟩ node hnode horigin
    obtain ⟨last, hlast, hname⟩ := hread node hnode horigin
    rw [hlast, (replidentName_inj hname).1]
  · intro hlast
    refine ⟨fun node hnode horigin => ⟨node, hlast node hnode horigin, rfl⟩, ?_⟩
    rintro o - ⟨last, hgetLast, hname⟩
    obtain ⟨hmem, hquiet⟩ := List.mem_filter.mp (List.mem_of_getLast? hgetLast)
    simp only [decide_eq_true_eq] at hquiet
    exact ⟨last, ⟨hmem, hquiet.1⟩, hname⟩

end Pass

/-- For all detached nodes, slots and origins: when a pass on a live node completes, the detached
nodes without connected workers have neither slot nor origin and no other origin has been dropped,
exactly if the names that it reads for the origins are right. If the array is left as it is, they
are exactly if every such node that has an origin is the last one whose slot is dropped. -/
theorem detachCleanup_right (s : Replication) (p : Pass n) (memory : List Char → ℕ → List Char)
    (s' : Replication) (hlive : p.Live) (hpass : p.maintainDbWorkers memory s = (.ok (), s')) :
    (p.Clean s s' ↔
      p.ReadsRight s (p.removedNames memory (p.dropped s p.view.detachedNodes))) ∧
    (memory = (fun last _ => last) →
      (p.Clean s s' ↔ ∀ node, p.Quiet node → p.HasOrigin s node →
        (p.dropped s p.view.detachedNodes).getLast? = some node)) := by
  refine ⟨clean_iff hlive hpass, ?_⟩
  rintro rfl
  rw [clean_iff hlive hpass, readsRight_intact]

def peer (sysid : UInt64) : NodeId := ⟨sysid, 1, 5⟩

def quietPass (detachedNodes : List NodeId) (key : detachedNodes.Nodup) : Pass 0 where
  view := ⟨5, false, detachedNodes, NodeId.dboid⟩
  workers := fun i => i.elim0
  myid := peer 9
  key := key

def twoPeers : Replication where
  slots := [⟨slotName (peer 1) 5, true, 5, false⟩, ⟨slotName (peer 2) 5, true, 5, false⟩]
  origins := [⟨replidentName (peer 1) 5, false⟩, ⟨replidentName (peer 2) 5, false⟩]
  key := by
    have hne : slotName (peer 1) 5 ≠ slotName (peer 2) 5 := fun h =>
      absurd (slotName_inj h).1 (by decide)
    simp [hne]

def onePass : Pass 0 := quietPass [peer 1] (List.nodup_singleton _)

/-- With one detached peer, and an array that is left as it is, nothing is left. -/
theorem detachCleanup_right_one :
    onePass.Live ∧ onePass.Clean twoPeers
      (onePass.maintainDbWorkers (fun last _ => last) twoPeers).2 := by
  have hlive : onePass.Live := ⟨rfl, by decide⟩
  have hpass : onePass.maintainDbWorkers (fun last _ => last) twoPeers =
      (.ok (), (onePass.maintainDbWorkers (fun last _ => last) twoPeers).2) := rfl
  refine ⟨hlive, ((detachCleanup_right twoPeers onePass _ _ hlive hpass).2 rfl).mpr ?_⟩
  rintro node ⟨hmem, -⟩ -
  rw [List.mem_singleton.mp hmem]
  rfl

/-- Both peers are detached, and the origin of the first one is left. Or one of them is, and a pass
that crashes after it has dropped the slot is followed by one that completes: the origin is left. -/
theorem detachCleanup_left :
    (∃ s', (quietPass [peer 1, peer 2] (by decide)).maintainDbWorkers (fun last _ => last)
        twoPeers = (.ok (), s') ∧ s'.slots = [] ∧
          s'.origins = [⟨replidentName (peer 1) 5, false⟩]) ∧
    ∃ s', onePass.maintainDbWorkers (fun last _ => last) (onePass.crash 1 twoPeers) =
        (.ok (), s') ∧ s'.origins = twoPeers.origins :=
  ⟨⟨_, rfl, rfl, rfl⟩, ⟨_, rfl, rfl⟩⟩

end Pgactive.Workers
