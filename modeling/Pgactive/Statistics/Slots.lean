import Pgactive.Statistics.File
import Pgactive.Transition

/-!
# Statistics slots of the origins

`pgactive_count_set_current_node` looks for the slot of an origin and takes a free one if there is
none. No two slots ever have the same origin, also not after a start with another number of slots.
If there is no slot left, the server panics.
-/

namespace Pgactive.Statistics

open ByteReader FallibleState Transition

/-! ### The functions -/

def invalidRepOriginId : UInt16 := 0

def findSlot (slots : List CountSlot) (nodeId : UInt16) : Option ℕ :=
  slots.findIdx? fun slot => slot.nodeId = nodeId

def takeSlot (slots : List CountSlot) (i : ℕ) (nodeId : UInt16) : List CountSlot :=
  slots.modify i fun slot => { slot with nodeId := nodeId }

/-- `pgactive_count_set_current_node`; the result is `MyCountOffsetIdx`. -/
def countSetCurrentNode (nodeId : UInt16) : Fallible Exit Server ℕ := do
  lwlockAcquire .count
  let s ← get
  match findSlot s.slots nodeId with
  | some i =>
    lwlockRelease .count
    return i
  | none =>
    match findSlot s.slots invalidRepOriginId with
    | some i =>
      modify fun s => { s with slots := takeSlot s.slots i nodeId }
      lwlockRelease .count
      return i
    | none => throw .panic

/-- What is counted. -/
inductive Counter
  | commit
  | rollback
  | insert
  | insertConflict
  | update
  | updateConflict
  | delete
  | deleteConflict
  | disconnect
deriving DecidableEq

def CountSlot.bump (s : CountSlot) : Counter → CountSlot
  | .commit => { s with nrCommit := s.nrCommit + 1 }
  | .rollback => { s with nrRollback := s.nrRollback + 1 }
  | .insert => { s with nrInsert := s.nrInsert + 1 }
  | .insertConflict => { s with nrInsertConflict := s.nrInsertConflict + 1 }
  | .update => { s with nrUpdate := s.nrUpdate + 1 }
  | .updateConflict => { s with nrUpdateConflict := s.nrUpdateConflict + 1 }
  | .delete => { s with nrDelete := s.nrDelete + 1 }
  | .deleteConflict => { s with nrDeleteConflict := s.nrDeleteConflict + 1 }
  | .disconnect => { s with nrDisconnect := s.nrDisconnect + 1 }

/-- `pgactive_count_commit` and the functions for the other counters, with `MyCountOffsetIdx`. -/
def countBump (c : Counter) (offset : ℕ) (s : Server) : Server :=
  { s with slots := s.slots.modify offset fun slot => slot.bump c }

/-- `pgactive_count_shmem_startup` up to the call of `pgactive_count_unserialize`. -/
def Server.start (nnodes : ℕ) (stat tmp : Option (List UInt8)) : Server :=
  ⟨[], [], true, List.replicate nnodes .zero, stat, tmp⟩

/-! ### Runs -/

inductive Event
  | setCurrentNode (nodeId : UInt16)
  | count (c : Counter) (offset : ℕ)
  /-- Another server is started, with this number of slots. The old one has written its statistics,
  unless it has crashed. -/
  | restart (nnodes : ℕ) (save : Option SerializeIO) (load : UnserializeIO)

def Server.stopped (s : Server) : Option SerializeIO → Server
  | none => s
  | some io => (countSerialize io s).2

def running {α : Type} : Except Exit α × Server → Option Server
  | (.ok _, s) => some s
  | (.error _, _) => none

def step (s : Server) : Event → Option Server
  | .setCurrentNode nodeId => running (countSetCurrentNode nodeId s)
  | .count c offset => some (countBump c offset s)
  | .restart nnodes save load =>
    running (countUnserialize load (.start nnodes (s.stopped save).stat (s.stopped save).tmp))

/-- The number of slots is an `int`. -/
def Admissible (_ : Server) : Event → Prop
  | .restart nnodes _ _ => nnodes < 2 ^ 31
  | _ => True

def Foreign (bytes : List UInt8) : Prop :=
  ∀ serial rest, readHeader bytes = .ok (serial, rest) → serial.version ≠ countVersion

def First (s : Server) : Prop :=
  ∃ nnodes stat tmp, nnodes < 2 ^ 31 ∧ (∀ bytes, stat = some bytes → Foreign bytes) ∧
    s = .start nnodes stat tmp

def Unique (slots : List CountSlot) : Prop :=
  ∀ (i j : ℕ) (a b : CountSlot), slots[i]? = some a → slots[j]? = some b → a.nodeId = b.nodeId →
    a.nodeId ≠ invalidRepOriginId → i = j

/-! ### One call -/

section Call

variable {slots : List CountSlot} {nodeId : UInt16} {i : ℕ}

theorem findSlot_eq_some (h : findSlot slots nodeId = some i) :
    ∃ slot, slots[i]? = some slot ∧ slot.nodeId = nodeId := by
  obtain ⟨hlt, hnode, -⟩ := List.findIdx?_eq_some_iff_getElem.mp h
  exact ⟨slots[i], List.getElem?_eq_getElem hlt, of_decide_eq_true hnode⟩

theorem findSlot_eq_none (h : findSlot slots nodeId = none) :
    ∀ slot ∈ slots, slot.nodeId ≠ nodeId := by
  intro slot hslot
  have hnode := List.findIdx?_eq_none_iff.mp h slot hslot
  exact of_decide_eq_false hnode

theorem countSetCurrentNode_eq (nodeId : UInt16) (s : Server) :
    countSetCurrentNode nodeId s =
      match findSlot s.slots nodeId with
      | some i => (.ok i, s)
      | none =>
        match findSlot s.slots invalidRepOriginId with
        | some i => (.ok i, { s with slots := takeSlot s.slots i nodeId })
        | none => (.error .panic, s.locked s.tmp) := by
  have hlock : lwlockAcquire .count s = (.ok (), s.locked s.tmp) := rfl
  have hget : (get : Fallible Exit Server Server) (s.locked s.tmp) =
      (.ok (s.locked s.tmp), s.locked s.tmp) := rfl
  have hslots : (s.locked s.tmp).slots = s.slots := rfl
  rw [countSetCurrentNode, bind_of_ok hlock, bind_of_ok hget, hslots]
  cases findSlot s.slots nodeId with
  | some i =>
    dsimp only
    rw [bind_of_ok (lwlockRelease_count s s.tmp)]
    rfl
  | none =>
    cases findSlot s.slots invalidRepOriginId with
    | some i =>
      have hrelease := lwlockRelease_count { s with slots := takeSlot s.slots i nodeId } s.tmp
      have hmodify : (modify fun s => { s with slots := takeSlot s.slots i nodeId } :
          Fallible Exit Server Unit) (s.locked s.tmp) =
            (.ok (), Server.locked { s with slots := takeSlot s.slots i nodeId } s.tmp) := rfl
      dsimp only
      rw [bind_of_ok hmodify, bind_of_ok hrelease]
      rfl
    | none => rfl

/-- The slot of the origin is selected if there is one or a free one, and otherwise the server
panics. -/
def Selects (nodeId : UInt16) (s : Server) : Prop :=
  ((∃ slot ∈ s.slots, slot.nodeId = nodeId ∨ slot.nodeId = invalidRepOriginId) →
    ∃ i s' slot, countSetCurrentNode nodeId s = (.ok i, s') ∧ s'.slots[i]? = some slot ∧
      slot.nodeId = nodeId) ∧
  ((∀ slot ∈ s.slots, slot.nodeId ≠ nodeId ∧ slot.nodeId ≠ invalidRepOriginId) →
    (countSetCurrentNode nodeId s).1 = .error .panic)

theorem getElem?_takeSlot_self {slot : CountSlot} (h : slots[i]? = some slot) :
    (takeSlot slots i nodeId)[i]? = some { slot with nodeId := nodeId } := by
  rw [takeSlot, List.getElem?_modify_eq, h]
  rfl

theorem getElem?_takeSlot_of_ne {j : ℕ} (h : j ≠ i) :
    (takeSlot slots i nodeId)[j]? = slots[j]? := by
  rw [takeSlot, List.getElem?_modify_ne _ _ h.symm]

theorem selects (nodeId : UInt16) (s : Server) : Selects nodeId s := by
  unfold Selects
  rw [countSetCurrentNode_eq]
  cases hfind : findSlot s.slots nodeId with
  | some i =>
    obtain ⟨slot, hslot, hnode⟩ := findSlot_eq_some hfind
    refine ⟨fun _ => ⟨i, s, slot, rfl, hslot, hnode⟩, fun h => ?_⟩
    exact absurd hnode (h slot (List.mem_of_getElem? hslot)).1
  | none =>
    cases hfree : findSlot s.slots invalidRepOriginId with
    | some i =>
      obtain ⟨slot, hslot, hnode⟩ := findSlot_eq_some hfree
      refine ⟨fun _ => ⟨i, _, _, rfl, getElem?_takeSlot_self hslot, rfl⟩, fun h => ?_⟩
      exact absurd hnode (h slot (List.mem_of_getElem? hslot)).2
    | none =>
      refine ⟨?_, fun _ => rfl⟩
      rintro ⟨slot, hslot, hnode | hnode⟩
      · exact absurd hnode (findSlot_eq_none hfind slot hslot)
      · exact absurd hnode (findSlot_eq_none hfree slot hslot)

end Call

/-! ### No origin twice -/

section Unique

variable {slots : List CountSlot} {nodeId : UInt16}

theorem unique_replicate_zero (n : ℕ) : Unique (List.replicate n .zero) := by
  intro i j a b ha hb hsame hused
  rw [List.eq_of_mem_replicate (List.mem_of_getElem? ha)] at hused
  exact absurd rfl hused

theorem Unique.append_zero (h : Unique slots) (n : ℕ) :
    Unique (slots ++ List.replicate n .zero) := by
  have hleft : ∀ (i : ℕ) (a : CountSlot), (slots ++ List.replicate n .zero)[i]? = some a →
      a.nodeId ≠ invalidRepOriginId → slots[i]? = some a := by
    intro i a ha hused
    rw [List.getElem?_append] at ha
    split_ifs at ha with hlt
    · exact ha
    · rw [List.eq_of_mem_replicate (List.mem_of_getElem? ha)] at hused
      exact absurd rfl hused
  intro i j a b ha hb hsame hused
  exact h i j a b (hleft i a ha hused) (hleft j b hb (hsame ▸ hused)) hsame hused

theorem Unique.takeSlot (h : Unique slots) (hnew : ∀ slot ∈ slots, slot.nodeId ≠ nodeId) (k : ℕ) :
    Unique (takeSlot slots k nodeId) := by
  have hother : ∀ j b, j ≠ k → (Statistics.takeSlot slots k nodeId)[j]? = some b →
      slots[j]? = some b ∧ b.nodeId ≠ nodeId := by
    intro j b hj hb
    rw [getElem?_takeSlot_of_ne hj] at hb
    exact ⟨hb, hnew b (List.mem_of_getElem? hb)⟩
  have hself : ∀ b, (Statistics.takeSlot slots k nodeId)[k]? = some b → b.nodeId = nodeId := by
    intro b hb
    cases hk : slots[k]? with
    | none =>
      rw [Statistics.takeSlot, List.getElem?_modify, hk] at hb
      cases hb
    | some slot =>
      rw [getElem?_takeSlot_self hk] at hb
      cases hb
      rfl
  intro i j a b ha hb hsame hused
  by_cases hi : i = k
  · by_cases hj : j = k
    · rw [hi, hj]
    · subst hi
      exact absurd ((hself a ha).symm.trans hsame).symm (hother j b hj hb).2
  · by_cases hj : j = k
    · subst hj
      exact absurd (hsame.trans (hself b hb)) (hother i a hi ha).2
    · exact h i j a b (hother i a hi ha).1 (hother j b hj hb).1 hsame hused

theorem nodeId_bump (slot : CountSlot) (c : Counter) : (slot.bump c).nodeId = slot.nodeId := by
  cases c with
  | _ => rfl

theorem Unique.bump (h : Unique slots) (c : Counter) (k : ℕ) :
    Unique (slots.modify k fun slot => slot.bump c) := by
  have hbefore : ∀ (i : ℕ) a, (slots.modify k fun slot => slot.bump c)[i]? = some a →
      ∃ slot, slots[i]? = some slot ∧ slot.nodeId = a.nodeId := by
    intro i a ha
    rw [List.getElem?_modify] at ha
    obtain ⟨slot, hslot, rfl⟩ := Option.map_eq_some_iff.mp ha
    refine ⟨slot, hslot, ?_⟩
    split_ifs
    · exact (nodeId_bump slot c).symm
    · rfl
  intro i j a b ha hb hsame hused
  obtain ⟨slotA, hslotA, hnodeA⟩ := hbefore i a ha
  obtain ⟨slotB, hslotB, hnodeB⟩ := hbefore j b hb
  exact h i j slotA slotB hslotA hslotB (by rw [hnodeA, hnodeB, hsame]) (by rwa [hnodeA])

end Unique

/-! ### The file -/

variable {slots : List CountSlot}

theorem readSlots_length {n : ℕ} {input left : List UInt8}
    (h : readSlots n input = .ok (slots, left)) : slots.length = n := by
  induction n generalizing input slots with
  | zero =>
    cases h
    rfl
  | succ n ih =>
    obtain ⟨slot, mid, -, h⟩ := bind_eq_ok_iff.mp h
    obtain ⟨others, left', hothers, h⟩ := bind_eq_ok_iff.mp h
    cases h
    rw [List.length_cons, ih hothers]

def Good (bytes : List UInt8) : Prop :=
  ∀ serial rest slots left, readHeader bytes = .ok (serial, rest) →
    serial.version = countVersion → readSlots serial.nrSlots.toNat rest = .ok (slots, left) →
    Unique slots

theorem readHeader_fileOf (slots : List CountSlot) :
    readHeader (fileOf slots) = .ok (headerOf slots, slots.flatMap CountSlot.bytes) :=
  reads_readHeader (headerOf slots) (slots.flatMap CountSlot.bytes)

theorem readSlots_fileOf (hsmall : slots.length < 2 ^ 31) :
    readSlots (headerOf slots).nrSlots.toNat (slots.flatMap CountSlot.bytes) = .ok (slots, []) := by
  have hlength : (headerOf slots).nrSlots.toNat = slots.length :=
    UInt32.toNat_ofNat_of_lt' (Nat.lt_of_lt_of_le hsmall (by decide))
  rw [hlength]
  exact (reads_readSlots slots).readsAll

theorem good_fileOf (h : Unique slots) (hsmall : slots.length < 2 ^ 31) : Good (fileOf slots) := by
  intro serial rest slots' left hheader _ hslots
  rw [readHeader_fileOf] at hheader
  cases hheader
  rw [readSlots_fileOf hsmall] at hslots
  cases hslots
  exact h

variable {α : Type} {fails : Bool} {reader : Reader Short α} {bytes : List UInt8}
  {found : α × List UInt8}

theorem readFile_eq_some (h : readFile fails reader bytes = some found) :
    reader bytes = .ok found := by
  unfold readFile at h
  split_ifs at h
  cases hread : reader bytes with
  | ok found' =>
    rw [hread] at h
    cases h
    rfl
  | error e =>
    rw [hread] at h
    cases h

/-- The invariant of a run. -/
structure Sound (s : Server) : Prop where
  unique : Unique s.slots
  small : s.slots.length < 2 ^ 31
  file : ∀ bytes, s.stat = some bytes → Good bytes

theorem fileError_frame (s : Server) :
    (fileError s).2.slots = s.slots ∧ (fileError s).2.stat = s.stat := by
  rw [fileError_eq]
  dsimp only
  split_ifs
  · exact ⟨rfl, rfl⟩
  · exact ⟨rfl, rfl⟩

variable {s : Server}

theorem Sound.countSerialize (h : Sound s) (io : SerializeIO) : Sound (countSerialize io s).2 := by
  by_cases hio : io.Succeeds
  · rw [countSerialize_of_succeeds hio]
    refine ⟨h.unique, h.small, fun bytes hbytes => ?_⟩
    cases hbytes
    exact good_fileOf h.unique h.small
  · obtain ⟨tmp, herror⟩ := countSerialize_of_not_succeeds hio s
    obtain ⟨hslots, hstat⟩ := fileError_frame (s.locked tmp)
    rw [herror]
    exact ⟨hslots ▸ h.unique, hslots ▸ h.small, hstat ▸ h.file⟩

variable {nnodes : ℕ} {stat tmp : Option (List UInt8)}

theorem Sound.start (hsmall : nnodes < 2 ^ 31) (hfile : ∀ bytes, stat = some bytes → Good bytes) :
    Sound (.start nnodes stat tmp) := by
  refine ⟨unique_replicate_zero nnodes, ?_, hfile⟩
  change (List.replicate nnodes CountSlot.zero).length < 2 ^ 31
  rw [List.length_replicate]
  exact hsmall

variable {s' : Server}

theorem fileError_ne_ok (h : fileError s = (.ok (), s')) : False := by
  rw [fileError_eq] at h
  cases congrArg Prod.fst h

theorem Sound.countUnserialize {io : UnserializeIO} (h : Sound (.start nnodes stat tmp))
    (hload : countUnserialize io (.start nnodes stat tmp) = (.ok (), s')) : Sound s' := by
  have hattached : (Server.start nnodes stat tmp).attached = true := rfl
  rw [countUnserialize_eq, if_pos hattached] at hload
  split_ifs at hload with hopen
  · exact (fileError_ne_ok hload).elim
  · have hstat : (Server.start nnodes stat tmp).stat = stat := rfl
    rw [hstat] at hload
    cases stat with
    | none =>
      cases hload
      exact h
    | some bytes =>
      dsimp only at hload
      cases hheader : readFile io.readHeaderFails readHeader bytes with
      | none =>
        rw [hheader] at hload
        cases hload
      | some found =>
        obtain ⟨serial, rest⟩ := found
        rw [hheader] at hload
        dsimp only [afterHeader] at hload
        have hsaved := h.countSerialize io.serialize
        split_ifs at hload with hmagic hversion hnr
        · exact (fileError_ne_ok hload).elim
        · rw [hload] at hsaved
          exact hsaved
        · rw [hload] at hsaved
          exact hsaved
        · cases hdata : readFile io.readDataFails (readSlots serial.nrSlots.toNat) rest with
          | none =>
            rw [hdata] at hload
            exact (fileError_ne_ok hload).elim
          | some loaded =>
            obtain ⟨slots, left⟩ := loaded
            rw [hdata] at hload
            cases hload
            have hslots := readFile_eq_some hdata
            have hlength := readSlots_length hslots
            have hunique := h.file bytes rfl serial rest slots left (readFile_eq_some hheader)
              (not_not.mp hversion) hslots
            have hsmall := h.small
            have hnnodes : (Server.start nnodes (some bytes) tmp).slots =
              List.replicate nnodes .zero := rfl
            rw [hnnodes, List.length_replicate] at hnr hsmall
            refine ⟨?_, ?_, h.file⟩
            · change Unique (slots ++ (List.replicate nnodes CountSlot.zero).drop slots.length)
              rw [List.drop_replicate]
              exact hunique.append_zero _
            · change (slots ++ (List.replicate nnodes CountSlot.zero).drop slots.length).length < _
              rw [List.drop_replicate, List.length_append, List.length_replicate]
              omega

theorem Sound.step {t : Server} {e : Event} (h : Sound s) (hadmissible : Admissible s e)
    (hstep : step s e = some t) : Sound t := by
  cases e with
  | setCurrentNode nodeId =>
    rw [Statistics.step, countSetCurrentNode_eq] at hstep
    cases hfind : findSlot s.slots nodeId with
    | some i =>
      rw [hfind] at hstep
      cases hstep
      exact h
    | none =>
      rw [hfind] at hstep
      cases hfree : findSlot s.slots invalidRepOriginId with
      | some i =>
        rw [hfree] at hstep
        cases hstep
        refine ⟨h.unique.takeSlot (findSlot_eq_none hfind) i, ?_, h.file⟩
        change (takeSlot s.slots i nodeId).length < 2 ^ 31
        rw [takeSlot, List.length_modify]
        exact h.small
      | none =>
        rw [hfree] at hstep
        cases hstep
  | count c offset =>
    cases hstep
    refine ⟨h.unique.bump c offset, ?_, h.file⟩
    change (s.slots.modify offset _).length < 2 ^ 31
    rw [List.length_modify]
    exact h.small
  | restart nnodes save load =>
    have hstopped : Sound (s.stopped save) := by
      cases save with
      | none => exact h
      | some io => exact h.countSerialize io
    have hstart : Sound (.start nnodes (s.stopped save).stat (s.stopped save).tmp) :=
      .start hadmissible hstopped.file
    rw [Statistics.step] at hstep
    generalize hrun : Statistics.countUnserialize load _ = result at hstep
    obtain ⟨exit | ⟨⟩, t'⟩ := result
    · cases hstep
    · cases hstep
      exact hstart.countUnserialize hrun

theorem sound_of_reach (hs : Reach First step Admissible s) : Sound s := by
  refine hs.invariant ?_ fun s e t _ h hadmissible hstep => h.step hadmissible hstep
  rintro s ⟨nnodes, stat, tmp, hsmall, hforeign, rfl⟩
  refine .start hsmall fun bytes hbytes serial rest slots left hheader hversion => ?_
  exact absurd hversion (hforeign bytes hbytes serial rest hheader)

/-! ### What is loaded -/

def UnserializeIO.Succeeds (io : UnserializeIO) : Prop :=
  io.openFails = false ∧ io.readHeaderFails = false ∧ io.readDataFails = false ∧
    io.serialize.Succeeds

theorem readFile_of_succeeds (h : fails = false) (hread : reader bytes = .ok found) :
    readFile fails reader bytes = some found := by
  subst h
  rw [readFile, if_neg Bool.false_ne_true, hread]

section Load

variable {io : UnserializeIO} {bytes rest : List UInt8} {serial : CountSerialize}
  (nnodes : ℕ) (tmp : Option (List UInt8))

theorem countUnserialize_start (hio : io.Succeeds)
    (hheader : readHeader bytes = .ok (serial, rest)) :
    countUnserialize io (.start nnodes (some bytes) tmp) =
      afterHeader io (.start nnodes (some bytes) tmp) serial rest := by
  have hattached : (Server.start nnodes (some bytes) tmp).attached = true := rfl
  have hopen : ¬io.openFails = true := by simp [hio.1]
  have hfile : (Server.start nnodes (some bytes) tmp).stat = some bytes := rfl
  rw [countUnserialize_eq, if_pos hattached, if_neg hopen, hfile]
  dsimp only
  rw [readFile_of_succeeds hio.2.1 hheader]

theorem countUnserialize_zero (hio : io.Succeeds) (hheader : readHeader bytes = .ok (serial, rest))
    (hmagic : serial.magic = countMagic)
    (hzero : serial.version ≠ countVersion ∨ nnodes < serial.nrSlots.toNat) :
    ∃ s', countUnserialize io (.start nnodes (some bytes) tmp) = (.ok (), s') ∧
      s'.slots = List.replicate nnodes .zero := by
  have hsaved := countSerialize_of_succeeds hio.2.2.2 (.start nnodes (some bytes) tmp)
  refine ⟨_, Eq.trans ?_ hsaved, rfl⟩
  rw [countUnserialize_start nnodes tmp hio hheader, afterHeader, if_neg (not_not.mpr hmagic)]
  split_ifs with hversion hnr
  · rfl
  · rfl
  · refine absurd (hzero.resolve_left hversion) ?_
    exact fun h => hnr (by rwa [Server.start, List.length_replicate])

theorem countUnserialize_fileOf (hio : io.Succeeds) {slots : List CountSlot}
    (hsmall : slots.length < 2 ^ 31) (hle : slots.length ≤ nnodes) :
    ∃ s', countUnserialize io (.start nnodes (some (fileOf slots)) tmp) = (.ok (), s') ∧
      s'.slots = slots ++ List.replicate (nnodes - slots.length) .zero := by
  have hlength : (headerOf slots).nrSlots.toNat = slots.length :=
    readSlots_length (readSlots_fileOf hsmall) |>.symm
  have hnr : ¬(Server.start nnodes (some (fileOf slots)) tmp).slots.length <
      (headerOf slots).nrSlots.toNat := by
    rw [Server.start, List.length_replicate]
    omega
  have hmagic : ¬(headerOf slots).magic ≠ countMagic := not_not.mpr rfl
  have hversion : ¬(headerOf slots).version ≠ countVersion := not_not.mpr rfl
  rw [countUnserialize_start nnodes tmp hio (readHeader_fileOf slots), afterHeader,
    if_neg hmagic, if_neg hversion, if_neg hnr,
    readFile_of_succeeds hio.2.2.1 (readSlots_fileOf hsmall)]
  refine ⟨_, rfl, ?_⟩
  change slots ++ (List.replicate nnodes CountSlot.zero).drop slots.length = _
  rw [List.drop_replicate]

end Load

/-- The statistics of one server are those of the next one, if it has as many slots and the same
version, and are gone otherwise. In any run with restarts no origin has two slots. A call selects
the slot of the origin unless there is neither one nor a free one, which is a panic. -/
theorem statistics_kept :
    (∀ (s : Server) (nnodes : ℕ) (save : SerializeIO) (load : UnserializeIO) tmp,
      s.slots.length < 2 ^ 31 → save.Succeeds → load.Succeeds →
      ∃ s₁ s₂, countSerialize save s = (.ok (), s₁) ∧
        countUnserialize load (.start nnodes s₁.stat tmp) = (.ok (), s₂) ∧
        s₂.slots =
          if s.slots.length ≤ nnodes then
            s.slots ++ List.replicate (nnodes - s.slots.length) .zero
          else List.replicate nnodes .zero) ∧
    (∀ (serial : CountSerialize) (data : List UInt8) (nnodes : ℕ) (load : UnserializeIO) tmp,
      serial.magic = countMagic → serial.version ≠ countVersion → load.Succeeds →
      ∃ s₂, countUnserialize load (.start nnodes (some (serial.bytes ++ data)) tmp) = (.ok (), s₂) ∧
        s₂.slots = List.replicate nnodes .zero) ∧
    ∀ s, Reach First step Admissible s → Unique s.slots ∧ ∀ nodeId, Selects nodeId s := by
  refine ⟨?_, ?_, fun s hs => ⟨(sound_of_reach hs).unique, fun nodeId => selects nodeId s⟩⟩
  · intro s nnodes save load tmp hsmall hsave hload
    have hsaved := countSerialize_of_succeeds hsave s
    by_cases hle : s.slots.length ≤ nnodes
    · obtain ⟨s₂, hs₂, hslots⟩ := countUnserialize_fileOf nnodes tmp hload hsmall hle
      exact ⟨_, s₂, hsaved, hs₂, by rw [if_pos hle, hslots]⟩
    · have hlength : (headerOf s.slots).nrSlots.toNat = s.slots.length :=
        readSlots_length (readSlots_fileOf hsmall) |>.symm
      obtain ⟨s₂, hs₂, hslots⟩ := countUnserialize_zero nnodes tmp hload
        (readHeader_fileOf s.slots) rfl (.inr (by omega))
      exact ⟨_, s₂, hsaved, hs₂, by rw [if_neg hle, hslots]⟩
  · intro serial data nnodes load tmp hmagic hversion hload
    have hheader := reads_readHeader serial data
    exact countUnserialize_zero nnodes tmp hload hheader hmagic (.inl hversion)

/-- With one slot the second origin finds none. -/
theorem countSetCurrentNode_panic :
    (run step (fun _ _ => True) (.start 1 none none) [.setCurrentNode 1]).map
      (fun s => (countSetCurrentNode 2 s).1) = some (.error .panic) := by
  rfl

end Pgactive.Statistics
