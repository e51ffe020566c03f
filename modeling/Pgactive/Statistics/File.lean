import Pgactive.ByteReader
import Pgactive.FallibleState

/-!
# The statistics file

`pgactive_count_serialize` writes the array of slots to a file when the server stops, and
`pgactive_count_unserialize` reads it at a start. Both hold the lock of the array. A file operation
may fail at any point; every way out is modelled with the locks that it leaves.
-/

namespace Pgactive.Statistics

open ByteReader FallibleState

/-! ### The slots -/

structure CountSlot where
  nodeId : UInt16
  nrCommit : Int64
  nrRollback : Int64
  nrInsert : Int64
  nrInsertConflict : Int64
  nrUpdate : Int64
  nrUpdateConflict : Int64
  nrDelete : Int64
  nrDeleteConflict : Int64
  nrDisconnect : Int64
deriving DecidableEq

def CountSlot.zero : CountSlot := ⟨0, 0, 0, 0, 0, 0, 0, 0, 0, 0⟩

def counterBytes (n : Int64) : List UInt8 := leBytes 8 n.toUInt64.toNat

def CountSlot.bytes (s : CountSlot) : List UInt8 :=
  leBytes 2 s.nodeId.toNat ++ (List.replicate 6 0 ++ (counterBytes s.nrCommit ++
    (counterBytes s.nrRollback ++ (counterBytes s.nrInsert ++ (counterBytes s.nrInsertConflict ++
      (counterBytes s.nrUpdate ++ (counterBytes s.nrUpdateConflict ++ (counterBytes s.nrDelete ++
        (counterBytes s.nrDeleteConflict ++ counterBytes s.nrDisconnect)))))))))

structure CountSerialize where
  magic : UInt32
  version : UInt32
  nrSlots : UInt32
deriving DecidableEq

def countMagic : UInt32 := 0x5e51A7

def countVersion : UInt32 := 2

def CountSerialize.bytes (h : CountSerialize) : List UInt8 :=
  leBytes 4 h.magic.toNat ++ (leBytes 4 h.version.toNat ++ leBytes 4 h.nrSlots.toNat)

/-! ### Reading them -/

/-- There are not as many bytes as were asked for. -/
inductive Short
  | short

def readCounter : Reader Short Int64 :=
  (fun n => (UInt64.ofNat n).toInt64) <$> readLe .short 8

def readSlot : Reader Short CountSlot := do
  let nodeId ← readLe .short 2
  let _ ← takeBytes .short 6
  let nrCommit ← readCounter
  let nrRollback ← readCounter
  let nrInsert ← readCounter
  let nrInsertConflict ← readCounter
  let nrUpdate ← readCounter
  let nrUpdateConflict ← readCounter
  let nrDelete ← readCounter
  let nrDeleteConflict ← readCounter
  let nrDisconnect ← readCounter
  return ⟨UInt16.ofNat nodeId, nrCommit, nrRollback, nrInsert, nrInsertConflict, nrUpdate,
    nrUpdateConflict, nrDelete, nrDeleteConflict, nrDisconnect⟩

def readSlots : ℕ → Reader Short (List CountSlot)
  | 0 => pure []
  | n + 1 => do
    let slot ← readSlot
    let slots ← readSlots n
    return slot :: slots

def readHeader : Reader Short CountSerialize := do
  let magic ← readLe .short 4
  let version ← readLe .short 4
  let nrSlots ← readLe .short 4
  return ⟨UInt32.ofNat magic, UInt32.ofNat version, UInt32.ofNat nrSlots⟩

theorem reads_readCounter (n : Int64) : Reads readCounter (counterBytes n) n := by
  have h := (reads_readLe Short.short (n := 8) n.toUInt64.toNat_lt).map
    fun n => (UInt64.ofNat n).toInt64
  rwa [UInt64.ofNat_toNat, Int64.toInt64_toUInt64] at h

theorem reads_readSlot (s : CountSlot) : Reads readSlot s.bytes s := by
  have hnode := reads_readLe Short.short (n := 2) s.nodeId.toNat_lt
  have hpadding := reads_takeBytes Short.short (List.replicate 6 0)
  refine hnode.bind (hpadding.bind ?_)
  refine (reads_readCounter _).bind ((reads_readCounter _).bind ((reads_readCounter _).bind
    ((reads_readCounter _).bind ((reads_readCounter _).bind ((reads_readCounter _).bind
      ((reads_readCounter _).bind ((reads_readCounter _).bind ((reads_readCounter _).bind_nil
        ?_))))))))
  rw [UInt16.ofNat_toNat]
  exact Reads.pure s

theorem reads_readSlots (slots : List CountSlot) :
    Reads (readSlots slots.length) (slots.flatMap CountSlot.bytes) slots := by
  induction slots with
  | nil => exact Reads.pure []
  | cons slot slots ih =>
    rw [List.flatMap_cons]
    exact (reads_readSlot slot).bind (ih.bind_nil (Reads.pure _))

theorem reads_readHeader (h : CountSerialize) : Reads readHeader h.bytes h := by
  refine (reads_readLe Short.short h.magic.toNat_lt).bind ((reads_readLe Short.short
    h.version.toNat_lt).bind ((reads_readLe Short.short h.nrSlots.toNat_lt).bind_nil ?_))
  rw [UInt32.ofNat_toNat, UInt32.ofNat_toNat, UInt32.ofNat_toNat]
  exact Reads.pure h

/-! ### Locks and files -/

/-- `pgactiveCountCtl->lock` and `pgactiveWorkerCtl->lock`. -/
inductive Lock
  | count
  | worker
deriving DecidableEq

/-- How a function ends that does not return. -/
inductive Exit
  | error
  | panic
deriving DecidableEq

structure Server where
  held : List Lock
  stray : List Lock
  /-- `pgactiveCountCtl` was set. -/
  attached : Bool
  /-- `pgactiveCountCtl->slots`, as many as `pgactive_count_nnodes`. -/
  slots : List CountSlot
  /-- `global/pgactive.stat`. -/
  stat : Option (List UInt8)
  /-- `global/pgactive.stat.tmp`. -/
  tmp : Option (List UInt8)

def lwlockAcquire (l : Lock) : Fallible Exit Server Unit :=
  modify fun s => { s with held := l :: s.held }

def lwlockRelease (l : Lock) : Fallible Exit Server Unit := fun s =>
  if s.held.contains l then (.ok (), { s with held := s.held.erase l })
  else (.error .error, { s with stray := l :: s.stray })

def fileError : Fallible Exit Server Unit := do
  lwlockRelease .worker
  throw .error

/-- What happens to the operations of `pgactive_count_serialize`. -/
structure SerializeIO where
  /-- `unlink` fails with something else than `ENOENT`. -/
  unlinkFails : Bool
  openFails : Bool
  writeHeaderFails : Bool
  writeDataFails : Bool
  renameFails : Bool
deriving DecidableEq

def headerOf (slots : List CountSlot) : CountSerialize :=
  ⟨countMagic, countVersion, UInt32.ofNat slots.length⟩

def setTmp (content : List UInt8) : Fallible Exit Server Unit :=
  modify fun s => { s with tmp := some content }

def countSerialize (io : SerializeIO) : Fallible Exit Server Unit := do
  lwlockAcquire .count
  let s ← get
  if io.unlinkFails then fileError
  else
    modify fun s => { s with tmp := none }
    if io.openFails then fileError
    else
      setTmp []
      if io.writeHeaderFails then fileError
      else
        setTmp (headerOf s.slots).bytes
        if io.writeDataFails then fileError
        else
          setTmp ((headerOf s.slots).bytes ++ s.slots.flatMap CountSlot.bytes)
          if io.renameFails then fileError
          else
            modify fun s => { s with stat := s.tmp, tmp := none }
            lwlockRelease .count

/-- What happens to the operations of `pgactive_count_unserialize`. -/
structure UnserializeIO where
  /-- `OpenTransientFilePerm` fails with something else than `ENOENT`. -/
  openFails : Bool
  readHeaderFails : Bool
  readDataFails : Bool
  /-- The operations of `pgactive_count_serialize`, if it is called. -/
  serialize : SerializeIO
deriving DecidableEq

def zeroFile (io : SerializeIO) : Fallible Exit Server Unit := do
  lwlockRelease .count
  countSerialize io

/-- `read`, which may fail or return less than was asked for. -/
def readFile {α : Type} (fails : Bool) (reader : Reader Short α) (bytes : List UInt8) :
    Option (α × List UInt8) :=
  if fails then none
  else
    match reader bytes with
    | .ok found => some found
    | .error _ => none

/-- The slots after a `read` that stores these bytes over the first ones of the array. -/
def overlay (bytes : List UInt8) (slots : List CountSlot) : List CountSlot :=
  match readSlots slots.length (bytes ++ (slots.flatMap CountSlot.bytes).drop bytes.length) with
  | .ok (slots, _) => slots
  | .error _ => slots

/-- What a `read` of the slots that fails or comes to the end of the file leaves. -/
def Server.readShort (s : Server) (io : UnserializeIO) (rest : List UInt8) : Server :=
  { s with slots := if io.readDataFails then s.slots else overlay rest s.slots }

def countUnserialize (io : UnserializeIO) : Fallible Exit Server Unit := do
  let s ← get
  if s.attached then
    lwlockAcquire .count
    if io.openFails then fileError
    else
      match s.stat with
      | none => lwlockRelease .count
      | some bytes =>
        match readFile io.readHeaderFails readHeader bytes with
        | none => throw .panic
        | some (serial, rest) =>
          if serial.magic ≠ countMagic then fileError
          else if serial.version ≠ countVersion then zeroFile io.serialize
          else if s.slots.length < serial.nrSlots.toNat then zeroFile io.serialize
          else
            match readFile io.readDataFails (readSlots serial.nrSlots.toNat) rest with
            | none =>
              modify fun s => s.readShort io rest
              fileError
            | some (slots, _) =>
              modify fun s => { s with slots := slots ++ s.slots.drop slots.length }
              lwlockRelease .count
  else throw .error

/-! ### The ways out -/

def fileOf (slots : List CountSlot) : List UInt8 :=
  (headerOf slots).bytes ++ slots.flatMap CountSlot.bytes

def Server.locked (s : Server) (tmp : Option (List UInt8)) : Server :=
  { s with held := .count :: s.held, tmp := tmp }

/-- Every operation of `pgactive_count_serialize` succeeds. -/
def SerializeIO.Succeeds (io : SerializeIO) : Prop :=
  io.unlinkFails = false ∧ io.openFails = false ∧ io.writeHeaderFails = false ∧
    io.writeDataFails = false ∧ io.renameFails = false

theorem lwlockRelease_count (s : Server) (tmp : Option (List UInt8)) :
    lwlockRelease .count (s.locked tmp) = (.ok (), { s with tmp := tmp }) := by
  simp [lwlockRelease, Server.locked]

theorem countSerialize_of_succeeds {io : SerializeIO} (h : io.Succeeds) (s : Server) :
    countSerialize io s = (.ok (), { s with stat := some (fileOf s.slots), tmp := none }) := by
  obtain ⟨unlinkFails, openFails, writeHeaderFails, writeDataFails, renameFails⟩ := io
  obtain ⟨rfl, rfl, rfl, rfl, rfl⟩ := h
  exact lwlockRelease_count { s with stat := some (fileOf s.slots) } none

theorem countSerialize_of_not_succeeds {io : SerializeIO} (h : ¬io.Succeeds) (s : Server) :
    ∃ tmp, countSerialize io s = fileError (s.locked tmp) := by
  obtain ⟨unlinkFails, openFails, writeHeaderFails, writeDataFails, renameFails⟩ := io
  cases unlinkFails with
  | true => exact ⟨s.tmp, rfl⟩
  | false =>
    cases openFails with
    | true => exact ⟨none, rfl⟩
    | false =>
      cases writeHeaderFails with
      | true => exact ⟨some [], rfl⟩
      | false =>
        cases writeDataFails with
        | true => exact ⟨some (headerOf s.slots).bytes, rfl⟩
        | false =>
          cases renameFails with
          | true => exact ⟨some (fileOf s.slots), rfl⟩
          | false => exact absurd ⟨rfl, rfl, rfl, rfl, rfl⟩ h

theorem fileError_eq (s : Server) :
    fileError s = (.error .error,
      if s.held.contains .worker then { s with held := s.held.erase .worker }
      else { s with stray := .worker :: s.stray }) := by
  by_cases h : s.held.contains .worker = true
  · have hrelease : lwlockRelease .worker s = (.ok (), { s with held := s.held.erase .worker }) :=
      if_pos h
    rw [fileError, bind_of_ok hrelease, if_pos h]
    rfl
  · have hrelease : lwlockRelease .worker s =
        (.error .error, { s with stray := .worker :: s.stray }) := if_neg h
    rw [fileError, bind_of_error hrelease, if_neg h]

theorem zeroFile_locked (io : SerializeIO) (s : Server) :
    zeroFile io (s.locked s.tmp) = countSerialize io s := by
  rw [zeroFile, bind_of_ok (lwlockRelease_count s s.tmp)]

def afterHeader (io : UnserializeIO) (s : Server) (serial : CountSerialize) (rest : List UInt8) :
    Except Exit Unit × Server :=
  if serial.magic ≠ countMagic then fileError (s.locked s.tmp)
  else if serial.version ≠ countVersion then countSerialize io.serialize s
  else if s.slots.length < serial.nrSlots.toNat then countSerialize io.serialize s
  else
    match readFile io.readDataFails (readSlots serial.nrSlots.toNat) rest with
    | none => fileError ((s.readShort io rest).locked s.tmp)
    | some (slots, _) => (.ok (), { s with slots := slots ++ s.slots.drop slots.length })

theorem countUnserialize_eq (io : UnserializeIO) (s : Server) :
    countUnserialize io s =
      if s.attached then
        if io.openFails then fileError (s.locked s.tmp)
        else
          match s.stat with
          | none => (.ok (), s)
          | some bytes =>
            match readFile io.readHeaderFails readHeader bytes with
            | none => (.error .panic, s.locked s.tmp)
            | some (serial, rest) => afterHeader io s serial rest
      else (.error .error, s) := by
  have hget : (get : Fallible Exit Server Server) s = (.ok s, s) := rfl
  have hlock : lwlockAcquire .count s = (.ok (), s.locked s.tmp) := rfl
  rw [countUnserialize, bind_of_ok hget]
  by_cases hattached : s.attached = true
  · rw [if_pos hattached, if_pos hattached, bind_of_ok hlock]
    split_ifs with hopen
    · rfl
    · cases s.stat with
      | none => exact lwlockRelease_count s s.tmp
      | some bytes =>
        dsimp only
        cases readFile io.readHeaderFails readHeader bytes with
        | none => rfl
        | some found =>
          dsimp only [afterHeader]
          split_ifs with hmagic hversion hnr
          · rfl
          · exact zeroFile_locked io.serialize s
          · exact zeroFile_locked io.serialize s
          · cases readFile io.readDataFails (readSlots found.1.nrSlots.toNat) found.2 with
            | none => rfl
            | some loaded =>
              obtain ⟨slots, left⟩ := loaded
              exact lwlockRelease_count { s with slots := slots ++ s.slots.drop slots.length } s.tmp
  · rw [if_neg hattached, if_neg hattached]
    rfl

end Pgactive.Statistics
