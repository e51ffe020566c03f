import Pgactive.Statistics.File

/-!
# Locks of the statistics functions

Wherever a file operation fails, the functions release the lock of the workers instead of the lock
of the statistics, which they hold. They leave the locks as they found them only if no operation
fails in this way.
-/

namespace Pgactive.Statistics

/-- The process holds the locks that it held before, and released no other. -/
def Balanced (s s' : Server) : Prop := s'.held = s.held ∧ s'.stray = s.stray

theorem not_balanced_fileError (s : Server) (tmp : Option (List UInt8)) :
    ¬Balanced s (fileError (s.locked tmp)).2 := by
  rintro ⟨hheld, hstray⟩
  rw [fileError_eq] at hheld hstray
  by_cases h : (s.locked tmp).held.contains .worker = true
  · rw [if_pos h] at hheld
    have hcount := congrArg (List.count .count) hheld
    rw [Server.locked, List.count_erase_of_ne (by decide), List.count_cons_self] at hcount
    omega
  · rw [if_neg h] at hstray
    exact List.cons_ne_self _ _ hstray

theorem countSerialize_ne_panic (io : SerializeIO) (s : Server) :
    (countSerialize io s).1 ≠ .error .panic := by
  by_cases h : io.Succeeds
  · rw [countSerialize_of_succeeds h]
    simp
  · obtain ⟨tmp, herror⟩ := countSerialize_of_not_succeeds h s
    rw [herror, fileError_eq]
    simp

theorem balanced_countSerialize_iff (io : SerializeIO) (s : Server) :
    Balanced s (countSerialize io s).2 ↔ io.Succeeds := by
  by_cases h : io.Succeeds
  · rw [countSerialize_of_succeeds h]
    exact iff_of_true ⟨rfl, rfl⟩ h
  · obtain ⟨tmp, herror⟩ := countSerialize_of_not_succeeds h s
    rw [herror]
    exact iff_of_false (not_balanced_fileError s tmp) h

def Released (s : Server) (result : Except Exit Unit × Server) : Prop :=
  result.1 ≠ .error .panic → Balanced s result.2

theorem not_released_fileError (s : Server) (tmp : Option (List UInt8)) :
    ¬Released s (fileError (s.locked tmp)) := by
  intro h
  refine not_balanced_fileError s tmp (h ?_)
  rw [fileError_eq]
  simp

theorem released_countSerialize_iff (io : SerializeIO) (s : Server) :
    Released s (countSerialize io s) ↔ io.Succeeds := by
  rw [Released, balanced_countSerialize_iff]
  exact forall_prop_of_true (countSerialize_ne_panic io s)

/-- The operations that `pgactive_count_unserialize` needs on this file succeed, once the header
was read. -/
def UnserializeIO.Loads (io : UnserializeIO) (nnodes : ℕ) (serial : CountSerialize)
    (rest : List UInt8) : Prop :=
  serial.magic = countMagic ∧
    if serial.version ≠ countVersion ∨ nnodes < serial.nrSlots.toNat then io.serialize.Succeeds
    else (readFile io.readDataFails (readSlots serial.nrSlots.toNat) rest).isSome = true

theorem released_afterHeader_iff (io : UnserializeIO) (s : Server) (serial : CountSerialize)
    (rest : List UInt8) :
    Released s (afterHeader io s serial rest) ↔ io.Loads s.slots.length serial rest := by
  unfold afterHeader UnserializeIO.Loads
  by_cases hmagic : serial.magic = countMagic
  · rw [if_neg (not_not.mpr hmagic), and_iff_right hmagic]
    by_cases hversion : serial.version = countVersion
    · rw [if_neg (not_not.mpr hversion)]
      by_cases hnr : s.slots.length < serial.nrSlots.toNat
      · rw [if_pos hnr, if_pos (.inr hnr)]
        exact released_countSerialize_iff io.serialize s
      · rw [if_neg hnr, if_neg fun h => h.elim (absurd hversion) hnr]
        cases readFile io.readDataFails (readSlots serial.nrSlots.toNat) rest with
        | none => exact iff_of_false (not_released_fileError (s.readShort io rest) s.tmp) (by simp)
        | some loaded => exact iff_of_true (fun _ => ⟨rfl, rfl⟩) rfl
    · rw [if_pos hversion, if_pos (.inl hversion)]
      exact released_countSerialize_iff io.serialize s
  · rw [if_pos hmagic]
    exact iff_of_false (not_released_fileError s s.tmp) fun h => hmagic h.1

theorem released_countUnserialize_iff (io : UnserializeIO) (s : Server) :
    Released s (countUnserialize io s) ↔
      (s.attached = true → io.openFails = false ∧
        ∀ bytes, s.stat = some bytes → ∀ serial rest,
          readFile io.readHeaderFails readHeader bytes = some (serial, rest) →
          io.Loads s.slots.length serial rest) := by
  rw [countUnserialize_eq]
  by_cases hattached : s.attached = true
  · rw [if_pos hattached, forall_prop_of_true hattached]
    by_cases hopen : io.openFails = true
    · rw [if_pos hopen]
      refine iff_of_false (not_released_fileError s s.tmp) fun h => ?_
      rw [hopen] at h
      cases h.1
    · rw [if_neg hopen, and_iff_right (Bool.eq_false_iff.mpr hopen)]
      cases hstat : s.stat with
      | none =>
        refine iff_of_true (fun _ => ⟨rfl, rfl⟩) fun bytes h => ?_
        cases h
      | some bytes =>
        simp only [Option.some.injEq, forall_eq']
        cases readFile io.readHeaderFails readHeader bytes with
        | none =>
          refine iff_of_true (fun h => absurd rfl h) fun serial rest h => ?_
          cases h
        | some found =>
          rw [released_afterHeader_iff]
          constructor
          · intro h serial rest hfound
            cases hfound
            exact h
          · exact fun h => h found.1 found.2 rfl
  · rw [if_neg hattached]
    exact iff_of_true (fun _ => ⟨rfl, rfl⟩) fun h => absurd h hattached

/-- An exit of `pgactive_count_serialize` or `pgactive_count_unserialize` other than a panic leaves
the locks as they were exactly if no operation fails, apart from those that are expected: a missing
file, a call without the shared memory, and a header that cannot be read, which is a panic. -/
theorem locks_balanced_iff (io : SerializeIO) (io' : UnserializeIO) (s : Server) :
    (((countSerialize io s).1 ≠ .error .panic → Balanced s (countSerialize io s).2) ↔
      io.Succeeds) ∧
    (((countUnserialize io' s).1 ≠ .error .panic → Balanced s (countUnserialize io' s).2) ↔
      (s.attached = true → io'.openFails = false ∧
        ∀ bytes, s.stat = some bytes → ∀ serial rest,
          readFile io'.readHeaderFails readHeader bytes = some (serial, rest) →
          io'.Loads s.slots.length serial rest)) :=
  ⟨released_countSerialize_iff io s, released_countUnserialize_iff io' s⟩

/-- If the temporary file cannot be opened, the lock of the statistics is still held, and the one
of the workers was to be released without being held. -/
theorem countSerialize_open_fails :
    countSerialize ⟨false, true, false, false, false⟩ ⟨[], [], true, [.zero], none, none⟩ =
      (.error .error, ⟨[.count], [.worker], true, [.zero], none, none⟩) := by
  rfl

end Pgactive.Statistics
