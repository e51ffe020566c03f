import Pgactive.Catalog.Nodes

/-!
# The sequence identifier of a joining node

`pgactive_nodes_set_remote_status_ready` gives a node the lowest free `node_seq_id` on its target.
The node's own row counts as a use as well, so that a join that is ended twice changes the
identifier.
-/

namespace Pgactive.Catalog

open Pgactive.Membership (NodeStatus maxSeqId)

variable {τ : Type}

def liveRows (rows : List (NodeEntry τ)) : List (NodeEntry τ) :=
  rows.filter fun r => r.status ≠ .killed

def maxId (rows : List (NodeEntry τ)) : Option ℕ := (rows.filterMap NodeEntry.seqId).max?

def hasId (rows : List (NodeEntry τ)) (x : ℕ) : Bool := rows.any fun r => r.seqId = some x

def seriesTo : Option ℕ → List ℕ
  | none => []
  | some n => List.range' 1 n

/-- The first argument of the `coalesce`: the least number of the series that the right
anti-join leaves. -/
def lowestFreeId (rows : List (NodeEntry τ)) : Option ℕ :=
  (seriesTo (maxId rows)).find? fun x => !hasId (liveRows rows) x

def nextGreatestId (rows : List (NodeEntry τ)) : ℕ := (maxId (liveRows rows)).getD 0 + 1

def chosenId (rows : List (NodeEntry τ)) : ℕ := (lowestFreeId rows).getD (nextGreatestId rows)

/-- The errors of `pgactive_nodes_set_remote_status_ready`. -/
inductive ReadyError
  | ddlLock
  | smallintOutOfRange
  | affectedRows
  deriving DecidableEq

def NodeEntry.ready (r : NodeEntry τ) (seqId : ℕ) : NodeEntry τ :=
  { r with status := .ready, seqId := some seqId }

def NodesTable.update (tbl : NodesTable τ) (p : NodeEntry τ → Bool) (f : NodeEntry τ → NodeEntry τ)
    (hid : ∀ r, (f r).id = r.id) (hname : ∀ r, (f r).name = r.name) : NodesTable τ where
  rows := updateRows p f tbl.rows
  pkey := by
    rw [map_updateRows hid]
    exact tbl.pkey
  nodeName := by
    rw [map_updateRows hname]
    exact tbl.nodeName

section Ready

variable [DecidableEq τ]

def setRemoteStatusReady (lockGranted : Bool) (tbl : NodesTable τ) (myid : τ × ℕ × ℕ) :
    Except ReadyError (NodesTable τ) :=
  if lockGranted then
    if tbl.rows.any fun r => r.id = myid then
      if chosenId tbl.rows ≤ maxSeqId then
        .ok (tbl.update (fun r => r.id = myid) (fun r => r.ready (chosenId tbl.rows))
          (fun _ => rfl) fun _ => rfl)
      else .error .smallintOutOfRange
    else .error .affectedRows
  else .error .ddlLock

end Ready

def UsedBy (rows : List (NodeEntry τ)) (x : ℕ) : Prop :=
  ∃ r ∈ rows, r.status ≠ .killed ∧ r.seqId = some x

def freeIds (rows : List (NodeEntry τ)) : Set ℕ := {x | 0 < x ∧ ¬UsedBy rows x}

section Claim

variable [DecidableEq τ]

def othersOf (tbl : NodesTable τ) (myid : τ × ℕ × ℕ) : List (NodeEntry τ) :=
  tbl.rows.filter fun r => r.id ≠ myid

/-- The node is given the least identifier that no other node uses. -/
def AssignsLeastFree (tbl : NodesTable τ) (myid : τ × ℕ × ℕ) : Prop :=
  ∀ lockGranted tbl', setRemoteStatusReady lockGranted tbl myid = .ok tbl' →
    ∀ r ∈ tbl'.rows, r.id = myid → ∃ x, r.seqId = some x ∧ IsLeast (freeIds (othersOf tbl myid)) x

/-- Ending the join once more changes nothing. -/
def Repeatable (tbl : NodesTable τ) (myid : τ × ℕ × ℕ) : Prop :=
  ∀ granted granted' tbl' tbl'', setRemoteStatusReady granted tbl myid = .ok tbl' →
    setRemoteStatusReady granted' tbl' myid = .ok tbl'' → tbl''.rows = tbl'.rows

end Claim

section Choice

variable {rows : List (NodeEntry τ)} {x : ℕ}

theorem hasId_liveRows : hasId (liveRows rows) x = true ↔ UsedBy rows x := by
  simp [hasId, liveRows, UsedBy]

theorem le_of_maxId {r : NodeEntry τ} (hr : r ∈ rows) (hx : r.seqId = some x) :
    ∃ m, maxId rows = some m ∧ x ≤ m := by
  have hmem : x ∈ rows.filterMap NodeEntry.seqId := List.mem_filterMap.mpr ⟨r, hr, hx⟩
  cases hmax : maxId rows with
  | none =>
    rw [maxId, List.max?_eq_none_iff] at hmax
    simp [hmax] at hmem
  | some m => exact ⟨m, rfl, (List.max?_eq_some_iff.mp hmax).2 x hmem⟩

theorem exists_of_maxId {m : ℕ} (h : maxId rows = some m) : ∃ r ∈ rows, r.seqId = some m :=
  List.mem_filterMap.mp (List.max?_eq_some_iff.mp h).1

theorem isLeast_of_lowestFreeId (h : lowestFreeId rows = some x) : IsLeast (freeIds rows) x := by
  unfold lowestFreeId at h
  cases hmax : maxId rows with
  | none => simp [hmax, seriesTo] at h
  | some m =>
    rw [hmax, seriesTo, List.find?_range'_eq_some] at h
    obtain ⟨hfree, hmem, hbelow⟩ := h
    have hpos : 0 < x := by
      have := (List.mem_range'_1.mp hmem).1
      omega
    refine ⟨⟨hpos, fun hused => ?_⟩, fun y hy => ?_⟩
    · simp [hasId_liveRows.mpr hused] at hfree
    · by_contra hlt
      have hused := hbelow y hy.1 (by omega)
      rw [Bool.not_not] at hused
      exact hy.2 (hasId_liveRows.mp hused)

theorem isLeast_nextGreatestId (h : lowestFreeId rows = none) :
    IsLeast (freeIds rows) (nextGreatestId rows) := by
  refine ⟨⟨Nat.succ_pos _, ?_⟩, ?_⟩
  · rintro ⟨r, hr, hlive, hid⟩
    have hmem : r ∈ liveRows rows := List.mem_filter.mpr ⟨hr, by simpa using hlive⟩
    obtain ⟨m, hm, hle⟩ := le_of_maxId hmem hid
    simp only [nextGreatestId, hm, Option.getD_some] at hle
    omega
  · intro y hy
    by_contra hlt
    have hbelow : y < nextGreatestId rows := by omega
    cases hmax : maxId (liveRows rows) with
    | none =>
      have hpos := hy.1
      simp only [nextGreatestId, hmax, Option.getD_none] at hbelow
      omega
    | some m =>
      -- The greatest identifier of a live row bounds the series from below.
      obtain ⟨r, hr, hid⟩ := exists_of_maxId hmax
      obtain ⟨n, hn, hle⟩ := le_of_maxId (List.mem_filter.mp hr).1 hid
      have hpos := hy.1
      have hy' : y ≤ m := by
        simp only [nextGreatestId, hmax, Option.getD_some] at hbelow
        omega
      have hmem : y ∈ seriesTo (maxId rows) := by
        rw [hn, seriesTo, List.mem_range'_1]
        omega
      have hused := List.find?_eq_none.mp h y hmem
      simp only [Bool.not_eq_true', Bool.not_eq_false] at hused
      exact hy.2 (hasId_liveRows.mp hused)

theorem chosenId_isLeast (rows : List (NodeEntry τ)) :
    IsLeast (freeIds rows) (chosenId rows) := by
  cases h : lowestFreeId rows with
  | some x =>
    rw [chosenId, h]
    exact isLeast_of_lowestFreeId h
  | none =>
    rw [chosenId, h]
    exact isLeast_nextGreatestId h

theorem not_chosenId_le_iff (rows : List (NodeEntry τ)) :
    ¬chosenId rows ≤ maxSeqId ↔ ∀ x, 0 < x → x ≤ maxSeqId → UsedBy rows x := by
  obtain ⟨⟨hpos, hfree⟩, hleast⟩ := chosenId_isLeast rows
  constructor
  · intro hgreat x hx hle
    by_contra hunused
    exact hgreat ((hleast ⟨hx, hunused⟩).trans hle)
  · intro hall hle
    exact hfree (hall _ hpos hle)

end Choice

section Finalisation

variable [DecidableEq τ] {tbl tbl' : NodesTable τ} {myid : τ × ℕ × ℕ} {own : NodeEntry τ}

variable {granted : Bool}

theorem setRemoteStatusReady_eq_ok (h : setRemoteStatusReady granted tbl myid = .ok tbl') :
    (∃ own ∈ tbl.rows, own.id = myid) ∧ chosenId tbl.rows ≤ maxSeqId ∧
      tbl'.rows = updateRows (fun r => r.id = myid) (fun r => r.ready (chosenId tbl.rows))
        tbl.rows := by
  unfold setRemoteStatusReady at h
  split_ifs at h with hgranted hrow hid
  cases h
  obtain ⟨own, hown, hkey⟩ := List.any_eq_true.mp hrow
  exact ⟨⟨own, hown, by simpa using hkey⟩, hid, rfl⟩

theorem exists_setRemoteStatusReady (hown : own ∈ tbl.rows) (hkey : own.id = myid)
    (hid : chosenId tbl.rows ≤ maxSeqId) :
    ∃ tbl', setRemoteStatusReady true tbl myid = .ok tbl' := by
  have hrow : (tbl.rows.any fun r => r.id = myid) = true :=
    List.any_eq_true.mpr ⟨own, hown, by simpa using hkey⟩
  unfold setRemoteStatusReady
  rw [if_pos rfl, if_pos hrow, if_pos hid]
  exact ⟨_, rfl⟩

theorem mem_othersOf {r : NodeEntry τ} : r ∈ othersOf tbl myid ↔ r ∈ tbl.rows ∧ r.id ≠ myid := by
  simp [othersOf]

theorem usedBy_iff (hown : own ∈ tbl.rows) (hkey : own.id = myid) {x : ℕ} :
    UsedBy tbl.rows x ↔
      UsedBy (othersOf tbl myid) x ∨ own.status ≠ .killed ∧ own.seqId = some x := by
  constructor
  · rintro ⟨r, hr, hlive, hid⟩
    by_cases hrkey : r.id = myid
    · obtain rfl := List.inj_on_of_nodup_map tbl.pkey hr hown (hrkey.trans hkey.symm)
      exact Or.inr ⟨hlive, hid⟩
    · exact Or.inl ⟨r, mem_othersOf.mpr ⟨hr, hrkey⟩, hlive, hid⟩
  · rintro (⟨r, hr, hlive, hid⟩ | ⟨hlive, hid⟩)
    · exact ⟨r, (mem_othersOf.mp hr).1, hlive, hid⟩
    · exact ⟨own, hown, hlive, hid⟩

theorem after_setRemoteStatusReady (h : setRemoteStatusReady granted tbl myid = .ok tbl')
    (hown : own ∈ tbl.rows) (hkey : own.id = myid) :
    own.ready (chosenId tbl.rows) ∈ tbl'.rows ∧ othersOf tbl' myid = othersOf tbl myid := by
  obtain ⟨-, -, hrows⟩ := setRemoteStatusReady_eq_ok h
  constructor
  · rw [hrows, mem_updateRows]
    exact Or.inr ⟨own, hown, by simpa using hkey, rfl⟩
  · rw [othersOf, othersOf, hrows]
    apply filter_updateRows
    intro r hr
    have hr' : r.id = myid := by simpa using hr
    have hready : (r.ready (chosenId tbl.rows)).id = myid := hr'
    simp [hr', hready]

theorem assignsLeastFree_iff : AssignsLeastFree tbl myid ↔
    ∀ own ∈ tbl.rows, own.id = myid → ∀ m, own.status ≠ .killed → own.seqId = some m →
      IsLeast (freeIds (othersOf tbl myid)) m → ∀ x, 0 < x → x ≤ maxSeqId → UsedBy tbl.rows x := by
  obtain ⟨⟨hpos, hfree⟩, hleast⟩ := chosenId_isLeast tbl.rows
  constructor
  · intro hassigns own hown hkey m hlive hid hm
    rw [← not_chosenId_le_iff]
    intro hle
    obtain ⟨tbl', hcall⟩ := exists_setRemoteStatusReady hown hkey hle
    obtain ⟨hready, -⟩ := after_setRemoteStatusReady hcall hown hkey
    obtain ⟨x, hx, hxleast⟩ := hassigns true tbl' hcall _ hready hkey
    obtain rfl : chosenId tbl.rows = x := by simpa [NodeEntry.ready] using hx
    have hsame : chosenId tbl.rows = m := hxleast.unique hm
    exact hfree ⟨own, hown, hlive, by rw [hid, hsame]⟩
  · intro hcond granted tbl' hcall r hr hrkey
    obtain ⟨⟨own, hown, hkey⟩, hle, -⟩ := setRemoteStatusReady_eq_ok hcall
    obtain ⟨hready, -⟩ := after_setRemoteStatusReady hcall hown hkey
    have hsame : r = own.ready (chosenId tbl.rows) :=
      List.inj_on_of_nodup_map tbl'.pkey hr hready (hrkey.trans hkey.symm)
    refine ⟨chosenId tbl.rows, by rw [hsame]; rfl, ⟨hpos, fun hused => ?_⟩, fun y hy => ?_⟩
    · exact hfree ((usedBy_iff hown hkey).mpr (.inl hused))
    · by_contra hlt
      have hused : UsedBy tbl.rows y := by
        by_contra hunused
        exact hlt (hleast ⟨hy.1, hunused⟩)
      obtain ⟨hlive, hid⟩ := ((usedBy_iff hown hkey).mp hused).resolve_left hy.2
      -- The own identifier is the least one that the others leave, so it is skipped.
      have hy' : IsLeast (freeIds (othersOf tbl myid)) y := by
        refine ⟨hy, fun z hz => ?_⟩
        by_contra hzy
        have hzused : UsedBy tbl.rows z := by
          by_contra hunused
          have hge := hleast ⟨hz.1, hunused⟩
          omega
        obtain ⟨-, hzid⟩ := ((usedBy_iff hown hkey).mp hzused).resolve_left hz.2
        rw [hid, Option.some.injEq] at hzid
        omega
      exact hfree (hcond own hown hkey y hlive hid hy' _ hpos hle)

theorem usedBy_after (h : setRemoteStatusReady granted tbl myid = .ok tbl')
    (hown : own ∈ tbl.rows) (hkey : own.id = myid) {x : ℕ} :
    UsedBy tbl'.rows x ↔ UsedBy (othersOf tbl myid) x ∨ x = chosenId tbl.rows := by
  obtain ⟨hready, hothers⟩ := after_setRemoteStatusReady h hown hkey
  rw [usedBy_iff hready hkey, hothers]
  have hlive : (own.ready (chosenId tbl.rows)).status ≠ .killed := by simp [NodeEntry.ready]
  simp [NodeEntry.ready, eq_comm]

theorem repeatable_iff : Repeatable tbl myid ↔
    ∀ own ∈ tbl.rows, own.id = myid → ∀ x y, 0 < x → x ≤ maxSeqId → 0 < y → y ≤ maxSeqId →
      ¬UsedBy (othersOf tbl myid) x → ¬UsedBy (othersOf tbl myid) y → x = y := by
  constructor
  · intro hrepeat own hown hkey x y hx hxle hy hyle hxfree hyfree
    by_contra hne
    have hle : chosenId tbl.rows ≤ maxSeqId := by
      by_contra hgreat
      have hall := (not_chosenId_le_iff tbl.rows).mp hgreat
      obtain ⟨-, hxid⟩ := ((usedBy_iff hown hkey).mp (hall x hx hxle)).resolve_left hxfree
      obtain ⟨-, hyid⟩ := ((usedBy_iff hown hkey).mp (hall y hy hyle)).resolve_left hyfree
      exact hne (Option.some.inj (hxid.symm.trans hyid))
    obtain ⟨tbl', hcall⟩ := exists_setRemoteStatusReady hown hkey hle
    obtain ⟨hready, -⟩ := after_setRemoteStatusReady hcall hown hkey
    have hle' : chosenId tbl'.rows ≤ maxSeqId := by
      by_contra hgreat
      have hall := (not_chosenId_le_iff tbl'.rows).mp hgreat
      have hxid := ((usedBy_after hcall hown hkey).mp (hall x hx hxle)).resolve_left hxfree
      have hyid := ((usedBy_after hcall hown hkey).mp (hall y hy hyle)).resolve_left hyfree
      exact hne (hxid.trans hyid.symm)
    obtain ⟨tbl'', hcall'⟩ := exists_setRemoteStatusReady hready hkey hle'
    obtain ⟨hready', -⟩ := after_setRemoteStatusReady hcall' hready hkey
    rw [hrepeat true true tbl' tbl'' hcall hcall'] at hready'
    have hsame := List.inj_on_of_nodup_map tbl'.pkey hready' hready rfl
    have hid : chosenId tbl'.rows = chosenId tbl.rows := by
      simpa [NodeEntry.ready] using congrArg NodeEntry.seqId hsame
    apply (chosenId_isLeast tbl'.rows).1.2
    rw [usedBy_after hcall hown hkey]
    exact Or.inr hid
  · intro hcond granted granted' tbl' tbl'' hcall hcall'
    obtain ⟨⟨own, hown, hkey⟩, hle, -⟩ := setRemoteStatusReady_eq_ok hcall
    obtain ⟨-, hle', -⟩ := setRemoteStatusReady_eq_ok hcall'
    obtain ⟨hpos, hfree⟩ := (chosenId_isLeast tbl.rows).1
    obtain ⟨hpos', hfree'⟩ := (chosenId_isLeast tbl'.rows).1
    rw [usedBy_after hcall hown hkey, not_or] at hfree'
    have hothers : ¬UsedBy (othersOf tbl myid) (chosenId tbl.rows) := fun hused =>
      hfree ((usedBy_iff hown hkey).mpr (.inl hused))
    exact absurd (hcond own hown hkey _ _ hpos' hle' hpos hle hfree'.1 hothers) hfree'.2

/-- **The end of a join.** The node is given the least identifier that no other node uses
unless its own row has just this identifier already and some identifier is free. Ending the
join once more leaves the same row only if the others have left no second identifier. -/
theorem joinFinalisation_iff (tbl : NodesTable τ) (myid : τ × ℕ × ℕ) :
    (AssignsLeastFree tbl myid ↔
      ∀ own ∈ tbl.rows, own.id = myid → ∀ m, own.status ≠ .killed → own.seqId = some m →
        IsLeast (freeIds (othersOf tbl myid)) m →
          ∀ x, 0 < x → x ≤ maxSeqId → UsedBy tbl.rows x) ∧
    (Repeatable tbl myid ↔
      ∀ own ∈ tbl.rows, own.id = myid → ∀ x y, 0 < x → x ≤ maxSeqId → 0 < y → y ≤ maxSeqId →
        ¬UsedBy (othersOf tbl myid) x → ¬UsedBy (othersOf tbl myid) y → x = y) :=
  ⟨assignsLeastFree_iff, repeatable_iff⟩

end Finalisation

def joiningNode : NodesTable ℕ where
  rows := [{ sampleNode 11 1 5 .ready 1 with seqId := some 1 },
    sampleNode 12 1 5 .creatingOutboundSlots 2]
  pkey := by decide
  nodeName := by decide

/-- The joining node is given the identifier 2, and then, with no other change, the
identifier 3. -/
theorem setRemoteStatusReady_twice :
    ∃ tbl' tbl'', setRemoteStatusReady true joiningNode (12, 1, 5) = .ok tbl' ∧
      setRemoteStatusReady true tbl' (12, 1, 5) = .ok tbl'' ∧
      tbl'.rows.map NodeEntry.seqId = [some 1, some 2] ∧
      tbl''.rows.map NodeEntry.seqId = [some 1, some 3] := by
  refine ⟨_, _, rfl, rfl, ?_, ?_⟩ <;> decide

end Pgactive.Catalog
