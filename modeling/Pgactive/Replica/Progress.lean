import Pgactive.Replica.Status

/-!
# The progress of a join

The worker sets a status only after the phase that it ends, and a restarted worker goes on from it.
But the changes of the target's row come back to the node. When one of them wins, or the node is
detached, the status is no longer the one that was set, and `pgactive_nodes_set_local_attrs` then
changes nothing and does not say so.
-/

namespace Pgactive.Replica.Status

open Pgactive.Membership Transition

variable {ν : Type}

/-- A committed status comes after all phases before it. -/
def Node.Completed (s : Node ν) (g : Setup ν) : Prop :=
  g.initFromDsn = true →
    (s.row.status = .catchup ∨ s.row.status = .creatingOutboundSlots ∨ s.row.status = .ready →
      s.copied = true) ∧
    (s.row.status = .creatingOutboundSlots ∨ s.row.status = .ready → s.caughtUp = true) ∧
    (s.row.status = .ready → s.connected = true)

def Setup.Advances (g : Setup ν) (old new : NodeStatus) : Prop :=
  new = old ∨
    match old, new with
    | .beginningInit, .copyingInitialData => g.initFromDsn = true
    | .copyingInitialData, .catchup => g.initFromDsn = true
    | .catchup, .creatingOutboundSlots => g.initFromDsn = true
    | .creatingOutboundSlots, .ready => g.initFromDsn = true
    | .beginningInit, .ready => g.initFromDsn = false
    | _, _ => False

/-- The node is not detached on itself, and of the changes that are replayed only those win that
make the node ready or leave its status as it is. -/
def Undisputed (s : Node ν) : Action ν → Prop
  | .replay p wins => wins = true →
      ∀ row ∈ s.next p, row.status = .ready ∨ row.status = s.row.status
  | .detachSelf => False
  | _ => True

/-- What the row says while the worker is at a point of its program. -/
def Node.AtPc (s : Node ν) (g : Setup ν) : Prop :=
  match s.pc with
  | .down => True
  | .standalone => g.initFromDsn = false ∧ s.row.status = .beginningInit
  | .beginning => g.initFromDsn = true ∧ s.row.status = .beginningInit
  | .flagging | .copying | .syncing | .committing =>
    g.initFromDsn = true ∧ s.row.status = .copyingInitialData
  | .synced => g.initFromDsn = true ∧ s.row.status = .copyingInitialData ∧ s.copied = true
  | .preparing | .catchingUp => g.initFromDsn = true ∧ s.row.status = .catchup
  | .caught => g.initFromDsn = true ∧ s.row.status = .catchup ∧ s.caughtUp = true
  | .outbound | .connecting =>
    g.initFromDsn = true ∧ (s.row.status = .creatingOutboundSlots ∨ s.row.status = .ready)
  | .announcing | .waiting =>
    g.initFromDsn = true ∧ (s.row.status = .creatingOutboundSlots ∨ s.row.status = .ready) ∧
      s.connected = true
  | .clearing | .main => s.row.status = .ready

/-- What holds in every state of an undisputed join. -/
structure Inv (g : Setup ν) (s : Node ν) : Prop where
  atPc : s.AtPc g
  completed : s.Completed g
  /-- The row is made ready by others only once all slots exist. -/
  announced : ∀ p, ∀ row ∈ s.log p, row.status = .ready → g.initFromDsn = true ∧
    s.connected = true ∧ (s.row.status = .creatingOutboundSlots ∨ s.row.status = .ready)
  /-- The first node of a group has no other statuses. -/
  alone : g.initFromDsn = false →
    s.row.status = .beginningInit ∨ s.row.status = .ready
  alive : s.row.status ≠ .killed

section Rows

variable {g : Setup ν} {s t : Node ν}

theorem atPc_enter {pc : Pc} (halive : s.row.status ≠ .killed)
    (hpc : g.entry s.row.status = some pc) : (s.enter pc).AtPc g := by
  cases hstatus : s.row.status <;> cases hdsn : g.initFromDsn <;>
    simp only [Setup.entry, hstatus, hdsn, reduceCtorEq, Bool.false_eq_true, if_true, if_false,
      Option.some.injEq] at hpc
  case killed.false | killed.true => exact absurd hstatus halive
  all_goals
    subst hpc
    simp [Node.AtPc, Node.enter, hstatus, hdsn]

theorem Setup.Advances.inv (h : g.Advances s.row.status t.row.status) (hi : Inv g s)
    (hlog : ∀ p, ∀ row ∈ t.log p, row.status = .ready → row ∈ s.log p ∨ g.initFromDsn = true ∧
      t.connected = true ∧ (s.row.status = .creatingOutboundSlots ∨ s.row.status = .ready))
    (hconnected : s.connected = true → t.connected = true)
    (hat : t.AtPc g) (hcompleted : t.Completed g) : Inv g t where
  atPc := hat
  completed := hcompleted
  announced p row hmem hready := by
    obtain ⟨hdsn, hconn, hstatus⟩ : g.initFromDsn = true ∧ t.connected = true ∧
        (s.row.status = .creatingOutboundSlots ∨ s.row.status = .ready) := by
      rcases hlog p row hmem hready with hold | hnew
      · obtain ⟨hdsn, hconn, hstatus⟩ := hi.announced p row hold hready
        exact ⟨hdsn, hconnected hconn, hstatus⟩
      · exact hnew
    refine ⟨hdsn, hconn, ?_⟩
    unfold Advances at h
    grind
  alone hdsn := by
    have halone := hi.alone hdsn
    unfold Advances at h
    grind
  alive := by
    have halive := hi.alive
    unfold Advances at h
    grind

theorem Inv.stay (hi : Inv g s) (hstatus : t.row.status = s.row.status)
    (hlog : ∀ p, ∀ row ∈ t.log p, row.status = .ready → row ∈ s.log p ∨ g.initFromDsn = true ∧
      t.connected = true ∧ (s.row.status = .creatingOutboundSlots ∨ s.row.status = .ready))
    (hcopied : s.copied = true → t.copied = true)
    (hcaughtUp : s.caughtUp = true → t.caughtUp = true)
    (hconnected : s.connected = true → t.connected = true) (hat : t.AtPc g) :
    Inv g t ∧ g.Advances s.row.status t.row.status := by
  have hadv : g.Advances s.row.status t.row.status := .inl hstatus
  refine ⟨hadv.inv hi hlog hconnected hat fun hdsn => ?_, hadv⟩
  obtain ⟨h₁, h₂, h₃⟩ := hi.completed hdsn
  rw [hstatus]
  exact ⟨hcopied ∘ h₁, hcaughtUp ∘ h₂, hconnected ∘ h₃⟩

end Rows

section Steps

variable [DecidableEq ν] {g : Setup ν} {s t : Node ν}

theorem Initial.inv (h : Initial g s) : Inv g s := by
  obtain rfl | ⟨hdsn, rfl⟩ := h
  · exact
      { atPc := trivial
        completed := fun _ => by simp [Node.fresh]
        announced := fun _ _ hmem => by simp [Node.fresh] at hmem
        alone := fun _ => .inl rfl
        alive := by simp [Node.fresh] }
  · refine
      { atPc := trivial
        completed := fun _ => by simp [Node.physical]
        announced := fun p row hmem hready => ?_
        alone := by simp [hdsn]
        alive := by simp [Node.physical] }
    rcases mem_update_log hmem with hold | rfl
    · simp [Node.fresh] at hold
    · cases hready

theorem Inv.advance_sets (hi : Inv g s) (h : advance g s = some t) {status old : NodeStatus}
    (hsets : s.pc.sets = some (status, old)) : s.row.status = old ∧ t.row.status = status := by
  have hat := hi.atPc
  cases hpc : s.pc <;> simp only [hpc, Pc.sets, Option.some.injEq, Prod.mk.injEq, reduceCtorEq]
    at hsets
  all_goals
    obtain ⟨rfl, rfl⟩ := hsets
    simp only [Node.AtPc, hpc] at hat
    simp only [advance, hpc, Option.some.injEq] at h
    subst h
    simp [Node.setLocalAttrs, Node.enter, hat]

theorem inv_advance (hi : Inv g s) (h : advance g s = some t) :
    Inv g t ∧ g.Advances s.row.status t.row.status := by
  have hat := hi.atPc
  have hsame : ∀ p, ∀ row ∈ s.log p, row.status = .ready → row ∈ s.log p ∨
      g.initFromDsn = true ∧ t.connected = true ∧
        (s.row.status = .creatingOutboundSlots ∨ s.row.status = .ready) :=
    fun _ _ hmem _ => .inl hmem
  unfold advance at h
  cases hpc : s.pc with simp only [hpc, Node.AtPc, reduceCtorEq, Option.some.injEq] at h hat
  | flagging | copying | preparing | outbound | clearing =>
    subst h
    exact hi.stay rfl hsame id id id
      (by simpa [Node.AtPc, Node.setReadOnly, Node.enter] using hat)
  | committing =>
    subst h
    exact hi.stay rfl hsame (fun _ => rfl) id id (by simpa [Node.AtPc] using hat)
  | catchingUp =>
    split at h
    · split_ifs at h
      cases h
      exact hi.stay rfl hsame id (fun _ => rfl) id (by simpa [Node.AtPc] using hat)
    · cases h
  | connecting =>
    split_ifs at h
    cases h
    exact hi.stay rfl hsame id id (fun _ => rfl) (by simpa [Node.AtPc] using hat)
  | waiting =>
    split_ifs at h with hready
    cases h
    exact hi.stay rfl hsame id id id (by simpa [Node.AtPc] using hready)
  | syncing =>
    split at h
    · cases h
    · cases h
      refine hi.stay rfl (fun p row hmem hready => (mem_update_log hmem).imp_right ?_) id id id
        (by simpa [Node.AtPc, Node.commitRemote] using hat)
      rintro rfl
      simp [hat] at hready
  | announcing =>
    split at h
    · cases h
      refine hi.stay rfl (fun p row hmem _ => (mem_update_log hmem).imp_right ?_) id id id
        (by simpa [Node.AtPc, Node.commitRemote] using hat)
      exact fun _ => ⟨hat.1, hat.2.2, hat.2.1⟩
    · cases h
  | _ =>
    obtain ⟨-, hstatus⟩ := hi.advance_sets (by simpa [advance, hpc] using h) (by rw [hpc]; rfl)
    have hadv : g.Advances s.row.status t.row.status := by
      simp [Setup.Advances, hstatus, hat]
    subst h
    refine ⟨hadv.inv hi ?_ ?_ ?_ ?_, hadv⟩
    · simpa [Node.setLocalAttrs, Node.enter, hat] using hsame
    · simp [Node.setLocalAttrs, Node.enter, hat]
    · simp [Node.setLocalAttrs, Node.enter, Node.AtPc, hat]
    · have hcompleted := hi.completed
      simp_all [Node.setLocalAttrs, Node.enter, Node.Completed]

theorem inv_replay (hi : Inv g s) {p : ν} {wins : Bool} (hok : Undisputed s (.replay p wins))
    (h : step g s (.replay p wins) = some t) :
    Inv g t ∧ g.Advances s.row.status t.row.status := by
  obtain ⟨row, hrow, rfl⟩ := Option.map_eq_some_iff.mp h
  have hat := hi.atPc
  by_cases hsame : (if wins then row else s.row).status = s.row.status
  · refine hi.stay hsame (fun _ _ hmem _ => .inl hmem) id id id ?_
    simpa only [Node.AtPc, hsame] using hat
  · have hwins : wins = true := by
      by_contra hlost
      simp [hlost] at hsame
    simp only [hwins, if_true] at hsame ⊢
    have hready : row.status = .ready := (hok hwins row hrow).resolve_right hsame
    obtain ⟨hdsn, hconn, hstatus⟩ := hi.announced p row (mem_log_of_next hrow) hready
    have hfrom : s.row.status = .creatingOutboundSlots :=
      hstatus.resolve_right fun hr => hsame (hready.trans hr.symm)
    have hadv : g.Advances s.row.status row.status := by
      simp [Setup.Advances, hfrom, hready, hdsn]
    refine ⟨hadv.inv hi (fun _ _ hmem _ => .inl hmem) id ?_ ?_, hadv⟩
    · cases hpc : s.pc <;> simp_all [Node.AtPc]
    · have hcompleted := hi.completed
      simp_all [Node.Completed]

theorem inv_step (hi : Inv g s) {a : Action ν} (hok : Undisputed s a)
    (h : step g s a = some t) : Inv g t ∧ g.Advances s.row.status t.row.status := by
  cases a with
  | start =>
    simp only [step] at h
    split_ifs at h
    obtain ⟨pc, hpc, rfl⟩ := Option.map_eq_some_iff.mp h
    exact hi.stay rfl (fun _ _ hmem _ => .inl hmem) id id id (atPc_enter hi.alive hpc)
  | advance => exact inv_advance hi h
  | crash | shutdown =>
    cases h
    exact hi.stay rfl (fun _ _ hmem _ => .inl hmem) id id id trivial
  | replay p wins => exact inv_replay hi hok h
  | detach p readOnly =>
    have hat := hi.atPc
    simp only [step] at h
    split_ifs at h
    all_goals
      cases h
      refine hi.stay rfl (fun p row hmem hready => (mem_update_log hmem).imp_right ?_) id id id hat
      rintro rfl
      cases hready
  | detachSelf => exact hok.elim

theorem inv_of_reach (hs : Reach (Initial g) (step g) Undisputed s) : Inv g s :=
  hs.invariant (fun _ => Initial.inv) fun _ _ _ _ hi hok h => (inv_step hi hok h).1

end Steps

instance [DecidableEq ν] (s : Node ν) : DecidablePred (Undisputed s) := by
  intro a
  rcases a <;> unfold Undisputed <;> infer_instance

end Pgactive.Replica.Status
