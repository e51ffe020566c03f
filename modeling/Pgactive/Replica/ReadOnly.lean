import Pgactive.Replica.Status

/-!
# The read-only flag of a joining node

The node is made read-only when it begins to copy, and writable at its very end, in a transaction of
its own after the one that makes it ready. A worker that starts with a ready row does not look at
the flag, so a worker that is lost between the two leaves it set.
-/

namespace Pgactive.Replica.Status

open Pgactive.Membership Transition

variable {ν : Type}

/-- The worker is in the part of `pgactive_init_replica` that ends with clearing the flag. -/
def Pc.initializing : Pc → Bool
  | .down | .standalone | .main => false
  | _ => true

/-- The worker has not yet made the node read-only. -/
def Pc.early : Pc → Bool
  | .down | .standalone | .beginning => true
  | _ => false

/-- No worker is stopped while the node is ready and read-only, and the row only becomes so when
the worker is there to clear the flag. -/
def Attended (s : Node ν) : Action ν → Prop
  | .crash | .shutdown => s.row ≠ ⟨.ready, true⟩
  | .replay p wins => wins = true → s.next p = some ⟨.ready, true⟩ → s.pc.initializing = true
  | _ => True

/-- What holds in every state of an attended join. -/
structure FlagInv (s : Node ν) : Prop where
  attended : s.row = ⟨.ready, true⟩ → s.pc.initializing = true
  unset : s.row.status = .beginningInit → s.row.readOnly = false ∧ s.pc.early = true
  copied : ∀ p, ∀ row ∈ s.log p, row.status ≠ .beginningInit

section Steps

variable [DecidableEq ν] {g : Setup ν} {s t : Node ν}

theorem Initial.flagInv (h : Initial g s) : FlagInv s := by
  obtain rfl | ⟨-, rfl⟩ := h
  · exact ⟨nofun, fun _ => ⟨rfl, rfl⟩, fun _ _ hmem => by simp [Node.fresh] at hmem⟩
  · refine ⟨nofun, nofun, fun p row hmem => ?_⟩
    rcases mem_update_log hmem with hold | rfl
    · simp [Node.fresh] at hold
    · nofun

theorem flagInv_advance (hi : FlagInv s) (h : advance g s = some t) : FlagInv t := by
  obtain ⟨hattended, hunset, hcopied⟩ := hi
  unfold advance at h
  cases hpc : s.pc with
    simp only [hpc, reduceCtorEq, Option.some.injEq, Pc.initializing, Pc.early, and_false,
      imp_false, Bool.false_eq_true] at h hattended hunset
  | standalone =>
    subst h
    -- the row is writable if it is changed, and not a ready one otherwise
    refine ⟨fun hrow => ?_, fun hb => ?_, by simpa [Node.enter] using hcopied⟩
    all_goals
      by_cases hfirst : s.row.status = .beginningInit <;>
        simp_all [Node.setLocalAttrs, Node.enter]
  | beginning | synced | caught =>
    subst h
    refine ⟨fun _ => rfl, fun hb => ?_, by simpa using hcopied⟩
    simp only [Node.setLocalAttrs] at hb
    split_ifs at hb
    all_goals simp_all
  | flagging | clearing =>
    subst h
    exact ⟨by simp [Node.setReadOnly, Node.enter, Pc.initializing],
      fun hb => absurd hb hunset, hcopied⟩
  | copying | committing | preparing | outbound =>
    subst h
    exact ⟨fun _ => rfl, fun hb => absurd hb hunset, hcopied⟩
  | catchingUp =>
    split at h
    · split_ifs at h
      cases h
      exact ⟨fun _ => rfl, fun hb => absurd hb hunset, hcopied⟩
    · cases h
  | connecting | waiting =>
    split_ifs at h
    cases h
    exact ⟨fun _ => rfl, fun hb => absurd hb hunset, hcopied⟩
  | syncing =>
    split at h
    · cases h
    · cases h
      refine ⟨fun _ => rfl, fun hb => absurd hb hunset, fun p row hmem => ?_⟩
      rcases mem_update_log hmem with hold | rfl
      · exact hcopied p row hold
      · exact hunset
  | announcing =>
    split at h
    · cases h
      refine ⟨fun _ => rfl, fun hb => absurd hb hunset, fun p row hmem => ?_⟩
      rcases mem_update_log hmem with hold | rfl
      · exact hcopied p row hold
      · nofun
    · cases h

theorem flagInv_step (hi : FlagInv s) {a : Action ν} (hok : Attended s a)
    (h : step g s a = some t) : FlagInv t := by
  cases a with
  | start =>
    simp only [step] at h
    split_ifs at h with hdown
    obtain ⟨pc, hpc, rfl⟩ := Option.map_eq_some_iff.mp h
    refine ⟨fun hrow => ?_, fun hb => ?_, hi.copied⟩
    · have hlost := hi.attended hrow
      simp [hdown, Pc.initializing] at hlost
    · obtain ⟨hflag, -⟩ := hi.unset hb
      refine ⟨hflag, ?_⟩
      change s.row.status = _ at hb
      rw [hb] at hpc
      cases hpc
      cases hdsn : g.initFromDsn <;> simp [Node.enter, Pc.early]
  | advance => exact flagInv_advance hi h
  | crash | shutdown =>
    cases h
    exact ⟨fun hrow => absurd hrow hok, fun hb => ⟨(hi.unset hb).1, rfl⟩, hi.copied⟩
  | replay p wins =>
    obtain ⟨row, hrow, rfl⟩ := Option.map_eq_some_iff.mp h
    cases wins with
    | false => exact ⟨hi.attended, hi.unset, hi.copied⟩
    | true =>
      refine ⟨?_, fun hb => ?_, hi.copied⟩
      · rintro rfl
        exact hok rfl hrow
      · exact absurd hb (hi.copied p row (mem_log_of_next hrow))
  | detach p readOnly =>
    simp only [step] at h
    split_ifs at h
    all_goals
      cases h
      refine ⟨hi.attended, hi.unset, fun q row hmem => ?_⟩
      rcases mem_update_log hmem with hold | rfl
      · exact hi.copied q row hold
      · nofun
  | detachSelf =>
    cases h
    exact ⟨nofun, nofun, hi.copied⟩

theorem flagInv_of_reach (hs : Reach (Initial g) (step g) Attended s) : FlagInv s :=
  hs.invariant (fun _ => Initial.flagInv) fun _ _ _ _ hi hok h => flagInv_step hi hok h

end Steps

instance [DecidableEq ν] (s : Node ν) (a : Action ν) : Decidable (Attended s a) := by
  rcases a <;> unfold Attended <;> infer_instance

def joinActions : List (Action Unit) :=
  .start :: List.replicate 7 .advance ++ .replay () false :: List.replicate 5 .advance

end Pgactive.Replica.Status
