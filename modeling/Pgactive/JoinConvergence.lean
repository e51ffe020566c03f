import Pgactive.BroadcastLog
import Mathlib.Order.Bounds.Lattice

/-!
# Replicas that hold the join of what they know

Each log entry contributes a value of a join-semilattice, and a replica is to hold the least upper
bound of a base value and the contributions that it knows. Local writes and deliveries keep this,
and once every log is read, all replicas hold the same value.
-/

namespace BroadcastLog

variable {N E L : Type*} [DecidableEq N] [SemilatticeSup L]

/-- The contributions known to `r`, together with the base value. -/
def Net.known (net : Net N E) (base : L) (contrib : N → E → L) (r : N) : Set L :=
  insert base {x | ∃ w, ∃ e ∈ net.seenBy r w, contrib w e = x}

/-- Every replica holds the least upper bound of what it knows. -/
def Net.Joined (net : Net N E) (base : L) (contrib : N → E → L) (val : N → L) : Prop :=
  ∀ r, IsLUB (net.known base contrib r) (val r)

variable {net : Net N E} {base : L} {contrib : N → E → L} {val : N → L}

variable {r w : N} {e : E}

omit [SemilatticeSup L] in
theorem Net.known_of_seenBy_append {net' : Net N E}
    (h : ∀ v, net'.seenBy r v = if v = w then net.seenBy r v ++ [e] else net.seenBy r v) :
    net'.known base contrib r = insert (contrib w e) (net.known base contrib r) := by
  unfold known
  rw [Set.insert_comm]
  congr 1
  ext x
  simp only [Set.mem_insert_iff, Set.mem_ofPred_eq]
  constructor
  · rintro ⟨v, a, ha, rfl⟩
    rw [h v] at ha
    split at ha
    · next hv =>
      subst hv
      rcases List.mem_append.mp ha with ha | ha
      · exact Or.inr ⟨v, a, ha, rfl⟩
      · rw [List.mem_singleton.mp ha]
        exact Or.inl rfl
    · exact Or.inr ⟨v, a, ha, rfl⟩
  · rintro (rfl | ⟨v, a, ha, rfl⟩)
    · exact ⟨w, e, by simp [h w], rfl⟩
    · refine ⟨v, a, ?_, rfl⟩
      rw [h v]
      split
      · exact List.mem_append_left _ ha
      · exact ha

theorem Net.Joined.empty : (Net.empty : Net N E).Joined base contrib fun _ => base := by
  intro r
  have : (Net.empty : Net N E).known base contrib r = {base} := by
    ext x
    simp [Net.known, Net.seenBy]
  rw [this]
  exact isLUB_singleton

section

variable (h : net.Joined base contrib val)
include h

theorem Net.Joined.insert {net' : Net N E}
    (hself : ∀ v, net'.seenBy r v = if v = w then net.seenBy r v ++ [e] else net.seenBy r v)
    (hother : ∀ r' ≠ r, ∀ v, net'.seenBy r' v = net.seenBy r' v) :
    net'.Joined base contrib (Function.update val r (contrib w e ⊔ val r)) := by
  intro r'
  by_cases hr : r' = r
  · subst hr
    rw [known_of_seenBy_append hself, Function.update_self]
    exact (h r').insert _
  · have hknown : net'.known base contrib r' = net.known base contrib r' := by
      simp [known, hother r' hr]
    rw [Function.update_of_ne hr, hknown]
    exact h r'

theorem Net.Joined.append (hb : net.Bounded) (w : N) (e : E) :
    (net.append w [e]).Joined base contrib (Function.update val w (contrib w e ⊔ val w)) :=
  h.insert (fun v => by simp [hb.seenBy_append]) fun r hr v => by simp [hb.seenBy_append, hr]

theorem Net.Joined.advance (hrw : r ≠ w) (hnext : net.next r w = some e) :
    (net.advance r w).Joined base contrib (Function.update val r (contrib w e ⊔ val r)) :=
  h.insert (fun v => by simp [seenBy_advance hrw hnext]) fun r' hr v => by
    simp [seenBy_advance hrw hnext, hr]

theorem Net.Joined.le (he : e ∈ net.seenBy r w) : contrib w e ≤ val r :=
  (h r).1 (Set.mem_insert_of_mem _ ⟨w, e, he, rfl⟩)

/-- A replica that knows more holds a greater value. -/
theorem Net.Joined.mono {r' : N} (hsub : ∀ w, net.seenBy r w ⊆ net.seenBy r' w) : val r ≤ val r' :=
  (h r).mono (h r') (Set.insert_subset_insert fun _ ⟨w, e, he, hx⟩ => ⟨w, e, hsub w he, hx⟩)

theorem Net.Joined.eq_of_settled (hs : net.Settled) (r r' : N) : val r = val r' :=
  le_antisymm (h.mono fun w => by simp [hs.seenBy_eq]) (h.mono fun w => by simp [hs.seenBy_eq])

end

end BroadcastLog
