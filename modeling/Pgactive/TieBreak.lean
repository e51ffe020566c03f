import Pgactive.LastUpdateWins

/-!
# Ties between equal commit timestamps

On equal timestamps `pgactive_conflict_last_update_wins` compares the receiving node with the
sending peer, although the stored version may come from a third node. Nodes agree in the runs in
which this has the result that the writer of the stored version would give.
-/

namespace Pgactive

open BroadcastLog Transition

section Conditions

variable {ν D : Type} [DecidableEq D]

def UpdatesRow (ix : Index D) (key : List (Option D)) : Action ν D → Prop
  | .insert _ _ _ => False
  | .update _ _ k new => k = key ∧ ix.key (new.map Datum.value) = key
  | .delete _ _ _ => False
  | .deliver _ _ => True

def CommitsLater (ix : Index D) (key : List (Option D)) (s : Cluster ν D) : Action ν D → Prop
  | .update i ts _ _ => ∀ t ∈ ix.versions key (s.tables i), t.commitTs < ts
  | _ => True

instance (ix : Index D) (key : List (Option D)) (a : Action ν D) :
    Decidable (UpdatesRow ix key a) := by
  rcases a <;> unfold UpdatesRow <;> infer_instance

instance (ix : Index D) (key : List (Option D)) (s : Cluster ν D) (a : Action ν D) :
    Decidable (CommitsLater ix key s a) := by
  rcases a <;> unfold CommitsLater <;> infer_instance

theorem UpdatesRow.writesRow {ix : Index D} {key : List (Option D)} {s : Cluster ν D}
    {a : Action ν D} (h : UpdatesRow ix key a) (hlater : CommitsLater ix key s a) :
    WritesRow ix key s a := by
  cases a with
  | update i ts k new => exact ⟨h.1, h.2, hlater⟩
  | insert => exact h
  | delete => exact h.elim
  | deliver => trivial

variable [DecidableEq ν]

def TieBreakStep (cfg : Config ν D) (ix : Index D) (key : List (Option D)) (s : Cluster ν D)
    (a : Action ν D) : Prop :=
  UpdatesRow ix key a ∧ CommitsLater ix key s a ∧ SendsAllColumns cfg a

instance (cfg : Config ν D) (ix : Index D) (key : List (Option D)) (s : Cluster ν D)
    (a : Action ν D) : Decidable (TieBreakStep cfg ix key s a) :=
  inferInstanceAs (Decidable (_ ∧ _ ∧ _))

def SameVersion (ix : Index D) (key : List (Option D)) (s : Cluster ν D) : Prop :=
  ∀ r r', (ix.versions key (s.tables r)).map (fun t => (t.values, t.commitTs)) =
    (ix.versions key (s.tables r')).map fun t => (t.values, t.commitTs)

instance [Fintype ν] (ix : Index D) (key : List (Option D)) (s : Cluster ν D) :
    Decidable (SameVersion ix key s) :=
  inferInstanceAs (Decidable (∀ _ _, _ = _))

variable {cfg : Config ν D} {ix : Index D} {key : List (Option D)} {row₀ : Row D} {ts₀ : ℤ}
variable {s s' : Cluster ν D}

theorem no_delete_of_updates (h : ∀ w, ∀ c ∈ s.net.log w, c.change.isDelete = false)
    {a : Action ν D} (hok : UpdatesRow ix key a) (hstep : cfg.step s a = some s') :
    ∀ w, ∀ c ∈ s'.net.log w, c.change.isDelete = false := by
  intro w c hc
  rcases Config.mem_log_of_step hstep hc with hold | hlogs
  · exact h w c hold
  · cases a with
    | update j ts k new =>
      obtain ⟨-, old, rfl⟩ := hlogs
      rfl
    | insert => exact hok.elim
    | delete => exact hok.elim
    | deliver => exact hlogs.elim

/-- **Tie-break agreement.** If every tie is decided as between the writers of the two
versions, all nodes hold the same version once everything is delivered. -/
theorem tieBreak_agreement (hix : cfg.rel.identityIndex = some ix)
    (hinj : Function.Injective cfg.nodeSeqId)
    (hs : Reach (InitialRow cfg ix key row₀ ts₀) cfg.step
      (fun s a => TieBreakStep cfg ix key s a ∧ TieByOrigin cfg ix key s a) s)
    (hsettled : s.net.Settled) : SameVersion ix key s := by
  have hlogs : ∀ {s}, Reach (InitialRow cfg ix key row₀ ts₀) cfg.step
      (fun s a => TieBreakStep cfg ix key s a ∧ TieByOrigin cfg ix key s a) s →
      AllSent cfg s ∧ ∀ w, ∀ c ∈ s.net.log w, c.change.isDelete = false := fun hs =>
    hs.invariant (I := fun s => AllSent cfg s ∧ ∀ w, ∀ c ∈ s.net.log w, c.change.isDelete = false)
      (fun s h => ⟨by simp [AllSent, h.1], by simp [h.1]⟩)
      fun _ _ _ _ h hok hstep =>
        ⟨h.1.step hok.1.2.2 hstep, no_delete_of_updates h.2 hok.1.1 hstep⟩
  have hrow : Reach (InitialRow cfg ix key row₀ ts₀) cfg.step (RowStep cfg ix key) s :=
    hs.mono fun s a htie _ hok =>
      ⟨hok.1.1.writesRow hok.1.2.1, hok.2, (hlogs htie).1.mergesWhole a⟩
  have h := tracked_of_reach hix hrow
  intro r r'
  obtain ⟨t, ht, -⟩ := h.exists_version hsettled (hlogs hs).2 r
  obtain ⟨t', ht', -⟩ := h.exists_version hsettled (hlogs hs).2 r'
  obtain ⟨hval, hts⟩ := h.version_unique hsettled
    (fun u u' _ _ _ _ _ hseq => hinj hseq) ht ht'
  simp [ht, ht', hval, hts]

end Conditions

/-- Two nodes update the document with the same commit timestamp. The third node, with
the greatest id, receives the update of the first node before that of the second. -/
def equalTimestamps {ν : Type} (a b c : ν) : List (Action ν ℕ) :=
  [.update a 5 [some 1] [.inline 1, .inline 11, .inline 20],
    .update b 5 [some 1] [.inline 1, .inline 12, .inline 20],
    .deliver a b, .deliver b a, .deliver c a, .deliver c b]

/-- The same updates, received by the third node in the other order. -/
def equalTimestampsSwapped {ν : Type} (a b c : ν) : List (Action ν ℕ) :=
  [.update a 5 [some 1] [.inline 1, .inline 11, .inline 20],
    .update b 5 [some 1] [.inline 1, .inline 12, .inline 20],
    .deliver a b, .deliver b a, .deliver c b, .deliver c a]

/-- With the second order all ties agree with the writers, and so do all nodes. -/
theorem tieBreak_agreement_equalTimestampsSwapped :
    ∃ s, Reach (InitialRow (documentsConfig 3) documentsKey [some 1] [some 1, some 10, some 20] 0)
      (documentsConfig 3).step
      (fun s a => TieBreakStep (documentsConfig 3) documentsKey [some 1] s a ∧
        TieByOrigin (documentsConfig 3) documentsKey [some 1] s a) s ∧
      s.net.Settled ∧ SameVersion documentsKey [some 1] s := by
  have hstart : Reach _ (documentsConfig 3).step
      (fun s a => TieBreakStep (documentsConfig 3) documentsKey [some 1] s a ∧
        TieByOrigin (documentsConfig 3) documentsKey [some 1] s a) (documentsStart 3) :=
    .init (documentsStart_initialRow 3)
  obtain ⟨s, hs, hsettled⟩ := hstart.exists_of_run (equalTimestampsSwapped 0 1 2)
    (fun s => s.net.Settled) (by decide +kernel)
  exact ⟨s, hs, hsettled, tieBreak_agreement rfl (by decide) hs hsettled⟩

/-- With the first order the third node keeps another version than the first two. -/
theorem tieBreak_disagreement :
    ¬ ∀ (n : ℕ) (cfg : Config (Fin n) ℕ) (ix : Index ℕ) (key : List (Option ℕ)) (row₀ : Row ℕ)
      (ts₀ : ℤ) (s : Cluster (Fin n) ℕ), 3 ≤ n → cfg.rel.identityIndex = some ix →
      (∀ i, 0 < cfg.nodeSeqId i) → Function.Injective cfg.nodeSeqId →
      Reach (InitialRow cfg ix key row₀ ts₀) cfg.step (TieBreakStep cfg ix key) s →
      s.net.Settled → SameVersion ix key s := by
  intro hclaim
  have hstart : Reach _ (documentsConfig 3).step
      (TieBreakStep (documentsConfig 3) documentsKey [some 1]) (documentsStart 3) :=
    .init (documentsStart_initialRow 3)
  obtain ⟨s, hs, hsettled, hdiffer⟩ := hstart.exists_of_run (equalTimestamps 0 1 2)
    (fun s => s.net.Settled ∧ ¬SameVersion documentsKey [some 1] s) (by decide +kernel)
  exact hdiffer (hclaim 3 (documentsConfig 3) documentsKey _ _ 0 s le_rfl rfl (by decide)
    (by decide) hs hsettled)

end Pgactive
