import Pgactive.RowConvergence
import Mathlib.Data.Fintype.Basic

/-!
# Last update wins

The row is updated and deleted with pairwise distinct commit timestamps, and every
update sends all columns. Then no tie is ever broken and no column is ever merged, so
that all nodes end with the version with the greatest timestamp, or without the row if
it was deleted anywhere.
-/

namespace Pgactive

open BroadcastLog Transition

section Conditions

variable {ν D : Type} [DecidableEq ν] [DecidableEq D]

def FreshTs (s : Cluster ν D) : Action ν D → Prop
  | .insert _ ts _ => ∀ w, ∀ c ∈ s.net.log w, c.commitTs ≠ ts
  | .update _ ts _ _ => ∀ w, ∀ c ∈ s.net.log w, c.commitTs ≠ ts
  | .delete _ ts _ => ∀ w, ∀ c ∈ s.net.log w, c.commitTs ≠ ts
  | .deliver _ _ => True

def SendsAll (desc : List Attribute) (t : List (Datum D)) : Prop :=
  ∀ x ∈ desc.zip t, x.2.sentUnchanged x.1 = false

def SendsAllColumns (cfg : Config ν D) : Action ν D → Prop
  | .update _ _ _ new => SendsAll cfg.rel.desc new
  | _ => True

def LastUpdateStep (cfg : Config ν D) (ix : Index D) (key : List (Option D)) (s : Cluster ν D)
    (a : Action ν D) : Prop :=
  WritesRow ix key s a ∧ FreshTs s a ∧ SendsAllColumns cfg a

instance [Fintype ν] (s : Cluster ν D) (a : Action ν D) : Decidable (FreshTs s a) := by
  rcases a <;> unfold FreshTs <;> infer_instance

instance (cfg : Config ν D) (a : Action ν D) : Decidable (SendsAllColumns cfg a) :=
  match a with
  | .update _ _ _ new =>
    inferInstanceAs (Decidable (∀ x ∈ cfg.rel.desc.zip new, x.2.sentUnchanged x.1 = false))
  | .insert _ _ _ => isTrue trivial
  | .delete _ _ _ => isTrue trivial
  | .deliver _ _ => isTrue trivial

instance [Fintype ν] (cfg : Config ν D) (ix : Index D) (key : List (Option D)) (s : Cluster ν D)
    (a : Action ν D) : Decidable (LastUpdateStep cfg ix key s a) :=
  inferInstanceAs (Decidable (_ ∧ _ ∧ _))

/-- Logged transactions of different nodes have different timestamps. -/
def DistinctTs (s : Cluster ν D) : Prop :=
  ∀ u u', ∀ c ∈ s.net.log u, ∀ c' ∈ s.net.log u', c.commitTs = c'.commitTs → u = u'

def AllSent (cfg : Config ν D) (s : Cluster ν D) : Prop :=
  ∀ w, ∀ c ∈ s.net.log w, ∀ new ∈ c.change.updated, SendsAll cfg.rel.desc new

variable {cfg : Config ν D} {ix : Index D} {key : List (Option D)} {row₀ : Row D} {ts₀ : ℤ}
variable {s s' : Cluster ν D}

omit [DecidableEq ν] [DecidableEq D] in
theorem FreshTs.ne_of_logs {a : Action ν D} {i : ν} {c : Commit D} (h : FreshTs s a)
    (hlogs : a.Logs i c) {w : ν} {c' : Commit D} (hc' : c' ∈ s.net.log w) :
    c'.commitTs ≠ c.commitTs := by
  cases a with
  | insert j ts new =>
    obtain ⟨-, rfl⟩ := hlogs
    exact h w c' hc'
  | update j ts k new =>
    obtain ⟨-, old, rfl⟩ := hlogs
    exact h w c' hc'
  | delete j ts k =>
    obtain ⟨-, old, rfl⟩ := hlogs
    exact h w c' hc'
  | deliver r w => exact hlogs.elim

omit [DecidableEq ν] [DecidableEq D] in
theorem Action.Logs.node_unique {a : Action ν D} {i j : ν} {c c' : Commit D} (h : a.Logs i c)
    (h' : a.Logs j c') : i = j := by
  cases a with
  | insert => exact h.1.symm.trans h'.1
  | update => exact h.1.symm.trans h'.1
  | delete => exact h.1.symm.trans h'.1
  | deliver => exact h.elim

theorem DistinctTs.step (h : DistinctTs s) {a : Action ν D} (hfresh : FreshTs s a)
    (hstep : cfg.step s a = some s') : DistinctTs s' := by
  intro u u' c hc c' hc' hts
  rcases Config.mem_log_of_step hstep hc with hold | hlogs
  · rcases Config.mem_log_of_step hstep hc' with hold' | hlogs'
    · exact h u u' c hold c' hold' hts
    · exact absurd hts (hfresh.ne_of_logs hlogs' hold)
  · rcases Config.mem_log_of_step hstep hc' with hold' | hlogs'
    · exact absurd hts.symm (hfresh.ne_of_logs hlogs hold')
    · exact hlogs.node_unique hlogs'

theorem AllSent.step (h : AllSent cfg s) {a : Action ν D} (hsend : SendsAllColumns cfg a)
    (hstep : cfg.step s a = some s') : AllSent cfg s' := by
  intro w c hc new hch
  rcases Config.mem_log_of_step hstep hc with hold | hlogs
  · exact h w c hold new hch
  · cases a with
    | insert j ts new' =>
      obtain ⟨-, rfl⟩ := hlogs
      cases hch
    | update j ts k new' =>
      obtain ⟨-, old', rfl⟩ := hlogs
      cases hch
      exact hsend
    | delete j ts k =>
      obtain ⟨-, old', rfl⟩ := hlogs
      cases hch
    | deliver => exact hlogs.elim

theorem Tracked.tieByOrigin (h : Tracked cfg ix key row₀ ts₀ s)
    (hdistinct : DistinctTs s) (a : Action ν D) : TieByOrigin cfg ix key s a := by
  cases a with
  | deliver r w =>
    intro c hnext _ t ht hts horigin
    have hc := List.mem_of_getElem? hnext
    have hnone : t.nodeId = none := by
      rcases h.source r t ht with ⟨-, hts'⟩ | ⟨c', hc', -, -, -, hts', -⟩
      · have := (h.logged w c hc).1
        omega
      · have hwriter := hdistinct _ _ c' (s.net.seenBy_subset _ _ hc') c hc (by omega)
        cases hid : t.nodeId with
        | none => rfl
        | some u => exact absurd (by simpa [hid] using hwriter) (by simpa [hid] using horigin)
    rw [hnone, Option.getD_none]
  | _ => trivial

omit [DecidableEq ν] in
theorem AllSent.mergesWhole (h : AllSent cfg s) (a : Action ν D) : MergesWhole cfg ix key s a := by
  cases a with
  | deliver r w =>
    intro c hnext new hch t _ _ x hx hsent
    have hall := h w c (List.mem_of_getElem? hnext) new hch
    have hzip : x.1 ∈ cfg.rel.desc.zip new := (List.of_mem_zip (a := x.1) (b := x.2) hx).1
    rw [hall x.1 hzip] at hsent
    cases hsent
  | _ => trivial

theorem tracked_of_lastUpdates (hix : cfg.rel.identityIndex = some ix)
    (hs : Reach (InitialRow cfg ix key row₀ ts₀) cfg.step (LastUpdateStep cfg ix key) s) :
    Tracked cfg ix key row₀ ts₀ s ∧ DistinctTs s ∧ AllSent cfg s := by
  refine hs.invariant (I := fun s => Tracked cfg ix key row₀ ts₀ s ∧ DistinctTs s ∧ AllSent cfg s)
    (fun s h => ⟨h.tracked, by simp [DistinctTs, h.1], by simp [AllSent, h.1]⟩)
    fun s a _ _ ⟨h, hdistinct, hsent⟩ ⟨hwrites, hfresh, hsends⟩ hstep =>
      ⟨h.step hix ⟨hwrites, h.tieByOrigin hdistinct a, hsent.mergesWhole a⟩ hstep,
        hdistinct.step hfresh hstep, hsent.step hsends hstep⟩

/-- The version is the initial one or that of a logged update, and no write is later. -/
def IsNewest (row₀ : Row D) (ts₀ : ℤ) (s : Cluster ν D) (t : StoredTuple ν D) : Prop :=
  (t.values = row₀ ∧ t.commitTs = ts₀ ∨
    ∃ w, ∃ c ∈ s.net.log w, ∃ old new, c.change = .update old new ∧ c.commitTs = t.commitTs ∧
      new.map Datum.value = t.values) ∧
    ts₀ ≤ t.commitTs ∧ ∀ w, ∀ c ∈ s.net.log w, c.commitTs ≤ t.commitTs

/-- **Last-update-wins convergence.** Once everything is delivered, no node has the row
if it was deleted anywhere, and otherwise all nodes have its newest version. -/
theorem lastUpdateWins_converges (hix : cfg.rel.identityIndex = some ix)
    (hs : Reach (InitialRow cfg ix key row₀ ts₀) cfg.step (LastUpdateStep cfg ix key) s)
    (hsettled : s.net.Settled) :
    ((∃ w, ∃ c ∈ s.net.log w, c.change.isDelete = true) →
      ∀ r, ix.versions key (s.tables r) = []) ∧
    ((∀ w, ∀ c ∈ s.net.log w, c.change.isDelete = false) →
      ∀ r, ∃ t, ix.versions key (s.tables r) = [t] ∧ IsNewest row₀ ts₀ s t) := by
  have hdistinct : ∀ {s}, Reach (InitialRow cfg ix key row₀ ts₀) cfg.step
      (LastUpdateStep cfg ix key) s → DistinctTs s ∧ AllSent cfg s := fun hs =>
    hs.invariant (I := fun s => DistinctTs s ∧ AllSent cfg s)
      (fun s h => ⟨by simp [DistinctTs, h.1], by simp [AllSent, h.1]⟩)
      fun _ _ _ _ h hok hstep => ⟨h.1.step hok.2.1 hstep, h.2.step hok.2.2 hstep⟩
  have hrow : Reach (InitialRow cfg ix key row₀ ts₀) cfg.step (RowStep cfg ix key) s :=
    hs.mono fun s a hlast hrow hok =>
      ⟨hok.1, (tracked_of_reach hix hrow).tieByOrigin (hdistinct hlast).1 a,
        (hdistinct hlast).2.mergesWhole a⟩
  have h := tracked_of_reach hix hrow
  refine ⟨fun ⟨w, c, hc, hdel⟩ r => h.versions_eq_nil hsettled hc hdel r, fun hdel r => ?_⟩
  obtain ⟨t, ht, hsource, hle⟩ := h.exists_version hsettled hdel r
  refine ⟨t, ht, ?_, h.ts₀_le ht, hle⟩
  rcases hsource with hinit | ⟨c, hc, hrest⟩
  · exact Or.inl hinit
  · exact Or.inr ⟨_, c, s.net.seenBy_subset _ _ hc, hrest⟩

/-- **Strong eventual consistency.** At every point of a run, the version of a node that knows
more is no older, and two nodes that know the same transactions hold the same version. -/
theorem lastUpdateWins_sameKnown (hix : cfg.rel.identityIndex = some ix)
    (hs : Reach (InitialRow cfg ix key row₀ ts₀) cfg.step (LastUpdateStep cfg ix key) s) {r r' : ν}
    (hsub : ∀ w, s.net.seenBy r w ⊆ s.net.seenBy r' w) :
    (∀ t' ∈ ix.versions key (s.tables r'), ∃ t ∈ ix.versions key (s.tables r),
      t.commitTs ≤ t'.commitTs) ∧
    ((∀ w, s.net.seenBy r' w ⊆ s.net.seenBy r w) →
      (ix.versions key (s.tables r)).map (fun t => (t.values, t.commitTs)) =
        (ix.versions key (s.tables r')).map fun t => (t.values, t.commitTs)) := by
  obtain ⟨h, hdistinct, -⟩ := tracked_of_lastUpdates hix hs
  have hrank := h.joined.mono hsub
  rcases h.versions_cases r with hr | ⟨t, hr⟩ <;> rcases h.versions_cases r' with hr' | ⟨t', hr'⟩
  · simp [hr, hr']
  · simp [hr, hr', rank] at hrank
  · refine ⟨by simp [hr'], fun hsub' => ?_⟩
    have hrank' := h.joined.mono hsub'
    simp [hr, hr', rank] at hrank'
  · simp only [hr, hr', rank, WithTop.coe_le_coe] at hrank
    refine ⟨by simpa [hr, hr'] using ts_le_of_stamp_le hrank, fun hsub' => ?_⟩
    have hrank' := h.joined.mono hsub'
    simp only [hr, hr', rank, WithTop.coe_le_coe] at hrank'
    obtain ⟨hval, hts⟩ := h.version_unique_of_rank
      (fun u u' c hc c' hc' hts _ => hdistinct u u' c hc c' hc' hts) hr hr'
      (WithTop.coe_inj.mpr (le_antisymm hrank hrank'))
    simp [hr, hr', hval, hts]

end Conditions

def concurrentWrites {ν : Type} (a b c : ν) : List (Action ν ℕ) :=
  [.update a 1 [some 1] [.inline 1, .inline 11, .inline 20],
    .update b 3 [some 1] [.inline 1, .inline 10, .inline 21], .deliver c a, .deliver a b,
    .delete c 2 [some 1], .deliver b a, .deliver c b, .deliver b c, .deliver a c]

/-- The deleted document is gone everywhere. -/
theorem lastUpdateWins_converges_concurrentWrites :
    ∃ s, Reach (InitialRow (documentsConfig 3) documentsKey [some 1] [some 1, some 10, some 20] 0)
      (documentsConfig 3).step (LastUpdateStep (documentsConfig 3) documentsKey [some 1]) s ∧
      s.net.Settled ∧ ∀ r, documentsKey.versions [some 1] (s.tables r) = [] := by
  have hstart : Reach _ (documentsConfig 3).step
      (LastUpdateStep (documentsConfig 3) documentsKey [some 1]) (documentsStart 3) :=
    .init (documentsStart_initialRow 3)
  obtain ⟨s, hs, hsettled, hdel⟩ := hstart.exists_of_run (concurrentWrites 0 1 2)
    (fun s => s.net.Settled ∧ ∃ w, ∃ c ∈ s.net.log w, c.change.isDelete = true)
    (by decide +kernel)
  exact ⟨s, hs, hsettled, (lastUpdateWins_converges rfl hs hsettled).1 hdel⟩

/-- After six steps the first two nodes know the same updates, and the delete is undelivered. -/
theorem lastUpdateWins_sameKnown_concurrentWrites :
    ∃ s, Reach (InitialRow (documentsConfig 3) documentsKey [some 1] [some 1, some 10, some 20] 0)
      (documentsConfig 3).step (LastUpdateStep (documentsConfig 3) documentsKey [some 1]) s ∧
      ¬s.net.Settled ∧
      (documentsKey.versions [some 1] (s.tables 0)).map (fun t => (t.values, t.commitTs)) =
        (documentsKey.versions [some 1] (s.tables 1)).map fun t => (t.values, t.commitTs) := by
  have hstart : Reach _ (documentsConfig 3).step
      (LastUpdateStep (documentsConfig 3) documentsKey [some 1]) (documentsStart 3) :=
    .init (documentsStart_initialRow 3)
  obtain ⟨s, hs, hsettled, hsub, hsub'⟩ := hstart.exists_of_run ((concurrentWrites 0 1 2).take 6)
    (fun s => ¬s.net.Settled ∧ (∀ w, s.net.seenBy 0 w ⊆ s.net.seenBy 1 w) ∧
      ∀ w, s.net.seenBy 1 w ⊆ s.net.seenBy 0 w) (by decide +kernel)
  exact ⟨s, hs, hsettled, (lastUpdateWins_sameKnown rfl hs hsub).2 hsub'⟩

end Pgactive
