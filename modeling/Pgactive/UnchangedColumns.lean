import Pgactive.TieBreak

/-!
# Columns sent as unchanged

An update that leaves an out-of-line column alone sends no value for it, and the receiver keeps its
own one. If the receiver's row is another write than the one the sender updated, the result is a row
that no write produced.
-/

namespace Pgactive

open BroadcastLog Transition

section Conditions

variable {ν D : Type} [DecidableEq ν] [DecidableEq D]

def ConcurrentUpdateStep (ix : Index D) (key : List (Option D)) (s : Cluster ν D)
    (a : Action ν D) : Prop :=
  UpdatesRow ix key a ∧ FreshTs s a

instance [Fintype ν] (ix : Index D) (key : List (Option D)) (s : Cluster ν D) (a : Action ν D) :
    Decidable (ConcurrentUpdateStep ix key s a) :=
  inferInstanceAs (Decidable (_ ∧ _))

/-- All nodes store the same row, which is the complete row of one update, or the
initial row if there was none. -/
def OneWholeRow (ix : Index D) (key : List (Option D)) (row₀ : Row D) (s : Cluster ν D) : Prop :=
  ∃ row, ((∀ w, s.net.log w = []) ∧ row = row₀ ∨
      ∃ w, ∃ c ∈ s.net.log w, ∃ new ∈ c.change.updated, new.map Datum.value = row) ∧
    ∀ r, (ix.versions key (s.tables r)).map StoredTuple.values = [row]

variable {cfg : Config ν D} {ix : Index D} {key : List (Option D)} {row₀ : Row D} {ts₀ : ℤ}
variable {s : Cluster ν D}

/-- **No mixing.** If local writes commit later than what they overwrite, and replaced
versions agree with the sender in the columns not sent, all nodes end with one whole row. -/
theorem unchangedColumns_whole [Nonempty ν] (hix : cfg.rel.identityIndex = some ix)
    (hs : Reach (InitialRow cfg ix key row₀ ts₀) cfg.step
      (fun s a => ConcurrentUpdateStep ix key s a ∧
        CommitsLater ix key s a ∧ MergesWhole cfg ix key s a) s)
    (hsettled : s.net.Settled) : OneWholeRow ix key row₀ s := by
  have hlogs : ∀ {s}, Reach (InitialRow cfg ix key row₀ ts₀) cfg.step
      (fun s a => ConcurrentUpdateStep ix key s a ∧
        CommitsLater ix key s a ∧ MergesWhole cfg ix key s a) s →
      DistinctTs s ∧ ∀ w, ∀ c ∈ s.net.log w, c.change.isDelete = false := fun hs =>
    hs.invariant (I := fun s => DistinctTs s ∧ ∀ w, ∀ c ∈ s.net.log w, c.change.isDelete = false)
      (fun s h => ⟨by simp [DistinctTs, h.1], by simp [h.1]⟩)
      fun _ _ _ _ h hok hstep =>
        ⟨h.1.step hok.1.2 hstep, no_delete_of_updates h.2 hok.1.1 hstep⟩
  have hrow : Reach (InitialRow cfg ix key row₀ ts₀) cfg.step (RowStep cfg ix key) s :=
    hs.mono fun s a hmerge hrow hok =>
      ⟨hok.1.1.writesRow hok.2.1, (tracked_of_reach hix hrow).tieByOrigin (hlogs hmerge).1 a,
        hok.2.2⟩
  have h := tracked_of_reach hix hrow
  obtain ⟨r₀⟩ := ‹Nonempty ν›
  obtain ⟨t, ht, hsource, hle⟩ := h.exists_version hsettled (hlogs hs).2 r₀
  refine ⟨t.values, ?_, fun r => ?_⟩
  · rcases hsource with ⟨hval, hinit⟩ | ⟨c, hc, old, new, hch, -, hval⟩
    · refine Or.inl ⟨fun w => List.eq_nil_iff_forall_not_mem.mpr fun c hc => ?_, hval⟩
      have hlater := (h.logged w c hc).1
      have := hle w c hc
      omega
    · exact Or.inr ⟨_, c, s.net.seenBy_subset _ _ hc, new, by simp [hch, Change.updated], hval⟩
  · obtain ⟨t', ht', -⟩ := h.exists_version hsettled (hlogs hs).2 r
    obtain ⟨hval, -⟩ := h.version_unique hsettled
      (fun u u' c hc c' hc' hts _ => (hlogs hs).1 u u' c hc c' hc' hts) ht ht'
    simp [ht', hval]

end Conditions

/-- One node changes the first column of the document and leaves the second one, which is
out of line; another node concurrently changes the second one. -/
def mixedColumns {ν : Type} (a b : ν) : List (Action ν ℕ) :=
  [.update a 2 [some 1] [.inline 1, .inline 11, .external 20],
    .update b 1 [some 1] [.inline 1, .inline 10, .inline 21], .deliver a b, .deliver b a]

/-- The same changes, the second one made after the first one has arrived. -/
def sequentialColumns {ν : Type} (a b : ν) : List (Action ν ℕ) :=
  [.update a 2 [some 1] [.inline 1, .inline 11, .external 20], .deliver b a,
    .update b 3 [some 1] [.inline 1, .inline 11, .inline 21], .deliver a b]

/-- Sequential changes leave one whole row. -/
theorem unchangedColumns_whole_sequentialColumns :
    ∃ s, Reach (InitialRow (documentsConfig 2) documentsKey [some 1] [some 1, some 10, some 20] 0)
      (documentsConfig 2).step (fun s a => ConcurrentUpdateStep documentsKey [some 1] s a ∧
        CommitsLater documentsKey [some 1] s a ∧
        MergesWhole (documentsConfig 2) documentsKey [some 1] s a) s ∧
      s.net.Settled ∧ OneWholeRow documentsKey [some 1] [some 1, some 10, some 20] s := by
  have hstart : Reach _ (documentsConfig 2).step
      (fun s a => ConcurrentUpdateStep documentsKey [some 1] s a ∧
        CommitsLater documentsKey [some 1] s a ∧
        MergesWhole (documentsConfig 2) documentsKey [some 1] s a) (documentsStart 2) :=
    .init (documentsStart_initialRow 2)
  obtain ⟨s, hs, hsettled⟩ := hstart.exists_of_run (sequentialColumns 0 1)
    (fun s => s.net.Settled) (by decide +kernel)
  exact ⟨s, hs, hsettled, unchangedColumns_whole rfl hs hsettled⟩

/-- Concurrent changes leave different rows on the two nodes, one of them mixed. -/
theorem unchangedColumns_mixed :
    ¬ ∀ (n : ℕ) (cfg : Config (Fin n) ℕ) (ix : Index ℕ) (key : List (Option ℕ)) (row₀ : Row ℕ)
      (ts₀ : ℤ) (s : Cluster (Fin n) ℕ), 0 < n → cfg.rel.identityIndex = some ix →
      Reach (InitialRow cfg ix key row₀ ts₀) cfg.step (ConcurrentUpdateStep ix key) s →
      s.net.Settled → OneWholeRow ix key row₀ s := by
  intro hclaim
  have hstart : Reach _ (documentsConfig 2).step
      (ConcurrentUpdateStep documentsKey [some 1]) (documentsStart 2) :=
    .init (documentsStart_initialRow 2)
  obtain ⟨s, hs, hsettled, hrow, hrow'⟩ := hstart.exists_of_run (mixedColumns 0 1)
    (fun s => s.net.Settled ∧
      (documentsKey.versions [some 1] (s.tables 0)).map StoredTuple.values =
        [[some 1, some 11, some 20]] ∧
      (documentsKey.versions [some 1] (s.tables 1)).map StoredTuple.values =
        [[some 1, some 11, some 21]]) (by decide +kernel)
  obtain ⟨row, -, hall⟩ := hclaim 2 (documentsConfig 2) documentsKey _ _ 0 s (by decide) rfl hs
    hsettled
  have hdiffer := (hrow.symm.trans (hall 0)).trans ((hall 1).symm.trans hrow')
  exact absurd hdiffer (by decide)

end Pgactive
