import Pgactive.RowHistory

/-!
# Every node stores the greatest write it knows

The invariant `Tracked` holds in every run that satisfies `RowStep`. The step lemmas
reduce a local write and a delivery to what they do to the versions of the row; the
comparison made by `check_apply_update` then agrees with the order of the stamps.
-/

namespace Pgactive

open BroadcastLog Transition

variable {ν D : Type} [DecidableEq ν] [DecidableEq D]
variable {cfg : Config ν D} {ix : Index D} {key : List (Option D)} {row₀ : Row D} {ts₀ : ℤ}
variable {s s' : Cluster ν D}

variable {r : ν} {t : StoredTuple ν D}

omit [DecidableEq D] in
theorem FromHistory.mono {net net' : Net ν (Commit D)} (h : FromHistory row₀ ts₀ net r t)
    (hsub : ∀ w, net.seenBy r w ⊆ net'.seenBy r w) : FromHistory row₀ ts₀ net' r t := by
  rcases h with hinit | ⟨c, hc, hrest⟩
  · exact Or.inl hinit
  · exact Or.inr ⟨c, hsub _ hc, hrest⟩

theorem Tracked.versions_eq (h : Tracked cfg ix key row₀ ts₀ s) {tid : ℕ}
    (hfind : ix.findPkeyTuple key (s.tables r) = some (tid, t)) :
    ix.versions key (s.tables r) = [t] := by
  obtain ⟨rest, hrest, -⟩ := Index.versions_of_findPkeyTuple hfind
  have hlen := (h.valid r).unique key
  rw [hrest, List.length_cons] at hlen
  rw [hrest, List.length_eq_zero_iff.mp (by omega : rest.length = 0)]

theorem Tracked.ts₀_le (h : Tracked cfg ix key row₀ ts₀ s)
    (ht : ix.versions key (s.tables r) = [t]) : ts₀ ≤ t.commitTs := by
  rcases h.source r t (by simp [ht]) with ⟨-, hts⟩ | ⟨c, hc, old, new, -, hts, -⟩
  · exact hts.ge
  · have := (h.logged _ c (s.net.seenBy_subset _ _ hc)).1
    omega

variable {w : ν} {c : Commit D}

theorem Tracked.stamp_le (h : Tracked cfg ix key row₀ ts₀ s)
    (ht : ix.versions key (s.tables r) = [t]) (hc : c ∈ s.net.seenBy r w) :
    c.change.isDelete = false ∧
      stamp c.commitTs (cfg.nodeSeqId w) ≤ versionStamp cfg ts₀ r t := by
  have hle := h.joined.le hc
  simp only [ht, rank, contribution] at hle
  split at hle
  · simp at hle
  · next hdel => exact ⟨by simpa using hdel, WithTop.coe_le_coe.mp hle⟩

variable {i : ν}

variable {rows : List (StoredTuple ν D)}

theorem Tracked.localWrite (h : Tracked cfg ix key row₀ ts₀ s)
    (ht : ix.versions key (s.tables i) = [t]) (hts : t.commitTs < c.commitTs)
    (hfor : c.change.ForRow ix cfg.rel.desc key)
    (hsound : Sound cfg ix ⟨Function.update s.tables i rows, s.net.append i [c]⟩)
    (hsource : ∀ u ∈ ix.versions key rows, FromHistory row₀ ts₀ (s.net.append i [c]) i u)
    (hmissing : ix.versions key rows = [] → c.change.isDelete = true)
    (hrank : rank cfg ts₀ i (ix.versions key rows) = contribution cfg i c) :
    Tracked cfg ix key row₀ ts₀
      ⟨Function.update s.tables i rows, s.net.append i [c]⟩ where
  toSound := hsound
  logged w c' hc' := by
    rcases Net.mem_log_append.mp hc' with hc' | ⟨-, hc'⟩
    · exact h.logged w c' hc'
    · rw [List.mem_singleton.mp hc']
      have := h.ts₀_le ht
      exact ⟨by omega, hfor⟩
  sorted w := by
    by_cases hw : w = i
    · subst hw
      simp only [Net.append_log_self]
      refine List.pairwise_append.mpr ⟨h.sorted w, List.pairwise_singleton _ _, ?_⟩
      intro c' hc' c'' hc''
      rw [List.mem_singleton.mp hc'']
      have hle := (h.stamp_le ht (w := w) (by simpa [Net.seenBy] using hc')).2
      exact lt_of_le_of_lt (ts_le_of_stamp_le hle) hts
    · simpa only [Net.append_log_of_ne _ hw] using h.sorted w
  source j u hu := by
    by_cases hj : j = i
    · subst hj
      exact hsource u (by simpa using hu)
    · simp only [Function.update_of_ne hj] at hu
      exact (h.source j u hu).mono fun w => h.bounded.seenBy_subset_append i [c] j w
  missing j hj' := by
    by_cases hj : j = i
    · subst hj
      exact ⟨j, c, s.net.mem_seenBy_append j c, hmissing (by simpa using hj')⟩
    · obtain ⟨w, c', hc', hdel⟩ := h.missing j (by simpa [hj] using hj')
      exact ⟨w, c', h.bounded.seenBy_subset_append i [c] j w hc', hdel⟩
  joined := by
    have hjoin := h.joined.append h.bounded i c
    have hsup : contribution cfg i c ⊔ rank cfg ts₀ i (ix.versions key (s.tables i)) =
        contribution cfg i c := by
      refine sup_eq_left.mpr ?_
      rw [ht, rank, contribution]
      split
      · exact le_top
      · exact WithTop.coe_le_coe.mpr (stamp_lt_of_ts_lt hts _ _).le
    convert hjoin using 2 with j
    by_cases hj : j = i
    · subst hj
      simp [hrank, hsup]
    · simp [hj]

theorem Tracked.delivery (h : Tracked cfg ix key row₀ ts₀ s) (hrw : r ≠ w)
    (hnext : s.net.next r w = some c)
    (hsound : Sound cfg ix ⟨Function.update s.tables r rows, s.net.advance r w⟩)
    (hsource : ∀ u ∈ ix.versions key rows, FromHistory row₀ ts₀ (s.net.advance r w) r u)
    (hmissing : ix.versions key rows = [] → c.change.isDelete = true ∨
      ix.versions key (s.tables r) = [])
    (hrank : rank cfg ts₀ r (ix.versions key rows) =
      contribution cfg w c ⊔ rank cfg ts₀ r (ix.versions key (s.tables r))) :
    Tracked cfg ix key row₀ ts₀
      ⟨Function.update s.tables r rows, s.net.advance r w⟩ where
  toSound := hsound
  logged := h.logged
  sorted := h.sorted
  source j u hu := by
    by_cases hj : j = r
    · subst hj
      exact hsource u (by simpa using hu)
    · simp only [Function.update_of_ne hj] at hu
      exact (h.source j u hu).mono fun v => Net.seenBy_subset_advance hrw hnext j v
  missing j hj' := by
    have hold : ix.versions key (s.tables j) = [] →
        ∃ v, ∃ c' ∈ (s.net.advance r w).seenBy j v, c'.change.isDelete = true := by
      intro hempty
      obtain ⟨v, c', hc', hdel⟩ := h.missing j hempty
      exact ⟨v, c', Net.seenBy_subset_advance hrw hnext j v hc', hdel⟩
    by_cases hj : j = r
    · subst hj
      rcases hmissing (by simpa using hj') with hdel | hempty
      · exact ⟨w, c, Net.mem_seenBy_advance hrw hnext, hdel⟩
      · exact hold hempty
    · exact hold (by simpa [hj] using hj')
  joined := by
    have hjoin := h.joined.advance hrw hnext
    convert hjoin using 2 with j
    by_cases hj : j = r
    · subst hj
      simp [hrank]
    · simp [hj]

variable {ts : ℤ}

variable {new : List (Datum D)}

section

variable (h : Tracked cfg ix key row₀ ts₀ s)
include h

theorem Tracked.localUpdate (hix : cfg.rel.identityIndex = some ix) (hplain : ix.expressions = [])
    (hkey : ix.key (new.map Datum.value) = key)
    (hts : ∀ t ∈ ix.versions key (s.tables i), t.commitTs < ts)
    (hstep : cfg.localUpdate s i ts key new = some s') : Tracked cfg ix key row₀ ts₀ s' := by
  have hsound : Sound cfg ix s' := h.toSound.step (a := .update i ts key new) hix hstep
  obtain ⟨tid, t, rows, hfind, hconf, -, hupd, rfl⟩ := Config.localUpdate_cases hix hstep
  obtain ⟨hmem, hnull, htkey⟩ := Index.of_findPkeyTuple hfind
  have ht := h.versions_eq hfind
  have hrow : RowOf cfg.rel.desc t.values := (h.valid i).shape t hmem
  have hlater : t.commitTs < ts := hts t (by simp [ht])
  have hsel : ix.selects key (⟨new.map Datum.value, ts, none⟩ : StoredTuple ν D) = true :=
    Index.selects_iff.mpr ⟨hnull, hkey⟩
  have hvers := Relation.versions_updateTuple hfind ht hsel hupd
  have hts₀ := h.ts₀_le ht
  refine h.localWrite ht hlater ⟨?_, hkey⟩ hsound ?_ (by simp [hvers]) ?_
  · rw [scanKey_localUpdate hplain hrow hconf, htkey]
  · intro u hu
    obtain rfl : u = _ := by simpa [hvers] using hu
    exact Or.inr ⟨_, s.net.mem_seenBy_append i _, _, new, rfl, rfl, rfl⟩
  · have hne : ts ≠ ts₀ := by omega
    simp [hvers, rank, versionStamp, contribution, Change.isDelete, hne]

theorem Tracked.localDelete (hix : cfg.rel.identityIndex = some ix) (hplain : ix.expressions = [])
    (hts : ∀ t ∈ ix.versions key (s.tables i), t.commitTs < ts)
    (hstep : cfg.localDelete s i ts key = some s') : Tracked cfg ix key row₀ ts₀ s' := by
  have hsound : Sound cfg ix s' := h.toSound.step (a := .delete i ts key) hix hstep
  obtain ⟨tid, t, hfind, rfl⟩ := Config.localDelete_cases hix hstep
  obtain ⟨hmem, -, htkey⟩ := Index.of_findPkeyTuple hfind
  have ht := h.versions_eq hfind
  have hrow : RowOf cfg.rel.desc t.values := (h.valid i).shape t hmem
  have hvers := (h.valid i).versions_eraseIdx_eq_nil hfind
  refine h.localWrite ht (hts t (by simp [ht])) ⟨?_, trivial⟩ hsound (by simp [hvers])
    (fun _ => rfl) ?_
  · rw [scanKey_localDelete hplain hrow, htkey]
  · simp [hvers, rank, contribution, Change.isDelete]

theorem Tracked.supersedes_le (hrw : r ≠ w)
    (hnext : s.net.next r w = some c) (hdel : c.change.isDelete = false)
    (ht : ix.versions key (s.tables r) = [t]) (htie : TieByOrigin cfg ix key s (.deliver r w))
    (hsup : (cfg.session r w c).Supersedes t) :
    versionStamp cfg ts₀ r t ≤ stamp c.commitTs (cfg.nodeSeqId w) := by
  have hts₀ : ts₀ < c.commitTs :=
    (h.logged w c (List.mem_of_getElem? hnext)).1
  by_cases horigin : t.nodeId = some w
  · -- The stored version was written by the sender, whose log has increasing timestamps.
    refine (stamp_lt_of_ts_lt ?_ _ _).le
    rcases h.source r t (by simp [ht]) with ⟨-, hts⟩ | ⟨c', hc', -, -, -, hts, -⟩
    · omega
    · rw [horigin, Option.getD_some] at hc'
      have hlt : c'.commitTs < c.commitTs :=
        Net.rel_next_of_pairwise (R := fun c c' => c.commitTs < c'.commitTs) (h.sorted w) hrw
          hnext hc'
      omega
  · rcases hsup with hsame | hlt | ⟨heq, hseq⟩
    · exact absurd hsame horigin
    · exact (stamp_lt_of_ts_lt hlt _ _).le
    · have heq' : t.commitTs = c.commitTs := heq
      have hcmp := htie c hnext hdel t (by simp [ht]) heq' horigin
      have hnot : ¬ cfg.nodeSeqId r < cfg.nodeSeqId w := not_lt.mpr (le_of_lt hseq)
      rw [versionStamp, heq', if_neg (by omega), stamp_le_iff_of_ts_eq]
      exact not_lt.mp fun hlt => hnot (hcmp.mpr hlt)

theorem Tracked.keeps_le (hnext : s.net.next r w = some c)
    (hdel : c.change.isDelete = false) (ht : ix.versions key (s.tables r) = [t])
    (htie : TieByOrigin cfg ix key s (.deliver r w)) (hkeep : (cfg.session r w c).Keeps t) :
    stamp c.commitTs (cfg.nodeSeqId w) ≤ versionStamp cfg ts₀ r t := by
  have hts₀ : ts₀ < c.commitTs :=
    (h.logged w c (List.mem_of_getElem? hnext)).1
  obtain ⟨horigin, hlt | ⟨heq, hseq⟩⟩ := hkeep
  · exact (stamp_lt_of_ts_lt hlt _ _).le
  · have heq' : t.commitTs = c.commitTs := heq
    have hcmp := htie c hnext hdel t (by simp [ht]) heq' horigin
    rw [versionStamp, heq', if_neg (by omega), stamp_le_iff_of_ts_eq]
    exact (hcmp.mp hseq).le

variable {old : Option (List (Datum D))} {out : Applied ν D} (hix : cfg.rel.identityIndex = some ix)
include hix

theorem Tracked.deliverUpdate (hrw : r ≠ w) (hnext : s.net.next r w = some ⟨ts, .update old new⟩)
    (htie : TieByOrigin cfg ix key s (.deliver r w))
    (hwhole : MergesWhole cfg ix key s (.deliver r w))
    (hsound : Sound cfg ix ⟨Function.update s.tables r out.rows, s.net.advance r w⟩)
    (hreplay : cfg.replay r w ⟨ts, .update old new⟩ (s.tables r) = .ok out) :
    Tracked cfg ix key row₀ ts₀ ⟨Function.update s.tables r out.rows, s.net.advance r w⟩ := by
  obtain ⟨hts₀, hscan, hkey⟩ := h.logged w _ (List.mem_of_getElem? hnext)
  have hwf := h.wellFormed w _ (List.mem_of_getElem? hnext)
  have hsame : ∀ u ∈ ix.versions key (s.tables r),
      FromHistory row₀ ts₀ (s.net.advance r w) r u := fun u hu =>
    (h.source r u hu).mono fun v => Net.seenBy_subset_advance hrw hnext r v
  have hcases := Config.replay_update hix hwf hreplay
  rw [hscan] at hcases
  rcases hcases with ⟨hnone, hrows⟩ | ⟨tid, t, hfind, ⟨hsup, hupd⟩ | ⟨hkeep, hrows⟩⟩
  · -- A missing row stays missing.
    have hvers := Index.findPkeyTuple_eq_none.mp hnone
    rw [hrows] at hsound ⊢
    refine h.delivery hrw hnext hsound hsame Or.inr ?_
    rw [hvers, rank, sup_top_eq]
  · obtain ⟨hmem, hnull, -⟩ := Index.of_findPkeyTuple hfind
    have ht := h.versions_eq hfind
    have hlen : t.values.length = new.length :=
      ((h.valid r).shape t hmem).length_eq.symm.trans hwf.2.length_eq
    have hrow : heapModifyTuple t.values (transferred cfg.rel.desc new) = new.map Datum.value :=
      heapModifyTuple_eq_value hwf.2 hlen
        (hwhole _ hnext new rfl t (by simp [ht]) hsup)
    rw [hrow] at hupd
    have hsel : ix.selects key (⟨new.map Datum.value, ts, some w⟩ : StoredTuple ν D) = true :=
      Index.selects_iff.mpr ⟨hnull, hkey⟩
    have hvers := Relation.versions_updateTuple hfind ht hsel hupd
    have hle := h.supersedes_le hrw hnext rfl ht htie hsup
    refine h.delivery hrw hnext hsound ?_ (by simp [hvers]) ?_
    · intro u hu
      obtain rfl : u = _ := by simpa [hvers] using hu
      exact Or.inr ⟨_, Net.mem_seenBy_advance hrw hnext, old, new, rfl, rfl, rfl⟩
    · have hne : ts ≠ ts₀ := ne_of_gt hts₀
      rw [ht, hvers, sup_eq_left.mpr (by simpa [rank, contribution, Change.isDelete] using hle)]
      simp [rank, versionStamp, contribution, Change.isDelete, hne]
  · have ht := h.versions_eq hfind
    have hle := h.keeps_le hnext rfl ht htie hkeep
    rw [hrows] at hsound ⊢
    refine h.delivery hrw hnext hsound hsame Or.inr ?_
    rw [ht, sup_eq_right.mpr (by simpa [rank, contribution, Change.isDelete] using hle)]

theorem Tracked.deliverDelete (hrw : r ≠ w) (hnext : s.net.next r w = some ⟨ts, .delete old⟩)
    (hsound : Sound cfg ix ⟨Function.update s.tables r out.rows, s.net.advance r w⟩)
    (hreplay : cfg.replay r w ⟨ts, .delete old⟩ (s.tables r) = .ok out) :
    Tracked cfg ix key row₀ ts₀ ⟨Function.update s.tables r out.rows, s.net.advance r w⟩ := by
  obtain ⟨-, hscan, -⟩ := h.logged w _ (List.mem_of_getElem? hnext)
  have hwf := h.wellFormed w _ (List.mem_of_getElem? hnext)
  have hcases := Config.replay_delete hix hwf hreplay
  rw [hscan] at hcases
  have hvers : ix.versions key out.rows = [] := by
    rcases hcases with ⟨hnone, hrows⟩ | ⟨tid, t, hfind, hrows⟩
    · rw [hrows]
      exact Index.findPkeyTuple_eq_none.mp hnone
    · rw [hrows]
      exact (h.valid r).versions_eraseIdx_eq_nil hfind
  refine h.delivery hrw hnext hsound (by simp [hvers]) (fun _ => Or.inl rfl) ?_
  rw [hvers, rank, contribution, Change.isDelete, if_pos rfl, top_sup_eq]

theorem Tracked.step {a : Action ν D} (hok : RowStep cfg ix key s a)
    (hstep : cfg.step s a = some s') :
    Tracked cfg ix key row₀ ts₀ s' := by
  have hplain : ix.expressions = [] := (cfg.rel.identity_plain ix hix).2
  obtain ⟨hwrite, htie, hwhole⟩ := hok
  cases a with
  | insert i ts new => exact hwrite.elim
  | update i ts k new =>
    obtain ⟨rfl, hkey, hts⟩ := hwrite
    exact h.localUpdate hix hplain hkey hts hstep
  | delete i ts k =>
    obtain ⟨rfl, hts⟩ := hwrite
    exact h.localDelete hix hplain hts hstep
  | deliver r w =>
    have hsound : Sound cfg ix s' := h.toSound.step hix hstep
    obtain ⟨hrw, ⟨ts, change⟩, out, hnext, hreplay, rfl⟩ := Config.deliver_cases hstep
    cases change with
    | insert new => exact (h.logged w _ (List.mem_of_getElem? hnext)).2.2.elim
    | update old new => exact h.deliverUpdate hix hrw hnext htie hwhole hsound hreplay
    | delete old => exact h.deliverDelete hix hrw hnext hsound hreplay

end

theorem InitialRow.tracked (h : InitialRow cfg ix key row₀ ts₀ s) :
    Tracked cfg ix key row₀ ts₀ s := by
  obtain ⟨hnet, hvalid, hrow⟩ := h
  have hrank : (fun r => rank cfg ts₀ r (ix.versions key (s.tables r))) =
      fun _ => (stamp ts₀ 0 : WithTop Stamp) := by
    funext r
    obtain ⟨o, ho⟩ := hrow r
    simp [ho, rank, versionStamp]
  have hsound : Sound cfg ix s :=
    ⟨by rw [hnet]; exact Net.bounded_empty, hvalid, by simp [hnet], by simp [hnet]⟩
  refine ⟨hsound, by simp [hnet], by simp [hnet], ?_, ?_, ?_⟩
  · intro r t ht
    obtain ⟨o, ho⟩ := hrow r
    obtain rfl : t = _ := by simpa [ho] using ht
    exact Or.inl ⟨rfl, rfl⟩
  · intro r hempty
    obtain ⟨o, ho⟩ := hrow r
    simp [ho] at hempty
  · rw [hrank, hnet]
    exact Net.Joined.empty

theorem tracked_of_reach (hix : cfg.rel.identityIndex = some ix)
    (hs : Reach (InitialRow cfg ix key row₀ ts₀) cfg.step (RowStep cfg ix key) s) :
    Tracked cfg ix key row₀ ts₀ s :=
  hs.invariant (fun _ h => h.tracked) fun _ _ _ _ h hok hstep => h.step hix hok hstep

section

variable (h : Tracked cfg ix key row₀ ts₀ s)
include h

theorem Tracked.versions_eq_nil (hsettled : s.net.Settled)
    (hc : c ∈ s.net.log w) (hdel : c.change.isDelete = true) (r : ν) :
    ix.versions key (s.tables r) = [] := by
  have hle := h.joined.le (r := r) (by rwa [hsettled.seenBy_eq] : c ∈ s.net.seenBy r w)
  rw [contribution, if_pos hdel] at hle
  cases hv : ix.versions key (s.tables r) with
  | nil => rfl
  | cons t rest => simp [hv, rank] at hle

theorem Tracked.versions_cases (r : ν) :
    ix.versions key (s.tables r) = [] ∨ ∃ t, ix.versions key (s.tables r) = [t] := by
  rcases Nat.le_one_iff_eq_zero_or_eq_one.mp ((h.valid r).unique key) with hlen | hlen
  · exact .inl (List.length_eq_zero_iff.mp hlen)
  · exact .inr (List.length_eq_one_iff.mp hlen)

theorem Tracked.exists_version (hsettled : s.net.Settled)
    (hdel : ∀ w, ∀ c ∈ s.net.log w, c.change.isDelete = false) (r : ν) :
    ∃ t, ix.versions key (s.tables r) = [t] ∧ FromHistory row₀ ts₀ s.net r t ∧
      ∀ w, ∀ c ∈ s.net.log w, c.commitTs ≤ t.commitTs := by
  rcases h.versions_cases r with hv | ⟨t, hv⟩
  · obtain ⟨w, c, hc, hc'⟩ := h.missing r hv
    simp [hdel w c (s.net.seenBy_subset r w hc)] at hc'
  · refine ⟨t, hv, h.source r t (by simp [hv]), fun w c hc => ?_⟩
    have hseen : c ∈ s.net.seenBy r w := by rwa [hsettled.seenBy_eq]
    exact ts_le_of_stamp_le (h.stamp_le hv hseen).2

theorem Tracked.eq_of_commitTs_eq {c' : Commit D}
    (hc : c ∈ s.net.log w) (hc' : c' ∈ s.net.log w) (hts : c.commitTs = c'.commitTs) : c = c' := by
  obtain ⟨i, hi, rfl⟩ := List.getElem_of_mem hc
  obtain ⟨j, hj, rfl⟩ := List.getElem_of_mem hc'
  have hsorted := List.pairwise_iff_getElem.mp (h.sorted w)
  rcases lt_trichotomy i j with hij | rfl | hij
  · have := hsorted i j hi hj hij
    omega
  · rfl
  · have := hsorted j i hj hi hij
    omega

theorem Tracked.version_unique_of_rank
    (hwriter : ∀ u u', ∀ c ∈ s.net.log u, ∀ c' ∈ s.net.log u', c.commitTs = c'.commitTs →
      cfg.nodeSeqId u = cfg.nodeSeqId u' → u = u') {r' : ν} {t' : StoredTuple ν D}
    (ht : ix.versions key (s.tables r) = [t]) (ht' : ix.versions key (s.tables r') = [t'])
    (hrank : rank cfg ts₀ r [t] = rank cfg ts₀ r' [t']) :
    t.values = t'.values ∧ t.commitTs = t'.commitTs := by
  obtain ⟨hts, hseq⟩ := Prod.mk.inj (toLex_inj.mp (WithTop.coe_inj.mp hrank))
  rcases h.source r t (by simp [ht]) with ⟨hval, hinit⟩ | ⟨c, hc, old, new, hch, hcts, hval⟩
  · rcases h.source r' t' (by simp [ht']) with ⟨hval', -⟩ | ⟨c', hc', -, -, -, hcts', -⟩
    · exact ⟨hval.trans hval'.symm, hts⟩
    · have := (h.logged _ c' (s.net.seenBy_subset _ _ hc')).1
      omega
  · have hlater := (h.logged _ c (s.net.seenBy_subset _ _ hc)).1
    rcases h.source r' t' (by simp [ht']) with
      ⟨-, hinit'⟩ | ⟨c', hc', old', new', hch', hcts', hval'⟩
    · omega
    · have hmem := s.net.seenBy_subset _ _ hc
      have hmem' := s.net.seenBy_subset _ _ hc'
      have hne : t.commitTs ≠ ts₀ := by omega
      have hne' : t'.commitTs ≠ ts₀ := by omega
      simp only [hne, hne', if_false, OrderDual.toDual_inj] at hseq
      have hu := hwriter _ _ c hmem c' hmem' (by omega) hseq
      rw [← hu] at hmem'
      -- The writer's log has one transaction with this timestamp.
      obtain rfl : c = c' := h.eq_of_commitTs_eq hmem hmem' (by omega)
      obtain ⟨-, rfl⟩ := Change.update.inj (hch.symm.trans hch')
      exact ⟨hval.symm.trans hval', hts⟩

theorem Tracked.version_unique (hsettled : s.net.Settled)
    (hwriter : ∀ u u', ∀ c ∈ s.net.log u, ∀ c' ∈ s.net.log u', c.commitTs = c'.commitTs →
      cfg.nodeSeqId u = cfg.nodeSeqId u' → u = u') {r' : ν} {t' : StoredTuple ν D}
    (ht : ix.versions key (s.tables r) = [t]) (ht' : ix.versions key (s.tables r') = [t']) :
    t.values = t'.values ∧ t.commitTs = t'.commitTs :=
  h.version_unique_of_rank hwriter ht ht' (ht ▸ ht' ▸ h.joined.eq_of_settled hsettled r r')

end

end Pgactive
