import Pgactive.Membership.Nodes

/-!
# The limit on the number of nodes

A joining node compares `pgactive.max_nodes` with the nodes that its target shows when it begins.
Its row is inserted by `pgactive_sync_nodes`, where nothing is compared, so that two nodes that
begin before either has inserted its row exceed the limit.
-/

namespace Pgactive.Membership

open BroadcastLog Transition

variable {ν : Type}

def Stage.curNodes : Stage ν → Option ℕ
  | .begun _ c | .copying _ c => some c
  | _ => none

def Group.Shows (s : Group ν) (i n : ν) : Prop :=
  (s.table i).live n = true ∨
    ∃ p, p ≠ i ∧ s.slot i p = true ∧ ∃ c ∈ s.net.unread i p, c.node = n ∧ c.row.live = true

def Group.Receives (s : Group ν) (i t : ν) : Prop :=
  i = t ∨ (s.stage i).member = true ∧ s.slot i t = true

/-- The number counted by a joining node stands for these other nodes, or the limit leaves
room for it anyway. -/
def Config.Covers (cfg : Config ν) (curNodes : ℕ) (others : Finset ν) : Prop :=
  others.card ≤ curNodes ∨ others.card < cfg.maxNodes

variable [DecidableEq ν]

instance [Fintype ν] (s : Group ν) (i n : ν) : Decidable (s.Shows i n) :=
  inferInstanceAs (Decidable (_ ∨ _))

instance (s : Group ν) (i t : ν) : Decidable (s.Receives i t) :=
  inferInstanceAs (Decidable (_ ∨ _))

instance (cfg : Config ν) (c : ℕ) (others : Finset ν) : Decidable (cfg.Covers c others) :=
  inferInstanceAs (Decidable (_ ∨ _))

variable {n k : ν}

theorem Table.live_set {tbl : Table ν} {row : NodeRow} (h : (tbl.set n row).live k = true) :
    tbl.live k = true ∨ k = n ∧ row.live = true := by
  by_cases hk : k = n
  · subst hk
    simp only [live, set_self, Option.any_some] at h
    exact .inr ⟨rfl, h⟩
  · rw [live, set_of_ne _ hk] at h
    exact .inl h

variable {s : Group ν} {t i : ν}

theorem Group.shows_of_commit {c : RowChange ν} (h : (s.commit t c).Shows i n) :
    s.Shows i n ∨ n = c.node ∧ c.row.live = true ∧ (i = t ∨ s.slot i t = true) := by
  rcases h with h | ⟨p, hpi, hslot, c', hc', hnode, hlive⟩
  · by_cases hi : i = t
    · subst hi
      rw [s.commit_table_self] at h
      rcases Table.live_set h with h | ⟨rfl, hlive⟩
      · exact .inl (.inl h)
      · exact .inr ⟨rfl, hlive, .inl rfl⟩
    · rw [s.commit_table_of_ne hi] at h
      exact .inl (.inl h)
  · rcases Net.mem_unread_append hc' with hold | ⟨rfl, hnew⟩
    · exact .inl (.inr ⟨p, hpi, hslot, c', hold, hnode, hlive⟩)
    · obtain rfl := List.mem_singleton.mp hnew
      exact .inr ⟨hnode.symm, hlive, .inr hslot⟩

variable {s' : Group ν} {p : ν}

theorem Group.shows_of_replay {wins : Bool} (hstep : s.replay i p wins = some s')
    (h : s'.Shows k n) : s.Shows k n := by
  obtain ⟨hip, hslot, -, c, hnext, rfl⟩ := replay_cases hstep
  rcases h with h | ⟨p', hp', hslot', c', hc', hnode, hlive⟩
  · by_cases hk : k = i
    · subst hk
      replace h : ((s.table k).replay c wins).live n = true := by
        simpa only [setTable_self] using h
      rcases (s.table k).replay_cases c wins with hsame | hset
      · rw [hsame] at h
        exact .inl h
      · rw [hset] at h
        rcases Table.live_set h with h | ⟨rfl, hlive⟩
        · exact .inl h
        · have hc : c ∈ s.net.unread k p := by
            rw [Net.unread_of_next hnext]
            exact List.mem_cons_self
          exact .inr ⟨p, Ne.symm hip, hslot, c, hc, rfl, hlive⟩
    · rw [s.setTable_of_ne hk] at h
      exact .inl h
  · exact .inr ⟨p', hp', hslot', c', Net.mem_unread_of_mem_advance hnext hc', hnode, hlive⟩

theorem Group.shows_of_connectBack (hstep : s.connectBack i p = some s') (h : s'.Shows k n) :
    s.Shows k n := by
  obtain rfl := connectBack_cases hstep
  rcases h with h | ⟨p', hp', hslot', c, hc, hnode, hlive⟩
  · exact .inl h
  · replace hc : c ∈ (s.net.seek i p (s.net.log p).length).unread k p' := hc
    by_cases hsame : k = i ∧ p' = p
    · obtain ⟨rfl, rfl⟩ := hsame
      simp [Net.unread] at hc
    · rw [setSlot_of_ne _ (by tauto)] at hslot'
      rw [s.net.unread_seek_of_ne (by tauto)] at hc
      exact .inr ⟨p', hp', hslot', c, hc, hnode, hlive⟩

theorem Group.shows_of_dropSlot (hstep : s.dropSlot p i = some s') (h : s'.Shows k n) :
    s.Shows k n := by
  obtain rfl := dropSlot_cases hstep
  rcases h with h | ⟨p', hp', hslot', c, hc, hnode, hlive⟩
  · exact .inl h
  · by_cases hsame : k = i ∧ p' = p
    · obtain ⟨rfl, rfl⟩ := hsame
      simp at hslot'
    · rw [s.setSlot_of_ne (by tauto)] at hslot'
      exact .inr ⟨p', hp', hslot', c, hc, hnode, hlive⟩

variable {j : ν}

theorem Group.shows_of_takeSlot {tbl : Table ν} (hij : i ≠ j)
    (h : ((s.setTable j tbl).takeSlot j t).Shows i n) : s.Shows i n := by
  rcases h with h | ⟨p, hp, hslot, c, hc, hnode, hlive⟩
  · exact .inl (by rwa [takeSlot, s.setTable_of_ne hij] at h)
  · refine .inr ⟨p, hp, ?_, c, ?_, hnode, hlive⟩
    · simpa [takeSlot, setTable, hij] using hslot
    · simpa [takeSlot, setTable, Net.unread, hij] using hc

theorem Group.shows_of_syncNodes {row : NodeRow}
    (h : ((s.setTable j ((s.table t).copyTo (s.table j) j)).commit t ⟨j, row, true⟩).Shows i n)
    (hn : n ≠ j) : s.Shows i n ∨ i = j ∧ s.Shows t n := by
  rcases shows_of_commit h with (h | h) | ⟨rfl, -⟩
  · by_cases hi : i = j
    · subst hi
      rw [s.setTable_self] at h
      refine .inr ⟨rfl, .inl ?_⟩
      obtain ⟨row, hrow, hlive⟩ := (Option.any_eq_true _ _).mp h
      rw [Table.copyTo, if_neg hn, Option.filter_eq_some_iff] at hrow
      rw [Table.live, hrow.1]
      exact hlive
    · rw [s.setTable_of_ne hi] at h
      exact .inl (.inl h)
  · exact .inl (.inr h)
  · exact (hn rfl).elim

variable {cfg : Config ν}

theorem Config.Covers.card_le {c : ℕ} {others shown : Finset ν}
    (h : cfg.Covers c (others.erase j)) (hc : c < cfg.maxNodes)
    (hsub : ∀ n ∈ shown, n ≠ j → n ∈ others) : shown.card ≤ cfg.maxNodes := by
  have herase : shown.erase j ⊆ others.erase j := fun n hn =>
    Finset.mem_erase.mpr ⟨(Finset.mem_erase.mp hn).1,
      hsub n (Finset.mem_erase.mp hn).2 (Finset.mem_erase.mp hn).1⟩
  have hcard : shown.card - 1 ≤ (others.erase j).card :=
    Finset.pred_card_le_card_erase.trans (Finset.card_le_card herase)
  rcases h with h | h <;> omega

variable [Fintype ν]

def Group.shown (s : Group ν) (i : ν) : Finset ν := Finset.univ.filter fun n => s.Shows i n

@[simp] theorem Group.mem_shown : n ∈ s.shown i ↔ s.Shows i n := by
  simp [shown]

/-- The condition on a step: the number counted by a joining node is not outdated for any node
that gets its row, and its row is made ready only where it is shown. -/
def Group.CountStays (cfg : Config ν) (s : Group ν) : Action ν → Prop
  | .syncNodes j => ∀ t ∈ (s.stage j).target, ∀ c ∈ (s.stage j).curNodes,
      cfg.Covers c ((s.shown t ∪ s.shown j).erase j) ∧
        ∀ i, s.Receives i t → cfg.Covers c ((s.shown i).erase j)
  | .setRemoteStatusReady j => ∀ t ∈ (s.stage j).target, ∀ i, s.Receives i t → s.Shows i j
  | _ => True

instance (cfg : Config ν) (s : Group ν) (a : Action ν) : Decidable (s.CountStays cfg a) := by
  rcases a <;> unfold Group.CountStays <;> infer_instance

/-- The counts passed the comparison, and no member shows or is about to show more nodes than
the limit. -/
structure Group.Counted (cfg : Config ν) (s : Group ν) : Prop where
  staged : s.Staged
  counts : ∀ j, ∀ c ∈ (s.stage j).curNodes, c < cfg.maxNodes
  bound : ∀ i, (s.stage i).member = true → (s.shown i).card ≤ cfg.maxNodes

theorem Group.Counted.bound_of_shows (h : s.Counted cfg)
    (hmember : ∀ i, (s'.stage i).member = true → (s.stage i).member = true)
    (hshows : ∀ i n, (s.stage i).member = true → s'.Shows i n → s.Shows i n) (i : ν)
    (hi : (s'.stage i).member = true) : (s'.shown i).card ≤ cfg.maxNodes := by
  refine le_trans (Finset.card_le_card fun n hn => ?_) (h.bound i (hmember i hi))
  exact mem_shown.mpr (hshows i n (hmember i hi) (mem_shown.mp hn))

theorem Group.Counted.syncNodes (h : s.Counted cfg) (hok : s.CountStays cfg (.syncNodes j))
    (hstep : s.syncNodes j = some s') (i : ν) (hi : (s'.stage i).member = true) :
    (s'.shown i).card ≤ cfg.maxNodes := by
  obtain ⟨t, c, row, hstage, -, -, -, htj, rfl⟩ := syncNodes_cases hstep
  obtain ⟨hown, hothers⟩ := hok t (by rw [hstage]; rfl) c (by rw [hstage]; rfl)
  have hc : c < cfg.maxNodes := h.counts j c (by rw [hstage]; rfl)
  by_cases hij : i = j
  · subst hij
    refine hown.card_le hc fun n hn hne => ?_
    rcases shows_of_syncNodes (mem_shown.mp hn) hne with hold | ⟨-, ht⟩
    · exact Finset.mem_union_right _ (mem_shown.mpr hold)
    · exact Finset.mem_union_left _ (mem_shown.mpr ht)
  · have hmember : (s.stage i).member = true := by rwa [setStage_of_ne _ hij] at hi
    by_cases hreceives : s.Receives i t
    · refine (hothers i hreceives).card_le hc fun n hn hne => ?_
      rcases shows_of_syncNodes (mem_shown.mp hn) hne with hold | ⟨rfl, -⟩
      · exact mem_shown.mpr hold
      · exact (hij rfl).elim
    · -- The row of `j` does not come to this node.
      refine le_trans (Finset.card_le_card fun n hn => ?_) (h.bound i hmember)
      rcases shows_of_commit (mem_shown.mp hn) with (hold | hold) | ⟨-, -, hit⟩
      · rw [s.setTable_of_ne hij] at hold
        exact mem_shown.mpr (.inl hold)
      · exact mem_shown.mpr (.inr hold)
      · exact (hreceives (hit.imp_right fun hslot => ⟨hmember, hslot⟩)).elim

theorem Group.shows_of_setRemoteStatusReady (hok : s.CountStays cfg (.setRemoteStatusReady j))
    (hstep : s.setRemoteStatusReady cfg j = some s') (hi : (s.stage i).member = true)
    (h : s'.Shows i n) : s.Shows i n := by
  obtain ⟨t, hstage, -, rfl⟩ := setRemoteStatusReady_cases hstep
  rcases shows_of_commit h with hold | ⟨rfl, -, hit⟩
  · exact hold
  · exact hok t (by rw [hstage]; rfl) i (hit.imp_right fun hslot => ⟨hi, hslot⟩)

section

variable (h : s.Counted cfg)
include h

theorem Group.Counted.counts_setStage {s₁ : Group ν}
    (hs₁ : s₁.stage = s.stage) {stage : Stage ν} (hnew : ∀ c ∈ stage.curNodes, c < cfg.maxNodes)
    (k : ν) : ∀ c ∈ ((s₁.setStage j stage).stage k).curNodes, c < cfg.maxNodes := by
  by_cases hkj : k = j
  · subst hkj
    rwa [setStage_self]
  · rw [setStage_of_ne _ hkj, hs₁]
    exact h.counts k

theorem Group.Counted.liveNodes_lt (ht : (s.stage t).member = true)
    (hne : cfg.maxNodes ≠ (s.table t).liveNodes.card) :
    (s.table t).liveNodes.card < cfg.maxNodes := by
  have hsub : (s.table t).liveNodes ⊆ s.shown t := fun n hn =>
    mem_shown.mpr (.inl (by simpa [Table.liveNodes] using hn))
  have hle := (Finset.card_le_card hsub).trans (h.bound t ht)
  omega

theorem Group.Counted.beginJoin (hstaged : s'.Staged)
    (hstep : s.beginJoin cfg j t = some s') : s'.Counted cfg := by
  obtain ⟨hout, ⟨row, hrow, hready⟩, hne, rfl⟩ := beginJoin_cases hstep
  have ht : (s.stage t).member = true := h.staged.member_of_ready hrow hready
  refine ⟨hstaged, h.counts_setStage rfl fun c hc => ?_, h.bound_of_shows (fun i hi => ?_) ?_⟩
  · cases hc
    exact h.liveNodes_lt ht hne
  · exact member_of_setStage (fun hmember => by cases hmember) hi
  · intro i n hi hshows
    have hij : i ≠ j := by
      rintro rfl
      simp [hout, Stage.member] at hi
    refine hshows.imp_left fun hlive => ?_
    rwa [setStage, s.setTable_of_ne hij] at hlive

theorem Group.Counted.establishSlot (hstaged : s'.Staged)
    (hstep : s.establishSlot j = some s') : s'.Counted cfg := by
  obtain ⟨t, c, row, hstage, -, rfl⟩ := establishSlot_cases hstep
  refine ⟨hstaged, h.counts_setStage rfl fun c' hc' => ?_,
    h.bound_of_shows (fun i hi => ?_) fun i n hi hshows => ?_⟩
  · exact h.counts j c' (by rw [hstage]; exact hc')
  · exact member_of_setStage (fun hmember => by cases hmember) hi
  · refine shows_of_takeSlot ?_ hshows
    rintro rfl
    simp [hstage, Stage.member] at hi

theorem Group.Counted.setRemoteStatusReady (hok : s.CountStays cfg (.setRemoteStatusReady j))
    (hstaged : s'.Staged)
    (hstep : s.setRemoteStatusReady cfg j = some s') : s'.Counted cfg := by
  have hshows : ∀ i n, (s.stage i).member = true → s'.Shows i n → s.Shows i n :=
    fun i n hi => shows_of_setRemoteStatusReady hok hstep hi
  obtain ⟨t, hstage, -, rfl⟩ := setRemoteStatusReady_cases hstep
  refine ⟨hstaged, h.counts_setStage rfl fun c hc => (by cases hc),
    h.bound_of_shows (fun i hi => ?_) hshows⟩
  have hmember : (s.stage j).member = true := by
    rw [hstage]
    rfl
  exact member_of_setStage (fun _ => hmember) hi

theorem Group.Counted.step {a : Action ν} (hok : s.CountStays cfg a)
    (hstep : s.step cfg a = some s') : s'.Counted cfg := by
  have hstaged : s'.Staged := h.staged.step hstep
  cases a with
  | beginJoin j t => exact h.beginJoin hstaged hstep
  | establishSlot j => exact h.establishSlot hstaged hstep
  | syncNodes j =>
    have hbound := h.syncNodes hok hstep
    obtain ⟨t, c, row, -, -, -, -, -, rfl⟩ := syncNodes_cases hstep
    exact ⟨hstaged, h.counts_setStage rfl fun c hc => (by cases hc), hbound⟩
  | setRemoteStatusReady j => exact h.setRemoteStatusReady hok hstaged hstep
  | detachNodes u n =>
    obtain ⟨row, -, rfl⟩ := detachNodes_cases hstep
    refine ⟨hstaged, h.counts, h.bound_of_shows (fun i hi => hi) fun i k hi hshows => ?_⟩
    rcases shows_of_commit hshows with hold | ⟨-, hlive, -⟩
    · exact hold
    · simp [NodeRow.live] at hlive
  | connectBack i p =>
    have hshows := fun k n (_ : (s.stage k).member = true) =>
      shows_of_connectBack (k := k) (n := n) hstep
    obtain rfl := connectBack_cases hstep
    exact ⟨hstaged, h.counts, h.bound_of_shows (fun k hk => hk) hshows⟩
  | dropSlot p i =>
    have hshows := fun k n (_ : (s.stage k).member = true) =>
      shows_of_dropSlot (k := k) (n := n) hstep
    obtain rfl := dropSlot_cases hstep
    exact ⟨hstaged, h.counts, h.bound_of_shows (fun k hk => hk) hshows⟩
  | replay i p wins =>
    have hshows := fun k n (_ : (s.stage k).member = true) =>
      shows_of_replay (k := k) (n := n) hstep
    obtain ⟨-, -, -, c, -, rfl⟩ := replay_cases hstep
    exact ⟨hstaged, h.counts, h.bound_of_shows (fun k hk => hk) hshows⟩

end

theorem Group.standalone_counted (hmax : 1 ≤ cfg.maxNodes) (f : ν) :
    (standalone f).Counted cfg := by
  refine ⟨standalone_staged f, fun j c hc => ?_, fun i _ => ?_⟩
  · by_cases hj : j = f <;> simp [standalone, hj, Stage.curNodes] at hc
  · have hsub : (standalone f).shown i ⊆ {f} := fun n hn => by
      rcases mem_shown.mp hn with hlive | ⟨p, -, hslot, -⟩
      · obtain ⟨row, hrow, -⟩ := (Option.any_eq_true _ _).mp hlive
        by_contra hne
        simp [standalone, Finset.mem_singleton.not.mp hne] at hrow
      · cases hslot
    exact (Finset.card_le_card hsub).trans (by simpa using hmax)

/-- As long as no count is outdated when a row is inserted, no node's table holds more than
`pgactive.max_nodes` nodes that are not killed. -/
theorem nodeLimit {cfg : Config ν} (hmax : 1 ≤ cfg.maxNodes) {f : ν} {s : Group ν}
    (hs : Reach (· = Group.standalone f) (Group.step cfg) (Group.CountStays cfg) s) (i : ν) :
    (s.table i).liveNodes.card ≤ cfg.maxNodes := by
  have hcounted : s.Counted cfg :=
    Reach.invariant (by rintro _ rfl; exact Group.standalone_counted hmax f)
      (fun _ _ _ _ h hok hstep => h.step hok hstep) hs
  by_cases hi : (s.stage i).member = true
  · refine le_trans (Finset.card_le_card fun n hn => ?_) (hcounted.bound i hi)
    exact Group.mem_shown.mpr (.inl (by simpa [Table.liveNodes] using hn))
  · -- The table holds at most the row of the node itself.
    have hsub : (s.table i).liveNodes ⊆ {i} := fun n hn => by
      obtain ⟨row, hrow, -⟩ := (Option.any_eq_true _ _).mp (Finset.mem_filter.mp hn).2
      exact Finset.mem_singleton.mpr
        (hcounted.staged.alone i n row (by simpa using hi) hrow).1
    exact (Finset.card_le_card hsub).trans (by simpa using hmax)

def concurrentJoins (a b c : ν) : List (Action ν) :=
  [.beginJoin b a, .beginJoin c a, .establishSlot b, .establishSlot c, .syncNodes b, .syncNodes c]

def twoNodes : Config (Fin 3) := ⟨2, false, fun _ _ => true⟩

/-- The limit is met by a group that is full. -/
theorem nodeLimit_joinThrough :
    ∃ s, Reach (· = Group.standalone (0 : Fin 3)) (Group.step twoNodes)
        (Group.CountStays twoNodes) s ∧
      (s.table 1).liveNodes.card = 2 ∧ ∀ i, (s.table i).liveNodes.card ≤ twoNodes.maxNodes := by
  have hstart : Reach (· = Group.standalone (0 : Fin 3)) (Group.step twoNodes)
      (Group.CountStays twoNodes) (Group.standalone 0) := .init rfl
  obtain ⟨s, hs, hfull⟩ := hstart.exists_of_run (joinThrough 0 1)
    (fun s => (s.table 1).liveNodes.card = 2) (by decide +kernel)
  exact ⟨s, hs, hfull, nodeLimit (by decide) hs⟩

/-- Two concurrent joins put three nodes into a group of at most two. -/
theorem nodeLimit_exceeded :
    ∃ s, Reach (· = Group.standalone (0 : Fin 3)) (Group.step twoNodes) (fun _ _ => True) s ∧
      twoNodes.maxNodes < (s.table 0).liveNodes.card := by
  have hstart : Reach (· = Group.standalone (0 : Fin 3)) (Group.step twoNodes) (fun _ _ => True)
      (Group.standalone 0) := .init rfl
  exact hstart.exists_of_run (concurrentJoins 0 1 2)
    (fun s => twoNodes.maxNodes < (s.table 0).liveNodes.card) (by decide +kernel)

end Pgactive.Membership
