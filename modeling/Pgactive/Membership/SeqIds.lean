import Pgactive.Membership.Nodes

/-!
# Unique sequence identifiers

The lowest `node_seq_id` that no row of the target uses is unique as long as the target shows the
identifiers of all nodes that are not killed. The global DDL lock is meant to ensure this; with
`pgactive.skip_ddl_replication` it is not taken.
-/

namespace Pgactive.Membership

open BroadcastLog Transition

variable {ν : Type}

def Group.HasRow (s : Group ν) (n : ν) (row : NodeRow) : Prop :=
  (∃ i, s.table i n = some row) ∨ ∃ p, ∃ c ∈ s.net.log p, c.node = n ∧ c.row = row

def Group.HoldsId (s : Group ν) (n : ν) (x : ℕ) : Prop :=
  ∃ row, s.HasRow n row ∧ row.seqId = some x

def Group.Killed (s : Group ν) (n : ν) : Prop :=
  ∃ i, (s.table i n).any (fun row => row.status = .killed) = true

def Table.showsId (tbl : Table ν) (n : ν) (x : ℕ) : Bool :=
  (tbl n).any fun row => row.live && decide (row.seqId = some x)

/-- Identifiers are given only once, and only by the last step of a join. -/
structure Group.Numbered (s : Group ν) : Prop where
  staged : s.Staged
  pending : ∀ j x, s.stage j ≠ .finished → ¬s.HoldsId j x
  unique : ∀ a b x, s.HoldsId a x → s.HoldsId b x → ¬s.Killed a → ¬s.Killed b → a = b

variable {s s' : Group ν}

theorem Group.Numbered.keep (h : s.Numbered) (hstaged : s'.Staged)
    (hfinished : ∀ j, s.stage j = .finished → s'.stage j = .finished)
    (hids : ∀ n x, s'.HoldsId n x → s.HoldsId n x)
    (hkilled : ∀ n x, s.HoldsId n x → s.Killed n → s'.Killed n) : s'.Numbered := by
  refine ⟨hstaged, fun j x hj hx => ?_, fun a b x ha hb hna hnb => ?_⟩
  · exact h.pending j x (mt (hfinished j) hj) (hids j x hx)
  · exact h.unique a b x (hids a x ha) (hids b x hb) (mt (hkilled a x (hids a x ha)) hna)
      (mt (hkilled b x (hids b x hb)) hnb)

variable {j n : ν} {x : ℕ}

theorem Group.Numbered.ne_of_holdsId (h : s.Numbered) (hj : s.stage j ≠ .finished)
    (hx : s.HoldsId n x) : n ≠ j := by
  rintro rfl
  exact h.pending n x hj hx

variable [DecidableEq ν]

variable {i : ν} {tbl : Table ν}

theorem Group.holdsId_of_setTable
    (htbl : ∀ n row x, tbl n = some row → row.seqId = some x → s.HoldsId n x)
    (h : (s.setTable i tbl).HoldsId n x) : s.HoldsId n x := by
  obtain ⟨row, ⟨k, hrow⟩ | hlog, hx⟩ := h
  · by_cases hk : k = i
    · subst hk
      rw [s.setTable_self] at hrow
      exact htbl n row x hrow hx
    · rw [s.setTable_of_ne hk] at hrow
      exact ⟨row, .inl ⟨k, hrow⟩, hx⟩
  · exact ⟨row, .inr hlog, hx⟩

theorem Group.holdsId_of_commit {t : ν} {c : RowChange ν} (h : (s.commit t c).HoldsId n x) :
    s.HoldsId n x ∨ n = c.node ∧ c.row.seqId = some x := by
  obtain ⟨row, ⟨i, hrow⟩ | ⟨p, c', hc', rfl, rfl⟩, hx⟩ := h
  · by_cases hi : i = t
    · subst hi
      rw [s.commit_table_self] at hrow
      by_cases hn : n = c.node
      · subst hn
        rw [Table.set_self, Option.some.injEq] at hrow
        exact .inr ⟨rfl, hrow ▸ hx⟩
      · rw [Table.set_of_ne _ hn] at hrow
        exact .inl ⟨row, .inl ⟨i, hrow⟩, hx⟩
    · rw [s.commit_table_of_ne hi] at hrow
      exact .inl ⟨row, .inl ⟨i, hrow⟩, hx⟩
  · rcases Net.mem_log_append.mp hc' with hold | ⟨-, hnew⟩
    · exact .inl ⟨_, .inr ⟨p, c', hold, rfl, rfl⟩, hx⟩
    · obtain rfl := List.mem_singleton.mp hnew
      exact .inr ⟨rfl, hx⟩

theorem Group.holdsId_of_setOwn {row : NodeRow} (hnone : row.seqId = none)
    (h : (s.setTable j ((s.table j).set j row)).HoldsId n x) : s.HoldsId n x := by
  refine holdsId_of_setTable (fun n' row' x' hrow' hx' => ?_) h
  by_cases hn : n' = j
  · subst hn
    rw [Table.set_self, Option.some.injEq] at hrow'
    rw [← hrow', hnone] at hx'
    cases hx'
  · rw [Table.set_of_ne _ hn] at hrow'
    exact ⟨row', .inl ⟨j, hrow'⟩, hx'⟩

theorem Group.Killed.setTable (h : s.Killed n)
    (htbl : (s.table i n).any (fun row => row.status = .killed) = true →
      (tbl n).any (fun row => row.status = .killed) = true) : (s.setTable i tbl).Killed n := by
  obtain ⟨k, hk⟩ := h
  refine ⟨k, ?_⟩
  by_cases hki : k = i
  · subst hki
    rw [s.setTable_self]
    exact htbl hk
  · rwa [s.setTable_of_ne hki]

variable {k : ν}

theorem Table.set_any_of_ne (h : n ≠ k) (row : NodeRow) (p : NodeRow → Bool) :
    (tbl.set k row n).any p = (tbl n).any p := by
  rw [set_of_ne _ h]

theorem Group.Killed.setRow (h : s.Killed n) (hn : n ≠ k) (row : NodeRow) :
    (s.setTable i ((s.table i).set k row)).Killed n :=
  h.setTable fun hkilled => by rwa [Table.set_any_of_ne hn]

theorem Group.finished_setStage {s₁ : Group ν} (hs₁ : s₁.stage = s.stage) {stage : Stage ν}
    (hj : s.stage j ≠ .finished) (hk : s.stage k = .finished) :
    (s₁.setStage j stage).stage k = .finished := by
  have hkj : k ≠ j := by
    rintro rfl
    exact hj hk
  rwa [setStage_of_ne _ hkj, hs₁]

/-- The condition on a step: a join finishes through a target that shows the identifiers of all
nodes that are not killed, and no replayed change revives a killed node. -/
def Group.IdsShown (s : Group ν) : Action ν → Prop
  | .setRemoteStatusReady j => ∀ t ∈ (s.stage j).target, ∀ n, n ≠ j → ¬s.Killed n →
      ∀ row, s.HasRow n row → ∀ x ∈ row.seqId, (s.table t).showsId n x = true
  | .replay i p wins => ∀ c ∈ s.net.next i p, wins = true →
      (s.table i c.node).any (fun row => row.status = .killed) = true → c.row.status = .killed
  | _ => True

theorem Group.Killed.replay {p : ν} {wins : Bool} (h : s.Killed n)
    (hok : s.IdsShown (.replay i p wins)) (hstep : s.replay i p wins = some s') : s'.Killed n := by
  obtain ⟨-, -, -, c, hnext, rfl⟩ := replay_cases hstep
  refine setTable h fun hkilled => ?_
  by_cases hn : n = c.node
  · subst hn
    obtain ⟨row, hrow, -⟩ := (Option.any_eq_true _ _).mp hkilled
    unfold Table.replay
    rw [hrow]
    cases hwins : wins with
    | false => simpa using hkilled
    | true => simpa using hok c hnext hwins hkilled
  · rcases (s.table i).replay_cases c wins with hsame | hset
    · rwa [hsame]
    · rwa [hset, Table.set_any_of_ne hn]

theorem Group.standalone_numbered (f : ν) : (standalone f).Numbered := by
  have honly : ∀ n x, (standalone f).HoldsId n x → n = f := by
    rintro n x ⟨row, ⟨i, hrow⟩ | ⟨p, c, hc, -⟩, -⟩
    · by_contra hn
      simp [standalone, hn] at hrow
    · simp [standalone] at hc
  refine ⟨standalone_staged f, fun j x hj hx => ?_, fun a b x ha hb _ _ => ?_⟩
  · obtain rfl := honly j x hx
    simp [standalone] at hj
  · rw [honly a x ha, honly b x hb]

theorem Group.Numbered.setOwn (h : s.Numbered) {row : NodeRow} (hj : s.stage j ≠ .finished)
    (hnone : row.seqId = none) (hstaged : s'.Staged)
    (htable : s'.table = (s.setTable j ((s.table j).set j row)).table)
    (hlog : s'.net.log = s.net.log)
    (hfinished : ∀ k, s.stage k = .finished → s'.stage k = .finished) : s'.Numbered := by
  refine h.keep hstaged hfinished (fun n x hx => ?_) fun n x hx hk => ?_
  · simp only [HoldsId, HasRow, htable, hlog] at hx
    exact holdsId_of_setOwn hnone hx
  · have hset := hk.setRow (i := j) (h.ne_of_holdsId hj hx) row
    simpa only [Killed, htable] using hset

theorem Group.Numbered.syncNodes (h : s.Numbered) (hstaged : s'.Staged)
    (hstep : s.syncNodes j = some s') : s'.Numbered := by
  obtain ⟨t, c, row, hstage, hrow, -, -, -, rfl⟩ := syncNodes_cases hstep
  have hj : s.stage j ≠ .finished := by simp [hstage]
  refine h.keep hstaged (fun k hk => ?_) (fun n x hx => ?_) fun n x hx hk => ?_
  · exact finished_setStage rfl hj hk
  · rcases holdsId_of_commit hx with hold | ⟨hn, hid⟩
    · refine holdsId_of_setTable (fun n' row' x' hrow' hx' => ?_) hold
      by_cases hn : n' = j
      · rw [Table.copyTo, if_pos hn] at hrow'
        exact ⟨row', .inl ⟨j, hrow'⟩, hx'⟩
      · rw [Table.copyTo, if_neg hn, Option.filter_eq_some_iff] at hrow'
        exact ⟨row', .inl ⟨t, hrow'.1⟩, hx'⟩
    · rw [hn]
      exact ⟨row, .inl ⟨j, hrow⟩, hid⟩
  · -- The table that is replaced showed no other node.
    have hn := h.ne_of_holdsId hj hx
    have hcopied : (s.setTable j ((s.table t).copyTo (s.table j) j)).Killed n :=
      hk.setTable fun hkilled => by
        obtain ⟨row', hrow', -⟩ := (Option.any_eq_true _ _).mp hkilled
        exact (hn (h.staged.alone j n row' (by rw [hstage]; rfl) hrow').1).elim
    exact hcopied.setRow hn row

theorem Group.Numbered.replay (h : s.Numbered) {p : ν} {wins : Bool}
    (hok : s.IdsShown (.replay i p wins)) (hstaged : s'.Staged)
    (hstep : s.replay i p wins = some s') : s'.Numbered := by
  have hkilled : ∀ n x, s.HoldsId n x → s.Killed n → s'.Killed n :=
    fun n x _ hk => hk.replay hok hstep
  obtain ⟨-, -, -, c, hnext, rfl⟩ := replay_cases hstep
  refine h.keep hstaged (fun _ hk => hk) (fun n x hx => ?_) hkilled
  refine holdsId_of_setTable (fun n' row x' hrow hx' => ?_) hx
  rcases (s.table i).replay_cases c wins with hsame | hset
  · rw [hsame] at hrow
    exact ⟨row, .inl ⟨i, hrow⟩, hx'⟩
  · rw [hset] at hrow
    by_cases hn : n' = c.node
    · subst hn
      rw [Table.set_self, Option.some.injEq] at hrow
      subst hrow
      exact ⟨c.row, .inr ⟨p, c, List.mem_of_getElem? hnext, rfl, rfl⟩, hx'⟩
    · rw [Table.set_of_ne _ hn] at hrow
      exact ⟨row, .inl ⟨i, hrow⟩, hx'⟩

variable [Fintype ν]

instance (s : Group ν) (n : ν) : Decidable (s.Killed n) :=
  inferInstanceAs (Decidable (∃ _, _ = true))

instance (s : Group ν) (n : ν) (P : NodeRow → Prop) [DecidablePred P] :
    Decidable (∀ row, s.HasRow n row → P row) :=
  decidable_of_iff
    ((∀ i, ∀ row ∈ s.table i n, P row) ∧ ∀ p, ∀ c ∈ s.net.log p, c.node = n → P c.row)
    ⟨fun h row hrow => hrow.elim (fun ⟨i, hi⟩ => h.1 i row hi)
      fun ⟨p, c, hc, hn, hcr⟩ => hcr ▸ h.2 p c hc hn,
    fun h => ⟨fun i row hrow => h row (.inl ⟨i, hrow⟩),
      fun p c hc hn => h c.row (.inr ⟨p, c, hc, hn, rfl⟩)⟩⟩

instance (s : Group ν) (a : Action ν) : Decidable (s.IdsShown a) := by
  rcases a <;> unfold Group.IdsShown <;> infer_instance

omit [DecidableEq ν] in
theorem Table.showsId_freeSeqId (tbl : Table ν) (n : ν) : tbl.showsId n tbl.freeSeqId = false := by
  by_contra hused
  replace hused : tbl.showsId n tbl.freeSeqId = true := by simpa using hused
  have huses : tbl.usesSeqId tbl.freeSeqId = true := decide_eq_true ⟨n, hused⟩
  cases hfind : (List.range' 1 (tbl.maxSeqId fun _ => true)).find? fun x => !tbl.usesSeqId x with
  | some x =>
    have hx := List.find?_some hfind
    rw [freeSeqId, hfind, Option.getD_some] at huses
    simp [huses] at hx
  | none =>
    -- The identifiers in use are not above the greatest one.
    rw [freeSeqId, hfind] at hused
    obtain ⟨row, hrow, hlive⟩ := (Option.any_eq_true _ _).mp hused
    simp only [Option.getD_none, Bool.and_eq_true, decide_eq_true_eq] at hlive
    have hle : (((tbl n).filter NodeRow.live).bind NodeRow.seqId).getD 0 ≤
        tbl.maxSeqId NodeRow.live := Finset.le_sup (f := fun n =>
          (((tbl n).filter NodeRow.live).bind NodeRow.seqId).getD 0) (Finset.mem_univ n)
    rw [hrow, Option.filter_some_pos hlive.1, Option.bind_some, hlive.2, Option.getD_some] at hle
    omega

theorem Group.Numbered.setRemoteStatusReady {cfg : Config ν} (h : s.Numbered)
    (hok : s.IdsShown (.setRemoteStatusReady j)) (hstaged : s'.Staged)
    (hstep : s.setRemoteStatusReady cfg j = some s') : s'.Numbered := by
  obtain ⟨t, hstage, -, rfl⟩ := setRemoteStatusReady_cases hstep
  have hj : s.stage j ≠ .finished := by simp [hstage]
  set s₁ := s.commit t ⟨j, ⟨.ready, some (s.table t).freeSeqId⟩, false⟩ with hs₁
  have hids : ∀ n x, s₁.HoldsId n x →
      n ≠ j ∧ s.HoldsId n x ∨ n = j ∧ x = (s.table t).freeSeqId := by
    intro n x hx
    rcases holdsId_of_commit hx with hold | ⟨hn, hnew⟩
    · exact .inl ⟨h.ne_of_holdsId hj hold, hold⟩
    · exact .inr ⟨hn, (Option.some.inj hnew).symm⟩
  have hkilled : ∀ n, n ≠ j → s.Killed n → s₁.Killed n := fun n hn hk => hk.setRow hn _
  -- No other node that is not killed holds the chosen identifier.
  have hfresh : ∀ n x, n ≠ j → s.HoldsId n x → ¬s₁.Killed n → x ≠ (s.table t).freeSeqId := by
    rintro n x hn ⟨row, hrow, hx⟩ hnk rfl
    have hshows := hok t (by rw [hstage]; rfl) n hn (mt (hkilled n hn) hnk) row hrow _ hx
    rw [Table.showsId_freeSeqId] at hshows
    cases hshows
  refine ⟨hstaged, fun k x hk hx => ?_, fun a b x ha hb hna hnb => ?_⟩
  · by_cases hkj : k = j
    · subst hkj
      simp at hk
    · rw [setStage_of_ne _ hkj] at hk
      rcases hids k x hx with ⟨-, hold⟩ | ⟨rfl, -⟩
      · exact h.pending k x hk hold
      · exact hkj rfl
  · rcases hids a x ha with ⟨haj, holda⟩ | ⟨haj, hxa⟩ <;>
      rcases hids b x hb with ⟨hbj, holdb⟩ | ⟨hbj, hxb⟩
    · exact h.unique a b x holda holdb (mt (hkilled a haj) hna) (mt (hkilled b hbj) hnb)
    · exact (hfresh a x haj holda hna hxb).elim
    · exact (hfresh b x hbj holdb hnb hxa).elim
    · exact haj.trans hbj.symm

theorem Group.Numbered.detachNodes (h : s.Numbered) {u : ν} (hstaged : s'.Staged)
    (hstep : s.detachNodes u n = some s') : s'.Numbered := by
  obtain ⟨row, hrow, rfl⟩ := detachNodes_cases hstep
  refine h.keep hstaged (fun k hk => hk) (fun k x hx => ?_) fun k x _ hk => ?_
  · rcases holdsId_of_commit hx with hold | ⟨rfl, hid⟩
    · exact hold
    · exact ⟨row, .inl ⟨u, hrow⟩, hid⟩
  · by_cases hkn : k = n
    · subst hkn
      exact Killed.setTable hk fun _ => by simp
    · exact Killed.setRow hk hkn _

theorem Group.Numbered.step {cfg : Config ν} (h : s.Numbered) {a : Action ν} (hok : s.IdsShown a)
    (hstep : s.step cfg a = some s') : s'.Numbered := by
  have hstaged : s'.Staged := h.staged.step hstep
  cases a with
  | beginJoin j t =>
    obtain ⟨hout, -, -, rfl⟩ := beginJoin_cases hstep
    have hj : s.stage j ≠ .finished := by simp [hout]
    exact h.setOwn hj rfl hstaged rfl rfl fun k hk => finished_setStage rfl hj hk
  | establishSlot j =>
    obtain ⟨t, c, row, hstage, hrow, rfl⟩ := establishSlot_cases hstep
    have hj : s.stage j ≠ .finished := by simp [hstage]
    have hnone : (NodeRow.mk .copyingInitialData row.seqId).seqId = none :=
      (h.staged.alone j j row (by rw [hstage]; rfl) hrow).2.2
    exact h.setOwn hj hnone hstaged rfl rfl fun k hk => finished_setStage rfl hj hk
  | syncNodes j => exact h.syncNodes hstaged hstep
  | setRemoteStatusReady j => exact h.setRemoteStatusReady hok hstaged hstep
  | detachNodes u n => exact h.detachNodes hstaged hstep
  | connectBack i p =>
    obtain rfl := connectBack_cases hstep
    exact h.keep hstaged (fun _ hk => hk) (fun _ _ hx => hx) fun _ _ _ hk => hk
  | dropSlot p i =>
    obtain rfl := dropSlot_cases hstep
    exact h.keep hstaged (fun _ hk => hk) (fun _ _ hx => hx) fun _ _ _ hk => hk
  | replay i p wins => exact h.replay hok hstaged hstep

/-- As long as joins finish through targets that show the identifiers of all nodes that are not
killed, no two such nodes hold the same `node_seq_id`, in whatever tables. -/
theorem seqIds_unique {cfg : Config ν} {f : ν} {s : Group ν}
    (hs : Reach (· = Group.standalone f) (Group.step cfg) Group.IdsShown s) {i k a b : ν}
    {rowA rowB : NodeRow} {x : ℕ} (ha : s.table i a = some rowA) (hb : s.table k b = some rowB)
    (hxa : rowA.seqId = some x) (hxb : rowB.seqId = some x) (hna : ¬s.Killed a)
    (hnb : ¬s.Killed b) : a = b := by
  have hnumbered : s.Numbered :=
    Reach.invariant (by rintro _ rfl; exact Group.standalone_numbered f)
      (fun _ _ _ _ h hok hstep => h.step hok hstep) hs
  exact hnumbered.unique a b x ⟨rowA, .inl ⟨i, ha⟩, hxa⟩ ⟨rowB, .inl ⟨k, hb⟩, hxb⟩ hna hnb

def joinsThroughDifferentTargets (a b c d : ν) : List (Action ν) :=
  joinThrough a b ++
    [.beginJoin c a, .beginJoin d b, .establishSlot c, .establishSlot d, .syncNodes c, .syncNodes d,
      .setRemoteStatusReady c, .setRemoteStatusReady d]

def withoutDdlLock : Config (Fin 4) := ⟨4, true, fun _ _ => false⟩

/-- Node 1 has the second identifier after two joins, and no node shares it. -/
theorem seqIds_unique_joinThrough :
    ∃ s, Reach (· = Group.standalone (0 : Fin 4)) (Group.step withoutDdlLock) Group.IdsShown s ∧
      (s.table 0 1 = some ⟨.ready, some 2⟩ ∧ s.table 0 2 = some ⟨.ready, some 3⟩) ∧
        ∀ k n row, s.table k n = some row → row.seqId = some 2 → ¬s.Killed n → 1 = n := by
  have hstart : Reach (· = Group.standalone (0 : Fin 4)) (Group.step withoutDdlLock)
      Group.IdsShown (Group.standalone 0) := .init rfl
  obtain ⟨s, hs, hrows, hnot⟩ := hstart.exists_of_run (joinThrough 0 1 ++ joinThrough 0 2)
    (fun s => (s.table 0 1 = some ⟨.ready, some 2⟩ ∧ s.table 0 2 = some ⟨.ready, some 3⟩) ∧
      ¬s.Killed 1) (by decide +kernel)
  exact ⟨s, hs, hrows, fun k n row hrow hx hn =>
    seqIds_unique hs hrows.1 hrow rfl hx hnot hn⟩

/-- Without the global lock two nodes that are ready get the third identifier. -/
theorem seqIds_clash :
    ∃ s, Reach (· = Group.standalone (0 : Fin 4)) (Group.step withoutDdlLock) (fun _ _ => True) s ∧
      (s.table 0 2 = some ⟨.ready, some 3⟩ ∧ s.table 1 3 = some ⟨.ready, some 3⟩) ∧
        ¬s.Killed 2 ∧ ¬s.Killed 3 := by
  have hstart : Reach (· = Group.standalone (0 : Fin 4)) (Group.step withoutDdlLock)
      (fun _ _ => True) (Group.standalone 0) := .init rfl
  exact hstart.exists_of_run (joinsThroughDifferentTargets 0 1 2 3)
    (fun s => (s.table 0 2 = some ⟨.ready, some 3⟩ ∧ s.table 1 3 = some ⟨.ready, some 3⟩) ∧
      ¬s.Killed 2 ∧ ¬s.Killed 3) (by decide +kernel)

end Pgactive.Membership
