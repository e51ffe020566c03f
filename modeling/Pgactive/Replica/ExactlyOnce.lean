import Pgactive.Replica.Phases

/-!
# Every transaction comes to the new node once

A transaction comes in the dump or the catchup if it is in the part of the target's WAL that the new
node has, and through the slot on its origin otherwise. These are disjoint because the catchup
advances the origins. They leave no gap if, where the catchup ends, the target has replayed what the
peers had committed before the slots were made; the answers to a lock request ensure that.
-/

namespace Pgactive.Replica

open BroadcastLog Transition

variable {ν : Type} [DecidableEq ν] {g : Setup ν} {s s' : System ν}

section

variable (h : s.Consistent g)
include h

theorem System.Consistent.getElem?_log {p : ν} {k : ℕ}
    (hk : (p, k) ∈ commits s.wal) : (s.net.log p)[k]? = some .transaction :=
  getElem?_of_isPrefix (s.net.seenBy_isPrefix g.target p) ((h.records.mem_iff p k).mp hk).2

theorem System.Consistent.lt_length {p : ν} {k : ℕ}
    (hk : (p, k) ∈ commits s.wal) : k < (s.net.log p).length :=
  (List.getElem?_eq_some_iff.mp (h.getElem?_log hk)).1

theorem System.Consistent.mem_commits {p : ν} {k : ℕ} (hp : p ≠ g.joining)
    (hk : (s.net.log p)[k]? = some .transaction) (hseen : k < (s.net.seenBy g.target p).length) :
    (p, k) ∈ commits s.wal := by
  refine (h.records.mem_iff p k).mpr ⟨hp, ?_⟩
  obtain ⟨rest, hrest⟩ := s.net.seenBy_isPrefix g.target p
  rwa [← hrest, List.getElem?_append_left hseen] at hk

theorem System.Consistent.records_of_pos {net : Net ν Entry}
    (hlog : net.log = s.net.log) (hpos : net.pos g.target = s.net.pos g.target) :
    Records g.joining (net.seenBy g.target) (commits s.wal) := by
  rw [Net.seenBy_congr hlog hpos]
  exact h.records

theorem System.Consistent.seek (p : ν) : (s.net.seek g.joining p (s.net.log p).length).Bounded ∧
      Records g.joining ((s.net.seek g.joining p (s.net.log p).length).seenBy g.target)
        (commits s.wal) :=
  ⟨h.bounded.seek le_rfl, h.records_of_pos rfl (funext fun _ => s.net.seek_pos_of_ne (.inl g.ne) _)⟩

end

theorem System.Inv.establishSlot (h : s.Inv g) (hstep : s.establishSlot g = some s') :
    s'.Inv g := by
  unfold System.establishSlot at hstep
  split_ifs at hstep with hphase
  cases hstep
  obtain ⟨hcopied, hslots⟩ := h.of_phase hphase
  refine ⟨⟨(h.seek g.target).1, (h.seek g.target).2⟩, le_rfl, ?_, fun p k hslot hk => ?_,
    fun p => ?_⟩
  · simp [Function.comp_def]
  · -- The slot on the target is the only one, and the dump has nothing after it.
    obtain rfl : p = g.target := by
      by_contra hp
      simp [Function.update_of_ne hp, hslots] at hslot
    rw [List.take_length] at hk
    rw [Net.seek_pos_self]
    exact lt_max_of_lt_left (h.lt_length hk)
  · refine (hcopied.origin_eq p).imp_right ?_
    rintro ⟨k, hk, hmem⟩
    exact ⟨k, hk, mem_commits_take (List.prefix_refl _) hcopied.walPos_le hmem⟩

variable {p : ν}

theorem System.Inv.makeOtherSlot (h : s.Inv g) (hstep : s.makeOtherSlot g p = some s') :
    s'.Inv g := by
  unfold System.makeOtherSlot at hstep
  split_ifs at hstep with hguard
  cases hstep
  have hcopied : s.Copied g := h.of_phase hguard.1
  refine System.Consistent.inv ⟨(h.seek p).1, (h.seek p).2⟩ hguard.1 ?_
  refine ⟨hcopied.walPos_le, hcopied.reflected_eq, fun q k hslot hk => ?_, hcopied.origin_eq⟩
  by_cases hq : q = p
  · subst hq
    rw [Net.seek_pos_self]
    exact lt_max_of_lt_left (h.lt_length (mem_commits_of_take hk))
  · rw [Net.seek_pos_of_ne _ (.inr hq)]
    exact hcopied.below q k (by simpa [hq] using hslot) hk

omit [DecidableEq ν] in
theorem System.Copied.set (h : s.Copied g) {asked : ν → ℕ} {phase : Phase} :
    ({ s with asked := asked, phase := phase } : System ν).Copied g :=
  ⟨h.walPos_le, h.reflected_eq, h.below, h.origin_eq⟩

theorem System.Inv.getRemoteLsn (h : s.Inv g)
    (hflushed : g.skipDdlReplication = true → ∀ p, g.IsPeer p → s.FlushedTo g p)
    (hstep : s.getRemoteLsn = some s') : s'.Inv g := by
  unfold System.getRemoteLsn at hstep
  split_ifs at hstep with hphase
  cases hstep
  obtain ⟨hcopied, hslots, hlocked⟩ := h.of_phase hphase
  refine ⟨⟨h.bounded, h.records⟩, hcopied.set, hslots, fun p k hp hk htx => ?_⟩
  rw [List.take_length]
  refine h.mem_commits hp htx ?_
  by_cases ht : p = g.target
  · rw [Net.seenBy, if_pos ht]
    exact (List.getElem?_eq_some_iff.mp htx).1
  · rw [h.bounded.length_seenBy ht]
    cases hskip : g.skipDdlReplication with
    | true => exact hflushed hskip p ⟨ht, hp⟩ k hk htx
    | false => exact hlocked hskip p ⟨ht, hp⟩ k hk htx

theorem System.Copied.catchup_commit (h : s.Copied g) {k : ℕ}
    (hrecord : s.wal[s.walPos]? = some (.commit p k)) {phase : Phase} :
    ({ s with
      walPos := s.walPos + 1
      origin := Function.update s.origin p (max (s.origin p) (k + 1))
      reflected := s.reflected ++ [(.catchup, p, k)]
      phase := phase } : System ν).Copied g := by
  have htake := commits_take_succ hrecord
  have hmono : ∀ e ∈ commits (s.wal.take s.walPos), e ∈ commits (s.wal.take (s.walPos + 1)) :=
    fun e he => mem_commits_take (List.prefix_refl _) (Nat.le_succ _) he
  have hnew : (p, k) ∈ commits (s.wal.take (s.walPos + 1)) := by simp [htake]
  refine ⟨(List.getElem?_eq_some_iff.mp hrecord).1, ?_, fun q i hslot hi => ?_, fun q => ?_⟩
  · simp [htake, h.reflected_eq]
  · change (q, i) ∈ commits (s.wal.take (s.walPos + 1)) at hi
    change i < max (s.net.pos g.joining q) (Function.update s.origin p _ q)
    rw [htake, List.mem_append, commits_commit, List.mem_singleton] at hi
    by_cases hq : q = p
    · subst hq
      rw [Function.update_self]
      rcases hi with hold | hi
      · have := h.below q i hslot hold
        omega
      · obtain rfl : i = k := congrArg Prod.snd hi
        omega
    · rw [Function.update_of_ne hq]
      rcases hi with hold | hi
      · exact h.below q i hslot hold
      · exact (hq (congrArg Prod.fst hi)).elim
  · change Function.update s.origin p _ q = 0 ∨ ∃ i, Function.update s.origin p _ q = i + 1 ∧
      (q, i) ∈ commits (s.wal.take (s.walPos + 1))
    by_cases hq : q = p
    · subst hq
      rw [Function.update_self]
      rcases le_total (s.origin q) (k + 1) with hle | hle
      · exact .inr ⟨k, max_eq_right hle, hnew⟩
      · rw [max_eq_left hle]
        exact (h.origin_eq q).imp_right fun ⟨i, hi, hmem⟩ => ⟨i, hi, hmono _ hmem⟩
    · rw [Function.update_of_ne hq]
      exact (h.origin_eq q).imp_right fun ⟨i, hi, hmem⟩ => ⟨i, hi, hmono _ hmem⟩

omit [DecidableEq ν] in
theorem System.Copied.catchup_other (h : s.Copied g) (hrecord : s.wal[s.walPos]? = some .other)
    {phase : Phase} :
    ({ s with walPos := s.walPos + 1, phase := phase } : System ν).Copied g := by
  have htake : commits (s.wal.take (s.walPos + 1)) = commits (s.wal.take s.walPos) := by
    rw [commits_take_succ hrecord, commits_other, List.append_nil]
  refine ⟨(List.getElem?_eq_some_iff.mp hrecord).1, htake ▸ h.reflected_eq, ?_, ?_⟩
  · rw [htake]
    exact h.below
  · rw [htake]
    exact h.origin_eq

theorem System.Inv.catchup (h : s.Inv g) (hstep : s.catchup = some s') : s'.Inv g := by
  obtain ⟨stopLsn, hphase, ⟨p, k, hrecord, rfl⟩ | ⟨hrecord, rfl⟩⟩ := catchup_cases hstep
  · obtain ⟨hcopied, hslots, hcovered⟩ := h.of_phase hphase
    refine ⟨⟨h.bounded, h.records⟩, ?_⟩
    change PhaseInv g _ (if stopLsn ≤ s.walPos + 1 then _ else _)
    split_ifs with hstop
    · exact ⟨hcopied.catchup_commit hrecord, hslots, fun q i hq hi htx =>
        mem_commits_take (List.prefix_refl _) hstop (hcovered q i hq hi htx)⟩
    · exact ⟨hcopied.catchup_commit hrecord, hslots, hcovered⟩
  · obtain ⟨hcopied, hslots, hcovered⟩ := h.of_phase hphase
    exact Consistent.inv ⟨h.bounded, h.records⟩ hphase
      ⟨hcopied.catchup_other hrecord, hslots, hcovered⟩

theorem System.Inv.mem_commits_iff (h : s.Inv g) (hphase : s.phase = .creatingOutboundSlots)
    (hp : p ≠ g.joining) (k : ℕ) :
    (p, k) ∈ commits (s.wal.take s.walPos) ↔
      k < max (s.net.pos g.joining p) (s.origin p) ∧ (s.net.log p)[k]? = some .transaction := by
  obtain ⟨hcopied, hslots, hcovered⟩ := h.of_phase hphase
  constructor
  · exact fun hk => ⟨hcopied.below p k (hslots p hp) hk, h.getElem?_log (mem_commits_of_take hk)⟩
  · rintro ⟨hlt, htx⟩
    rcases lt_max_iff.mp hlt with hslot | horigin
    · exact hcovered p k hp hslot htx
    · -- The catchup has brought a later transaction of this origin.
      rcases hcopied.origin_eq p with hzero | ⟨k₁, hk₁, hmem⟩
      · omega
      · have hseen := (h.records.mem_iff p k₁).mp (mem_commits_of_take hmem)
        have hk₁lt := (List.getElem?_eq_some_iff.mp hseen.2).1
        exact h.records.mem_of_le (commits_isPrefix (List.take_prefix _ _)) hmem
          (h.mem_commits hp htx (by omega)) (by omega)

theorem System.Inv.maintainDbWorkers (h : s.Inv g) (hstep : s.maintainDbWorkers g = some s') :
    s'.Inv g := by
  unfold System.maintainDbWorkers at hstep
  split_ifs at hstep with hphase
  cases hstep
  obtain ⟨hcopied, -, -⟩ := h.of_phase hphase
  have horigin : ∀ p, s.origin p ≤ (s.net.log p).length := by
    intro p
    rcases hcopied.origin_eq p with hzero | ⟨k, hk, hmem⟩
    · omega
    · have := h.lt_length (mem_commits_of_take hmem)
      omega
  refine ⟨⟨fun r w => ?_, ?_⟩, fun p k hp => ?_⟩
  · by_cases hr : r = g.joining
    · subst hr
      simpa using ⟨h.bounded _ w, horigin w⟩
    · simpa [hr] using h.bounded r w
  · exact h.records_of_pos rfl (Function.update_of_ne g.ne _ _)
  · have hnodup : (commits (s.wal.take s.walPos)).Nodup :=
      (commits_isPrefix (List.take_prefix _ _)).sublist.nodup h.records.nodup
    have hiff := h.mem_commits_iff hphase hp k
    simp only [System.reflections, hcopied.reflected_eq, List.Nodup.count hnodup]
    refine if_congr (hiff.trans ?_) rfl rfl
    rw [Net.seenBy, if_neg hp]
    simp [List.getElem?_take]

theorem System.Inv.apply (h : s.Inv g) (hstep : s.apply g p = some s') : s'.Inv g := by
  obtain ⟨hphase, hp, hnext⟩ := apply_cases hstep
  have hcount := h.of_phase hphase
  have hrecords : Records g.joining ((s.net.advance g.joining p).seenBy g.target)
      (commits s.wal) :=
    h.records_of_pos rfl (funext fun _ => s.net.advance_pos_of_ne (.inl g.ne))
  rcases hnext with ⟨hnext, rfl⟩ | ⟨hnext, rfl⟩
  · refine Consistent.inv ⟨h.bounded.advance hnext, hrecords⟩ hphase fun q k hq => ?_
    simp only [reflections, List.map_append, List.map_cons, List.map_nil, List.count_append,
      Net.seenBy_advance hp.symm hnext, true_and]
    have hold := hcount q k hq
    rw [reflections] at hold
    rw [hold]
    by_cases hqp : q = p
    · subst hqp
      have hlength := h.bounded.length_seenBy hp
      rw [if_pos rfl, if_congr getElem?_concat_eq_some_iff rfl rfl, hlength]
      by_cases hk : k = s.net.pos g.joining q
      · subst hk
        rw [List.getElem?_eq_none hlength.le]
        simp
      · simp [hk, Ne.symm hk]
    · simp [hqp, Ne.symm hqp]
  · refine Consistent.inv ⟨h.bounded.advance hnext, hrecords⟩ hphase fun q k hq => ?_
    rw [Net.seenBy_advance hp.symm hnext]
    refine (hcount q k hq).trans (if_congr ?_ rfl rfl)
    split_ifs
    · simp [getElem?_concat_eq_some_iff]
    · rfl

theorem System.Inv.reflections_le_one (h : s.Inv g) (hp : p ≠ g.joining) (k : ℕ) :
    s.reflections p k ≤ 1 := by
  have hcopied : s.Copied g → s.reflections p k ≤ 1 := fun hcopied => by
    rw [reflections, hcopied.reflected_eq]
    exact List.nodup_iff_count_le_one.mp
      ((commits_isPrefix (List.take_prefix _ _)).sublist.nodup h.records.nodup) _
  cases hphase : s.phase with
  | makingSlots => exact hcopied (h.of_phase hphase)
  | applying =>
    rw [h.of_phase hphase p k hp]
    split_ifs <;> omega
  | _ => exact hcopied (h.of_phase hphase).1

theorem System.exists_apply (hphase : s.phase = .applying) (hp : p ≠ g.joining)
    (hlt : s.net.pos g.joining p < (s.net.log p).length) :
    ∃ s', s.apply g p = some s' ∧ s'.phase = .applying ∧ s'.net = s.net.advance g.joining p := by
  have hnext := List.getElem?_eq_getElem hlt
  unfold apply
  rw [if_pos ⟨hphase, hp⟩, Net.next, hnext]
  cases (s.net.log p)[s.net.pos g.joining p] with
  | transaction => exact ⟨_, rfl, hphase, rfl⟩
  | confirmLock => exact ⟨_, rfl, hphase, rfl⟩

theorem System.inv_start (g : Setup ν) : start.Inv g := by
  have hseen : ∀ p, (start : System ν).net.seenBy g.target p = [] := fun p => by
    simp [start, Net.seenBy]
  refine ⟨⟨Net.bounded_empty, fun p k => ?_, List.Pairwise.nil⟩,
    ⟨le_rfl, rfl, fun p k _ hk => (by cases hk), fun _ => .inl rfl⟩, fun _ => rfl⟩
  rw [hseen]
  simp [start, commits]

variable [Fintype ν]

/-- The condition on a step. When the lock is requested, no earlier request of the target is
unanswered and no answer to one is on the way. Without the lock, the target has replayed by
itself what the peers had committed when their slots were made. -/
def System.Flushed (g : Setup ν) (s : System ν) : Action ν → Prop
  | .acquireGlobalLock => g.skipDdlReplication = false → ∀ p, g.IsPeer p →
      s.asked p = 0 ∧ .confirmLock ∉ s.net.unread g.target p
  | .getRemoteLsn => g.skipDdlReplication = true → ∀ p, g.IsPeer p → s.FlushedTo g p
  | _ => True

omit [DecidableEq ν] [Fintype ν] in
theorem getElem?_ne_confirmLock (hnot : .confirmLock ∉ s.net.unread g.target p)
    {i : ℕ} (hle : s.net.pos g.target p ≤ i) : (s.net.log p)[i]? ≠ some .confirmLock := by
  intro hi
  refine hnot (List.mem_of_getElem? (i := i - s.net.pos g.target p) ?_)
  rw [Net.unread, List.getElem?_drop, Nat.add_sub_cancel' hle]
  exact hi

theorem System.Inv.acquireGlobalLock (h : s.Inv g) (hok : s.Flushed g .acquireGlobalLock)
    (hstep : s.acquireGlobalLock g = some s') : s'.Inv g := by
  obtain ⟨hphase, hslots, ⟨hskip, rfl⟩ | ⟨hskip, rfl⟩⟩ := acquireGlobalLock_cases hstep
  · have hcopied : s.Copied g := h.of_phase hphase
    refine ⟨⟨h.bounded, h.records⟩, hcopied.set, hslots, fun hnot => ?_⟩
    rw [hskip] at hnot
    cases hnot
  · have hcopied : s.Copied g := h.of_phase hphase
    refine ⟨⟨h.bounded, h.records⟩, hcopied.set, hslots, fun p i hp hi hle => ?_,
      [], List.nodup_nil, rfl, fun p hp => (by cases hp), fun p hp => ?_⟩
    · exact (getElem?_ne_confirmLock (hok hskip p hp).2 hle hi).elim
    · change s.asked p + 1 + (s.net.unread g.target p).count .confirmLock = _
      rw [(hok hskip p hp).1, List.count_eq_zero_of_not_mem (hok hskip p hp).2]
      simp

theorem System.Inv.lockAcquired (h : s.Inv g) (hstep : s.lockAcquired g = some s') : s'.Inv g := by
  obtain ⟨n, hphase, hcard, rfl⟩ := lockAcquired_cases hstep
  obtain ⟨hcopied, hslots, hround⟩ := h.of_phase hphase
  obtain ⟨answered, hnodup, hlength, hanswered, -⟩ := hround.counted
  refine ⟨⟨h.bounded, h.records⟩, hcopied.set, hslots, fun _ p hp k hk _ => ?_⟩
  have hmem : p ∈ answered := mem_of_card_le_length (w := p) hnodup
    (fun q hq => Finset.mem_filter.mpr ⟨Finset.mem_univ q, (hanswered q hq).1⟩)
    (hlength ▸ hcard) (Finset.mem_filter.mpr ⟨Finset.mem_univ p, hp⟩)
  exact hk.trans_le (hanswered p hmem).2

theorem System.Inv.step (h : s.Inv g) {a : Action ν} (hok : s.Flushed g a)
    (hstep : s.step g a = some s') : s'.Inv g := by
  cases a with
  | commit p => exact h.commit hstep
  | otherRecord =>
    cases hstep
    exact h.otherRecord
  | abandonedRequest => exact h.abandonedRequest hstep
  | confirmLock p => exact h.confirmLock hstep
  | replay p => exact h.replay hstep
  | establishSlot => exact h.establishSlot hstep
  | makeOtherSlot p => exact h.makeOtherSlot hstep
  | acquireGlobalLock => exact h.acquireGlobalLock hok hstep
  | lockAcquired => exact h.lockAcquired hstep
  | getRemoteLsn => exact h.getRemoteLsn hok hstep
  | catchup => exact h.catchup hstep
  | maintainDbWorkers => exact h.maintainDbWorkers hstep
  | apply p => exact h.apply hstep

instance (g : Setup ν) (s : System ν) (p : ν) : Decidable (s.FlushedTo g p) :=
  inferInstanceAs (Decidable (∀ _ < _, _ → _))

instance (g : Setup ν) (s : System ν) (a : Action ν) : Decidable (s.Flushed g a) := by
  rcases a <;> unfold System.Flushed <;> infer_instance

theorem System.Inv.run_apply (h : s.Inv g) (hphase : s.phase = .applying)
    (hp : p ≠ g.joining) {n : ℕ} (hn : s.net.pos g.joining p + n ≤ (s.net.log p).length) :
    ∃ s', run (System.step g) (fun _ _ => True) s (List.replicate n (.apply p)) = some s' ∧
      s'.Inv g ∧ s'.phase = .applying ∧ s'.net.log = s.net.log ∧
        s'.net.pos g.joining p = s.net.pos g.joining p + n := by
  induction n generalizing s with
  | zero => exact ⟨s, rfl, h, hphase, rfl, rfl⟩
  | succ n ih =>
    obtain ⟨s₁, hstep, hphase₁, hnet⟩ := System.exists_apply hphase hp (by omega)
    have hpos : s₁.net.pos g.joining p = s.net.pos g.joining p + 1 := by simp [hnet]
    have hlog : s₁.net.log = s.net.log := by simp [hnet]
    obtain ⟨s', hrun, hinv, hphase', hlog', hpos'⟩ :=
      ih (h.apply hstep) hphase₁ (by rw [hpos, hlog]; omega)
    refine ⟨s', ?_, hinv, hphase', hlog'.trans hlog, by omega⟩
    rw [List.replicate_succ, run, if_pos trivial]
    exact (congrArg (Option.bind · _) hstep).trans hrun

/-- In every run of a join in which the lock, or the target by itself, flushes the peers before
the catchup ends, no transaction is reflected twice on the new node. Once the apply workers
run, each is reflected as soon as the slot on its origin has been read past it. -/
theorem join_exactlyOnce {g : Setup ν} {s : System ν}
    (hs : Reach (· = System.start) (System.step g) (System.Flushed g) s) {p : ν} {k : ℕ}
    (hp : p ≠ g.joining) (hk : (s.net.log p)[k]? = some .transaction) :
    s.reflections p k ≤ 1 ∧ (s.phase = .applying →
      ∃ s', run (System.step g) (fun _ _ => True) s
          (List.replicate (k + 1 - s.net.pos g.joining p) (.apply p)) = some s' ∧
        s'.reflections p k = 1) := by
  have hinv : s.Inv g := Reach.invariant (by rintro _ rfl; exact System.inv_start g)
    (fun _ _ _ _ h hok hstep => h.step hok hstep) hs
  refine ⟨hinv.reflections_le_one hp k, fun hphase => ?_⟩
  have hlt := (List.getElem?_eq_some_iff.mp hk).1
  have hbound := hinv.bounded g.joining p
  obtain ⟨s', hrun, hinv', hphase', hlog, hpos⟩ :=
    hinv.run_apply hphase hp (n := k + 1 - s.net.pos g.joining p) (by omega)
  refine ⟨s', hrun, ?_⟩
  rw [hinv'.of_phase hphase' p k hp, if_pos]
  rw [Net.seenBy, if_neg hp, hlog, List.getElem?_take_of_lt (by omega)]
  exact hk

/-- A join through `t` with the lock: one transaction of `p` comes with the dump, the next with
the catchup and the last through the slot. -/
def joinWithLock (t p : ν) : List (Action ν) :=
  [.commit p, .replay p, .establishSlot, .commit p, .makeOtherSlot p, .acquireGlobalLock,
    .confirmLock p, .commit p, .replay p, .replay p, .lockAcquired, .getRemoteLsn, .commit t,
    .catchup, .maintainDbWorkers]

theorem join_exactlyOnce_joinWithLock :
    ∃ s, Reach (· = System.start) (System.step (⟨0, 2, false, by decide⟩ : Setup (Fin 3)))
        (System.Flushed ⟨0, 2, false, by decide⟩) s ∧
      (s.phase = .applying ∧ s.reflected = [(.dump, 1, 0), (.catchup, 1, 1)] ∧
        s.net.log 1 = [.transaction, .transaction, .confirmLock, .transaction]) ∧
      ∃ s', run (System.step ⟨0, 2, false, by decide⟩) (fun _ _ => True) s
          (List.replicate (3 + 1 - s.net.pos 2 1) (.apply 1)) = some s' ∧
        s'.reflections 1 3 = 1 := by
  have hstart : Reach (· = System.start) (System.step (⟨0, 2, false, by decide⟩ : Setup (Fin 3)))
      (System.Flushed ⟨0, 2, false, by decide⟩) System.start := .init rfl
  obtain ⟨s, hs, hstate⟩ := hstart.exists_of_run (joinWithLock 0 1)
    (fun s => s.phase = .applying ∧ s.reflected = [(.dump, 1, 0), (.catchup, 1, 1)] ∧
      s.net.log 1 = [.transaction, .transaction, .confirmLock, .transaction]) (by decide +kernel)
  have hk : (s.net.log 1)[3]? = some .transaction := by rw [hstate.2.2]; rfl
  exact ⟨s, hs, hstate, (join_exactlyOnce hs (by decide) hk).2 hstate.1⟩

def joinWithoutLock (t p : ν) : List (Action ν) :=
  [.commit p, .establishSlot, .makeOtherSlot p, .acquireGlobalLock, .getRemoteLsn, .commit t,
    .catchup, .maintainDbWorkers, .replay p]

def joinWithStaleAnswer (t p : ν) : List (Action ν) :=
  [.abandonedRequest, .confirmLock p, .commit p, .establishSlot, .makeOtherSlot p,
    .acquireGlobalLock, .replay p, .lockAcquired, .getRemoteLsn, .commit t, .catchup,
    .maintainDbWorkers, .replay p]

/-- The new node has read everything in its slot on a peer, and a transaction of that peer is not
reflected: without the lock, and with it when an earlier answer is counted. -/
theorem join_loses_transaction :
    (∃ s, Reach (· = System.start) (System.step (⟨0, 2, true, by decide⟩ : Setup (Fin 3)))
        (fun _ _ => True) s ∧
      s.phase = .applying ∧ s.net.pos 2 1 = (s.net.log 1).length ∧
        (s.net.log 1)[0]? = some .transaction ∧ s.reflections 1 0 = 0) ∧
    ∃ s, Reach (· = System.start) (System.step (⟨0, 2, false, by decide⟩ : Setup (Fin 3)))
        (fun _ _ => True) s ∧
      s.phase = .applying ∧ s.net.pos 2 1 = (s.net.log 1).length ∧
        (s.net.log 1)[1]? = some .transaction ∧ s.reflections 1 1 = 0 := by
  constructor
  · have hstart : Reach (· = System.start) (System.step (⟨0, 2, true, by decide⟩ : Setup (Fin 3)))
        (fun _ _ => True) System.start := .init rfl
    exact hstart.exists_of_run (joinWithoutLock 0 1)
      (fun s => s.phase = .applying ∧ s.net.pos 2 1 = (s.net.log 1).length ∧
        (s.net.log 1)[0]? = some .transaction ∧ s.reflections 1 0 = 0) (by decide +kernel)
  · have hstart : Reach (· = System.start) (System.step (⟨0, 2, false, by decide⟩ : Setup (Fin 3)))
        (fun _ _ => True) System.start := .init rfl
    exact hstart.exists_of_run (joinWithStaleAnswer 0 1)
      (fun s => s.phase = .applying ∧ s.net.pos 2 1 = (s.net.log 1).length ∧
        (s.net.log 1)[1]? = some .transaction ∧ s.reflections 1 1 = 0) (by decide +kernel)

end Pgactive.Replica
