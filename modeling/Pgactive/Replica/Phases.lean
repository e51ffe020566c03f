import Pgactive.Replica.Init

/-!
# What the new node has in each phase of its join

Up to the start of the apply workers the new node has a part of the target's WAL. The invariant says
for each phase what that part contains and, in the lock round, which peers have answered; the steps
of the other nodes keep it.
-/

namespace Pgactive.Replica

open BroadcastLog

variable {ν : Type}

/-- The committed transactions `w` are those that the target has seen, and in their order for
each origin. -/
structure Records (j : ν) (seen : ν → List Entry) (w : List (ν × ℕ)) : Prop where
  mem_iff : ∀ p k, (p, k) ∈ w ↔ p ≠ j ∧ (seen p)[k]? = some .transaction
  ordered : w.Pairwise fun a b => a.1 = b.1 → a.2 < b.2

variable {j : ν} {seen : ν → List Entry} {w : List (ν × ℕ)}

theorem Records.nodup (h : Records j seen w) : w.Nodup :=
  h.ordered.imp fun hab heq => (hab (congrArg Prod.fst heq)).ne (congrArg Prod.snd heq)

variable {p : ν}

theorem Records.mem_of_le {w₁ : List (ν × ℕ)} (h : Records j seen w) (hw₁ : w₁ <+: w) {k k₁ : ℕ}
    (hk₁ : (p, k₁) ∈ w₁) (hk : (p, k) ∈ w) (hle : k ≤ k₁) : (p, k) ∈ w₁ := by
  obtain ⟨w₂, rfl⟩ := hw₁
  rcases List.mem_append.mp hk with hmem | hmem
  · exact hmem
  · have hlt : k₁ < k := (List.pairwise_append.mp h.ordered).2.2 _ hk₁ _ hmem rfl
    omega

@[simp] theorem commits_append (wal wal' : List (WalRecord ν)) :
    commits (wal ++ wal') = commits wal ++ commits wal' := List.filterMap_append ..

@[simp] theorem commits_commit (p : ν) (k : ℕ) : commits [.commit p k] = [(p, k)] := rfl

@[simp] theorem commits_other : commits [(.other : WalRecord ν)] = [] := rfl

variable {wal : List (WalRecord ν)}

theorem commits_isPrefix {wal' : List (WalRecord ν)} (h : wal <+: wal') :
    commits wal <+: commits wal' := by
  obtain ⟨rest, rfl⟩ := h
  exact ⟨commits rest, (commits_append ..).symm⟩

variable {n : ℕ}

theorem mem_commits_take {wal' : List (WalRecord ν)} (h : wal <+: wal') {m : ℕ} (hmn : m ≤ n)
    {e : ν × ℕ} (he : e ∈ commits (wal.take m)) : e ∈ commits (wal'.take n) :=
  (commits_isPrefix ((List.take_prefix_take_left hmn).trans (h.take n))).subset he

theorem mem_commits_of_take {e : ν × ℕ} (he : e ∈ commits (wal.take n)) : e ∈ commits wal :=
  (commits_isPrefix (List.take_prefix _ _)).subset he

theorem commits_take_succ {r : WalRecord ν} (hr : wal[n]? = some r) :
    commits (wal.take (n + 1)) = commits (wal.take n) ++ commits [r] := by
  rw [List.take_add_one, hr, commits_append]
  rfl

variable [DecidableEq ν]

theorem Records.transaction {seen' : ν → List Entry} (h : Records j seen w) (hp : p ≠ j)
    (hseen : ∀ q, seen' q = if q = p then seen q ++ [.transaction] else seen q) :
    Records j seen' (w ++ [(p, (seen p).length)]) := by
  constructor
  · intro q k
    rw [List.mem_append, List.mem_singleton, h.mem_iff, hseen, Prod.mk.injEq]
    by_cases hq : q = p
    · subst hq
      rw [if_pos rfl, getElem?_concat_eq_some_iff]
      simp [hp]
    · simp [hq]
  · refine List.pairwise_append.mpr ⟨h.ordered, List.pairwise_singleton _ _, ?_⟩
    rintro ⟨q, k⟩ hk b hb heq
    obtain rfl := List.mem_singleton.mp hb
    obtain rfl : q = p := heq
    exact (List.getElem?_eq_some_iff.mp ((h.mem_iff q k).mp hk).2).1

theorem Records.confirmLock {seen' : ν → List Entry} (h : Records j seen w)
    (hseen : ∀ q, seen' q = if q = p then seen q ++ [.confirmLock] else seen q) :
    Records j seen' w := by
  refine ⟨fun q k => ?_, h.ordered⟩
  rw [h.mem_iff, hseen]
  by_cases hq : q = p
  · rw [if_pos hq, getElem?_concat_eq_some_iff]
    simp
  · rw [if_neg hq]

/-- What the target has seen, all the way through the join. -/
structure System.Consistent (g : Setup ν) (s : System ν) : Prop where
  bounded : s.net.Bounded
  records : Records g.joining (s.net.seenBy g.target) (commits s.wal)

/-- What the new node has while it has no more than the dump and the catchup. -/
structure System.Copied (g : Setup ν) (s : System ν) : Prop where
  walPos_le : s.walPos ≤ s.wal.length
  reflected_eq : s.reflected.map Prod.snd = commits (s.wal.take s.walPos)
  /-- Nothing of that will come again through a slot. -/
  below : ∀ p k, s.slot p = true → (p, k) ∈ commits (s.wal.take s.walPos) →
    k < max (s.net.pos g.joining p) (s.origin p)
  origin_eq : ∀ p, s.origin p = 0 ∨
    ∃ k, s.origin p = k + 1 ∧ (p, k) ∈ commits (s.wal.take s.walPos)

def System.SlotsMade (g : Setup ν) (s : System ν) : Prop :=
  ∀ p, p ≠ g.joining → s.slot p = true

/-- The target has replayed what the peer had committed when the slot was made. -/
def System.FlushedTo (g : Setup ν) (s : System ν) (p : ν) : Prop :=
  ∀ k < s.net.pos g.joining p, (s.net.log p)[k]? = some .transaction → k < s.net.pos g.target p

def System.Covered (g : Setup ν) (s : System ν) (n : ℕ) : Prop :=
  ∀ p k, p ≠ g.joining → k < s.net.pos g.joining p → (s.net.log p)[k]? = some .transaction →
    (p, k) ∈ commits (s.wal.take n)

/-- A lock request to which `n` different peers have answered: each peer answers it once, after
the slot of the new node was made. -/
structure System.Round (g : Setup ν) (s : System ν) (n : ℕ) : Prop where
  late : ∀ p i, g.IsPeer p → (s.net.log p)[i]? = some .confirmLock → s.net.pos g.target p ≤ i →
    s.net.pos g.joining p ≤ i
  counted : ∃ answered : List ν, answered.Nodup ∧ answered.length = n ∧
    (∀ p ∈ answered, g.IsPeer p ∧ s.net.pos g.joining p ≤ s.net.pos g.target p) ∧
    ∀ p, g.IsPeer p → s.asked p + (s.net.unread g.target p).count .confirmLock =
      if p ∈ answered then 0 else 1

def System.PhaseInv (g : Setup ν) (s : System ν) : Phase → Prop
  | .beginningInit => s.Copied g ∧ ∀ p, s.slot p = false
  | .makingSlots => s.Copied g
  | .lockRequested n => s.Copied g ∧ s.SlotsMade g ∧ s.Round g n
  | .lockReturned => s.Copied g ∧ s.SlotsMade g ∧
      (g.skipDdlReplication = false → ∀ p, g.IsPeer p → s.FlushedTo g p)
  | .catchup stopLsn => s.Copied g ∧ s.SlotsMade g ∧ s.Covered g stopLsn
  | .creatingOutboundSlots => s.Copied g ∧ s.SlotsMade g ∧ s.Covered g s.walPos
  | .applying => ∀ p k, p ≠ g.joining → s.reflections p k =
      if (s.net.seenBy g.joining p)[k]? = some .transaction then 1 else 0

/-- A step that is not one of the new node: the logs and the WAL grow, and the target reads
on. -/
structure System.Grows (g : Setup ν) (s s' : System ν) : Prop where
  slot_eq : s'.slot = s.slot
  origin_eq : s'.origin = s.origin
  walPos_eq : s'.walPos = s.walPos
  reflected_eq : s'.reflected = s.reflected
  pos_eq : s'.net.pos g.joining = s.net.pos g.joining
  wal : s.wal <+: s'.wal
  log : ∀ p, s.net.log p <+: s'.net.log p
  replayed : ∀ p, s.net.pos g.target p ≤ s'.net.pos g.target p

section

variable {g : Setup ν} {s s' : System ν}

omit [DecidableEq ν] in
theorem System.Grows.getElem?_log (h : s.Grows g s') {p : ν} {k : ℕ}
    (hk : k < (s.net.log p).length) : (s'.net.log p)[k]? = (s.net.log p)[k]? := by
  obtain ⟨rest, hrest⟩ := h.log p
  rw [← hrest, List.getElem?_append_left hk]

omit [DecidableEq ν] in
theorem System.Grows.copied (h : s.Grows g s') (hs : s.Copied g) : s'.Copied g := by
  have htake : s'.wal.take s'.walPos = s.wal.take s.walPos := by
    obtain ⟨rest, hrest⟩ := h.wal
    rw [← hrest, h.walPos_eq, List.take_append_of_le_length hs.walPos_le]
  refine ⟨?_, ?_, fun p k hslot => ?_, fun p => ?_⟩
  · rw [h.walPos_eq]
    exact hs.walPos_le.trans h.wal.length_le
  · rw [h.reflected_eq, htake]
    exact hs.reflected_eq
  · rw [h.slot_eq] at hslot
    rw [htake, h.pos_eq, h.origin_eq]
    exact hs.below p k hslot
  · rw [htake, h.origin_eq]
    exact hs.origin_eq p

omit [DecidableEq ν] in
theorem System.Grows.flushedTo (h : s.Grows g s') (hb : s.net.Bounded) {p : ν}
    (hs : s.FlushedTo g p) : s'.FlushedTo g p := by
  intro k hk htx
  rw [h.pos_eq] at hk
  rw [h.getElem?_log (hk.trans_le (hb _ _))] at htx
  exact (hs k hk htx).trans_le (h.replayed p)

omit [DecidableEq ν] in
theorem System.Grows.covered (h : s.Grows g s') (hb : s.net.Bounded) {n : ℕ}
    (hs : s.Covered g n) : s'.Covered g n := by
  intro p k hp hk htx
  rw [h.pos_eq] at hk
  rw [h.getElem?_log (hk.trans_le (hb _ _))] at htx
  exact mem_commits_take h.wal le_rfl (hs p k hp hk htx)

omit [DecidableEq ν] in
theorem System.Grows.slotsMade (h : s.Grows g s') (hs : s.SlotsMade g) : s'.SlotsMade g :=
  fun p hp => by
    rw [h.slot_eq]
    exact hs p hp

theorem System.Grows.phaseInv (h : s.Grows g s') (hb : s.net.Bounded) {phase : Phase}
    (hround : ∀ n, phase = .lockRequested n → s.Round g n → s'.Round g n)
    (hs : s.PhaseInv g phase) : s'.PhaseInv g phase := by
  cases phase with
  | beginningInit => exact ⟨h.copied hs.1, fun p => by rw [h.slot_eq]; exact hs.2 p⟩
  | makingSlots => exact h.copied hs
  | lockRequested n => exact ⟨h.copied hs.1, h.slotsMade hs.2.1, hround n rfl hs.2.2⟩
  | lockReturned =>
    exact ⟨h.copied hs.1, h.slotsMade hs.2.1, fun hskip p hp => h.flushedTo hb (hs.2.2 hskip p hp)⟩
  | catchup stopLsn => exact ⟨h.copied hs.1, h.slotsMade hs.2.1, h.covered hb hs.2.2⟩
  | creatingOutboundSlots =>
    refine ⟨h.copied hs.1, h.slotsMade hs.2.1, ?_⟩
    rw [h.walPos_eq]
    exact h.covered hb hs.2.2
  | applying =>
    intro p k hp
    have hseen : s'.net.seenBy g.joining p = s.net.seenBy g.joining p := by
      obtain ⟨rest, hrest⟩ := h.log p
      rw [Net.seenBy, Net.seenBy, if_neg hp, if_neg hp, h.pos_eq, ← hrest,
        List.take_append_of_le_length (hb _ _)]
    rw [hseen, reflections, h.reflected_eq]
    exact hs p k hp

theorem System.Grows.phaseInv_confirm (h : s.Grows g s') (hb : s.net.Bounded) {phase : Phase}
    (hround : ∀ n, s.Round g n → s'.Round g (n + 1)) (hs : s.PhaseInv g phase) :
    s'.PhaseInv g phase.confirm := by
  cases phase with
  | lockRequested n => exact ⟨h.copied hs.1, h.slotsMade hs.2.1, hround n hs.2.2⟩
  | _ => exact h.phaseInv hb (fun n hn => by cases hn) hs

end

/-- The invariant of the join. -/
structure System.Inv (g : Setup ν) (s : System ν) : Prop extends s.Consistent g where
  phaseInv : s.PhaseInv g s.phase

variable {g : Setup ν} {s s' : System ν}

variable {phase : Phase}

theorem System.Inv.of_phase (h : s.Inv g) (hphase : s.phase = phase) : s.PhaseInv g phase :=
  hphase ▸ h.phaseInv

theorem System.Consistent.inv (h : s.Consistent g) (hphase : s.phase = phase)
    (hinv : s.PhaseInv g phase) : s.Inv g :=
  ⟨h, hphase ▸ hinv⟩

theorem System.Round.append_transaction (h : s.Round g n) (hb : s.net.Bounded) :
    ({ s with net := s.net.append p [.transaction], wal := wal } : System ν).Round g n := by
  obtain ⟨answered, hnodup, hlength, hanswered, hcount⟩ := h.counted
  refine ⟨fun q i hq hi hle => ?_, answered, hnodup, hlength, hanswered, fun q hq => ?_⟩
  · refine h.late q i hq ?_ hle
    simpa [Net.getElem?_log_append] using hi
  · rw [← hcount q hq]
    change s.asked q + ((s.net.append p [.transaction]).unread g.target q).count .confirmLock = _
    rw [hb.unread_append]
    split_ifs
    · simp
    · rfl

omit [DecidableEq ν] in
theorem System.Grows.refl (g : Setup ν) (s : System ν) : s.Grows g s :=
  ⟨rfl, rfl, rfl, rfl, rfl, List.prefix_refl _, fun _ => List.prefix_refl _, fun _ => le_rfl⟩

theorem System.commit_grows (hstep : s.commit g p = some s') : s.Grows g s' := by
  obtain ⟨-, rfl⟩ := commit_cases hstep
  exact { Grows.refl g s with
    wal := List.prefix_append _ _
    log := s.net.log_isPrefix_append p _ }

theorem System.Inv.commit (h : s.Inv g) (hstep : s.commit g p = some s') : s'.Inv g := by
  have hgrows := commit_grows hstep
  obtain ⟨hp, rfl⟩ := commit_cases hstep
  refine ⟨⟨h.bounded.append _ _, ?_⟩, hgrows.phaseInv h.bounded
    (fun n _ hround => hround.append_transaction h.bounded) h.phaseInv⟩
  by_cases ht : p = g.target
  · subst ht
    have hseen : ∀ q, (s.net.append g.target [.transaction]).seenBy g.target q =
        if q = g.target then s.net.seenBy g.target q ++ [.transaction]
        else s.net.seenBy g.target q := fun q => by
      rw [h.bounded.seenBy_append]
      simp
    have hlength : (s.net.seenBy g.target g.target).length = (s.net.log g.target).length := by
      simp [Net.seenBy]
    have hrecords := h.records.transaction hp hseen
    rw [hlength] at hrecords
    simpa using hrecords
  · have hseen : (s.net.append p [.transaction]).seenBy g.target = s.net.seenBy g.target := by
      funext q
      rw [h.bounded.seenBy_append, if_neg (by rintro ⟨-, rfl⟩; exact ht rfl)]
    simpa [ht, hseen] using h.records

theorem System.Inv.otherRecord (h : s.Inv g) :
    ({ s with wal := s.wal ++ [.other] } : System ν).Inv g := by
  have hgrows : s.Grows g { s with wal := s.wal ++ [.other] } :=
    { Grows.refl g s with wal := List.prefix_append _ _ }
  refine ⟨⟨h.bounded, ?_⟩, hgrows.phaseInv h.bounded
    (fun n _ hround => ⟨hround.late, hround.counted⟩) h.phaseInv⟩
  rw [commits_append, commits_other, List.append_nil]
  exact h.records

theorem System.Inv.abandonedRequest (h : s.Inv g) (hstep : s.abandonedRequest = some s') :
    s'.Inv g := by
  unfold System.abandonedRequest at hstep
  split_ifs at hstep with hphase
  cases hstep
  have hgrows : s.Grows g { s with asked := fun p => s.asked p + 1 } :=
    { System.Grows.refl g s with slot_eq := rfl }
  refine ⟨⟨h.bounded, h.records⟩, hgrows.phaseInv h.bounded (fun n hn _ => ?_) h.phaseInv⟩
  replace hn : s.phase = .lockRequested n := hn
  rw [hn] at hphase
  exact (hphase rfl).elim

theorem System.Round.confirmLock (h : s.Round g n) (hb : s.net.Bounded) (hpeer : g.IsPeer p)
    (hasked : 0 < s.asked p) :
    ({ s with
      net := s.net.append p [.confirmLock]
      asked := Function.update s.asked p (s.asked p - 1) } : System ν).Round g n := by
  obtain ⟨answered, hnodup, hlength, hanswered, hcount⟩ := h.counted
  refine ⟨fun q i hq hi hle => ?_, answered, hnodup, hlength, hanswered, fun q hq => ?_⟩
  · rcases Net.getElem?_log_append.mp hi with hi | ⟨rfl, rfl, -⟩
    · exact h.late q i hq hi hle
    · exact hb g.joining q
  · rw [← hcount q hq]
    change Function.update s.asked p (s.asked p - 1) q +
      ((s.net.append p [.confirmLock]).unread g.target q).count .confirmLock = _
    rw [hb.unread_append]
    by_cases hqp : q = p
    · subst hqp
      simp only [Function.update_self, if_true, List.count_append, List.count_singleton_self]
      omega
    · rw [if_neg hqp, Function.update_of_ne hqp]

theorem System.Inv.confirmLock (h : s.Inv g) (hstep : s.confirmLock g p = some s') : s'.Inv g := by
  unfold System.confirmLock at hstep
  split_ifs at hstep with hguard
  cases hstep
  have hgrows : s.Grows g { s with
      net := s.net.append p [.confirmLock]
      asked := Function.update s.asked p (s.asked p - 1) } :=
    { System.Grows.refl g s with log := s.net.log_isPrefix_append p _ }
  refine ⟨⟨h.bounded.append _ _, ?_⟩, hgrows.phaseInv h.bounded
    (fun n _ hround => hround.confirmLock h.bounded hguard.1 hguard.2) h.phaseInv⟩
  -- The target has not read the answer yet.
  have hseen : (s.net.append p [.confirmLock]).seenBy g.target = s.net.seenBy g.target := by
    funext q
    rw [h.bounded.seenBy_append, if_neg (by rintro ⟨-, rfl⟩; exact hguard.1.1 rfl)]
  simpa [hseen] using h.records

theorem System.pos_joining_advance (g : Setup ν) (s : System ν) (p : ν) :
    (s.net.advance g.target p).pos g.joining = s.net.pos g.joining := by
  funext q
  exact s.net.advance_pos_of_ne (.inl g.ne.symm)

theorem System.pos_target_le_advance (g : Setup ν) (s : System ν) (p q : ν) :
    s.net.pos g.target q ≤ (s.net.advance g.target p).pos g.target q := by
  by_cases hq : q = p
  · subst hq
    simp
  · rw [s.net.advance_pos_of_ne (.inr hq)]

theorem System.replay_grows (hstep : s.replay g p = some s') : s.Grows g s' := by
  obtain ⟨-, ⟨-, rfl⟩ | ⟨-, rfl⟩⟩ := replay_cases hstep
  · exact { Grows.refl g s with
      pos_eq := pos_joining_advance g s p
      wal := List.prefix_append _ _
      replayed := pos_target_le_advance g s p }
  · exact { Grows.refl g s with
      pos_eq := pos_joining_advance g s p
      replayed := pos_target_le_advance g s p }

theorem System.Round.late_advance (h : s.Round g n) {q : ν} {i : ℕ} (hq : g.IsPeer q)
    (hi : (s.net.log q)[i]? = some .confirmLock)
    (hle : (s.net.advance g.target p).pos g.target q ≤ i) :
    (s.net.advance g.target p).pos g.joining q ≤ i := by
  rw [pos_joining_advance]
  exact h.late q i hq hi ((pos_target_le_advance g s p q).trans hle)

theorem System.Round.answered_advance {q : ν} (h : s.net.pos g.joining q ≤ s.net.pos g.target q) :
    (s.net.advance g.target p).pos g.joining q ≤ (s.net.advance g.target p).pos g.target q := by
  rw [pos_joining_advance]
  exact h.trans (pos_target_le_advance g s p q)

theorem System.Round.replay_transaction (h : s.Round g n)
    (hnext : s.net.next g.target p = some .transaction) :
    ({ s with net := s.net.advance g.target p, wal := wal } : System ν).Round g n := by
  obtain ⟨answered, hnodup, hlength, hanswered, hcount⟩ := h.counted
  refine ⟨fun q i hq hi hle => h.late_advance hq hi hle, answered, hnodup, hlength,
    fun q hq => ⟨(hanswered q hq).1, answered_advance (hanswered q hq).2⟩,
    fun q hq => ?_⟩
  rw [← hcount q hq]
  by_cases hqp : q = p
  · subst hqp
    rw [Net.unread_of_next hnext]
    simp
  · exact congrArg (s.asked q + List.count _ ·) (s.net.unread_seek_of_ne (.inr hqp) _)

theorem System.Round.replay_confirmLock (h : s.Round g n) (hpeer : g.IsPeer p)
    (hnext : s.net.next g.target p = some .confirmLock) :
    ({ s with net := s.net.advance g.target p, phase := phase } : System ν).Round g (n + 1) := by
  obtain ⟨answered, hnodup, hlength, hanswered, hcount⟩ := h.counted
  have hp := hcount p hpeer
  rw [Net.unread_of_next hnext, List.count_cons_self] at hp
  have hnew : p ∉ answered := fun hmem => by
    rw [if_pos hmem] at hp
    omega
  refine ⟨fun q i hq hi hle => h.late_advance hq hi hle, p :: answered,
    List.nodup_cons.mpr ⟨hnew, hnodup⟩, by simp [hlength], fun q hq => ?_, fun q hq => ?_⟩
  · rcases List.mem_cons.mp hq with rfl | hold
    · exact ⟨hpeer, answered_advance (h.late q _ hpeer hnext le_rfl)⟩
    · exact ⟨(hanswered q hold).1, answered_advance (hanswered q hold).2⟩
  · by_cases hqp : q = p
    · subst hqp
      rw [if_neg hnew] at hp
      rw [if_pos List.mem_cons_self]
      change s.asked q + ((s.net.advance g.target q).unread g.target q).count .confirmLock = 0
      omega
    · have hmem : q ∈ p :: answered ↔ q ∈ answered := by simp [hqp]
      rw [if_congr hmem rfl rfl, ← hcount q hq]
      exact congrArg (s.asked q + List.count _ ·) (s.net.unread_seek_of_ne (.inr hqp) _)

theorem System.Inv.replay (h : s.Inv g) (hstep : s.replay g p = some s') : s'.Inv g := by
  have hgrows := replay_grows hstep
  obtain ⟨hpeer, ⟨hnext, rfl⟩ | ⟨hnext, rfl⟩⟩ := replay_cases hstep
  · refine ⟨⟨h.bounded.advance hnext, ?_⟩, hgrows.phaseInv h.bounded
      (fun n _ hround => hround.replay_transaction hnext) h.phaseInv⟩
    have hrecords := h.records.transaction hpeer.2 fun q => by
      have hseen := Net.seenBy_advance hpeer.1.symm hnext g.target q
      simpa using hseen
    rw [h.bounded.length_seenBy hpeer.1] at hrecords
    simpa using hrecords
  · refine ⟨⟨h.bounded.advance hnext, ?_⟩, ?_⟩
    · exact h.records.confirmLock fun q => by
        have hseen := Net.seenBy_advance hpeer.1.symm hnext g.target q
        simpa using hseen
    · exact hgrows.phaseInv_confirm h.bounded
        (fun n hround => hround.replay_confirmLock hpeer hnext) h.phaseInv

end Pgactive.Replica
