import Pgactive.Workers.Ownership

/-!
# Where a per-db worker comes from

After a step of an orderly server a per-db worker has just been registered, has taken a step of
its own, or is what it was before, in an unchanged slot. This is said once here, for all actions.
-/

namespace Pgactive.Workers

variable {n : ℕ} {ρ δ ν : Type}

def Worker.finished (x : Worker n ρ δ) : Bool :=
  match x.life with
  | .running .finishing | .running (.exiting true) => true
  | _ => false

/-- A worker that a step has left as it is, apart from what it does for other workers. -/
structure Same (s t : Server n ρ δ ν) (z z' : Worker n ρ δ) : Prop where
  kind : z'.kind = z.kind
  slot : z'.slot = z.slot
  generation : z'.generation = z.generation
  db : z'.db = z.db
  content : z.generation = s.generation → z.keeps = true → t.slot z.slot = s.slot z.slot
  life : z'.life = z.life ∨
    z.holds = true ∧ z'.holds = true ∧ z.finished = false ∧ z'.finished = false

/-- How a per-db worker has come out of a step. -/
inductive Provenance [DecidableEq δ] (s : Server n ρ δ ν) (a : Action ρ δ ν)
    (t : Server n ρ δ ν) (v : ρ) (z' : Worker n ρ δ) : Prop
  | new (d : δ) (i : Fin n) (hnone : s.worker v = none)
      (hz' : z' = ⟨.perdb d, i, s.generation, .registered, none⟩)
      (ha : a = .examine d v true) (hfind : findPerdbWorkerSlot s.slot d = .notFound)
      (hscan : s.supervisor = .scanning) (hstart : t.supervisor = .starting v i d)
      (hslot : t.slot i = .perdb d none false)
  | act (z : Worker n ρ δ) (b : Act) (hz : s.worker v = some z) (ha : a = .act v b)
      (hact : z.act (s.slot z.slot) s.generation b = some (z', t.slot z.slot))
  | same (z : Worker n ρ δ) (ha : a ≠ .crash) (hz : s.worker v = some z) (h : Same s t z z')
  | crashed (z : Worker n ρ δ) (ha : a = .crash) (hz : s.worker v = some z)
      (hz' : z' = z.crashed)

section Provenance

variable {s t : Server n ρ δ ν} {v w r : ρ} {x y z z' : Worker n ρ δ} {i : Fin n}

theorem Inv.slot_ne_of_empty (hi : Inv s) (hz : s.worker v = some z)
    (hgen : z.generation = s.generation) (hkeeps : z.keeps = true) (hempty : s.slot i = .empty) :
    z.slot ≠ i := by
  rintro rfl
  have huse := hi.proper.let_to (tenant_eq_some hz hgen hkeeps)
  simp [Server.tenancy, hempty, Slot.use] at huse

theorem Inv.slot_ne (hi : Inv s) (hz : s.worker v = some z) (hgen : z.generation = s.generation)
    (hkeeps : z.keeps = true) (hx : s.worker w = some x) (hgen' : x.generation = s.generation)
    (hkeeps' : x.keeps = true) (hne : v ≠ w) : z.slot ≠ x.slot := by
  intro heq
  exact hne (hi.proper.unique (heq ▸ tenant_eq_some hz hgen hkeeps)
    (tenant_eq_some hx hgen' hkeeps'))

theorem Same.of_eq (hslot : z.generation = s.generation → z.keeps = true →
    t.slot z.slot = s.slot z.slot) : Same s t z z :=
  ⟨rfl, rfl, rfl, rfl, hslot, .inl rfl⟩

variable {phase : Phase ρ}

theorem Same.to (hholds : z.holds = true) (hfinished : z.finished = false)
    (hphase : phase = .serving ∨ phase = .failing ∨ phase = .launching r ∨ phase = .catchup r)
    (hslot : z.generation = s.generation → z.keeps = true → t.slot z.slot = s.slot z.slot) :
    Same s t z (z.to phase) := by
  refine ⟨rfl, rfl, rfl, rfl, hslot, .inr ⟨hholds, ?_, hfinished, ?_⟩⟩ <;>
    rcases hphase with rfl | rfl | rfl | rfl <;> rfl

variable [DecidableEq ρ]

theorem exists_same_of_pair (hx : s.worker w = some x) (hholds : x.holds = true)
    (hfinished : x.finished = false)
    (hphase : phase = .serving ∨ phase = .failing ∨ phase = .launching r ∨ phase = .catchup r)
    (hworker : t.worker = Function.update (Function.update s.worker r (some y)) w
      (some (x.to phase))) (hy : y.kind.workerType ≠ .perdb)
    (hslot : ∀ v z, v ≠ r → s.worker v = some z → z.generation = s.generation →
      z.keeps = true → t.slot z.slot = s.slot z.slot) (hrw : w ≠ r) (hz' : t.worker v = some z')
    (hperdb : z'.kind.workerType = .perdb) : ∃ z, s.worker v = some z ∧ Same s t z z' := by
  rw [hworker] at hz'
  obtain ⟨rfl, rfl⟩ | ⟨rfl, rfl⟩ | ⟨-, hvr, hold⟩ := update_update_cases hz'
  · exact ⟨x, hx, .to hholds hfinished hphase (hslot v x hrw hx)⟩
  · exact absurd hperdb hy
  · exact ⟨z', hold, .of_eq (hslot v z' hvr hold)⟩

theorem exists_same_of_other (hworker : t.worker = Function.update s.worker r (some y))
    (hy : y.kind.workerType ≠ .perdb)
    (hslot : ∀ v z, v ≠ r → s.worker v = some z → z.generation = s.generation →
      z.keeps = true → t.slot z.slot = s.slot z.slot)
    (hz' : t.worker v = some z') (hperdb : z'.kind.workerType = .perdb) :
    ∃ z, s.worker v = some z ∧ Same s t z z' := by
  rw [hworker] at hz'
  by_cases hvr : v = r
  · subst hvr
    obtain rfl : y = z' := by simpa using hz'
    exact absurd hperdb hy
  · rw [Function.update_of_ne hvr] at hz'
    exact ⟨z', hz', .of_eq (hslot v z' hvr hz')⟩

theorem Inv.same_act (hi : Inv s) (hx : s.worker w = some x) {x' : Worker n ρ δ}
    {new : Slot δ ν} {b : Act} (hact : x.act (s.slot x.slot) s.generation b = some (x', new))
    (hvw : v ≠ w) (hz : s.worker v = some z) :
    Same s ((s.setSlot x.slot new).setWorker w x') z z := by
  refine .of_eq fun hgen hkeeps => ?_
  by_cases hsame : z.slot = x.slot
  · have hspec := act_spec hact
    rcases hspec.own with hold | ⟨hkept, hcurrent⟩
    · simp [Server.setWorker, Server.setSlot, hsame, hold]
    · exact absurd hsame (hi.slot_ne hz hgen hkeeps hx
        (hcurrent.elim (hi.table.current hx) id) hkept hvw)
  · simp [Server.setWorker, Server.setSlot, hsame]

omit [DecidableEq ρ] in
theorem slot_setSlot (hne : ∀ v z, v ≠ r → s.worker v = some z → z.generation = s.generation →
      z.keeps = true → z.slot ≠ i) (slot : Slot δ ν) (hvr : v ≠ r) (hz : s.worker v = some z)
    (hgen : z.generation = s.generation) (hkeeps : z.keeps = true) :
    (s.setSlot i slot).slot z.slot = s.slot z.slot := by
  simp [Server.setSlot, hne v z hvr hz hgen hkeeps]

omit [DecidableEq ρ] in
theorem Inv.child_slot_ne (hi : Inv s) (hx : s.worker w = some x) (hchild : x.child = some r)
    (hy : s.worker r = some y) (hkeeps : y.keeps = true) (hvr : v ≠ r) (hz : s.worker v = some z)
    (hgen : z.generation = s.generation) (hkept : z.keeps = true) : z.slot ≠ y.slot := by
  obtain ⟨-, y', hy', -, hgen'⟩ := hi.table.children hx hchild
  obtain rfl : y = y' := Option.some.inj (hy.symm.trans hy')
  exact hi.slot_ne hz hgen hkept hy hgen' hkeeps hvr

theorem Inv.exists_same_of_child (hi : Inv s) (hx : s.worker w = some x)
    (hchild : x.child = some r) (hfinished : x.finished = false) (hy : s.worker r = some y)
    (hkeeps : y.keeps = true) {y' : Worker n ρ δ} {slot : Slot δ ν}
    (ht : t = ((s.setSlot y.slot slot).setWorker r y').setWorker w (x.to phase))
    (hkind : y'.kind = y.kind) (hphase : phase = .serving ∨ phase = .failing)
    (hz' : t.worker v = some z') (hperdb : z'.kind.workerType = .perdb) :
    ∃ z, s.worker v = some z ∧ Same s t z z' := by
  subst ht
  obtain ⟨-, y₀, hy₀, htends, -⟩ := hi.table.children hx hchild
  obtain rfl : y = y₀ := Option.some.inj (hy.symm.trans hy₀)
  refine exists_same_of_pair hx (Worker.holds_of_child hchild).1 hfinished
    (hphase.imp_right .inl) rfl (hkind ▸ htends.ne_perdb hchild) ?_
    (hi.table.child_ne hx hchild).symm hz' hperdb
  intro v z hvr
  exact slot_setSlot (fun _ _ hne => hi.child_slot_ne hx hchild hy hkeeps hne) _ hvr

theorem Inv.exists_same_of_register (hi : Inv s) (hx : s.worker w = some x)
    (hlife : x.life = .running (.launching r)) (hy : s.worker r = some y)
    (hphase : phase = .serving ∨ phase = .catchup r)
    (ht : t = (s.setWorker r { y with life := .registered }).setWorker w (x.to phase))
    (hz' : t.worker v = some z') (hperdb : z'.kind.workerType = .perdb) :
    ∃ z, s.worker v = some z ∧ Same s t z z' := by
  subst ht
  obtain ⟨hchild, -, huse, -⟩ := hi.launching hx hlife hy
  have hkind : y.kind.workerType ≠ .perdb := by
    cases hk : y.kind <;> simp_all [Kind.use, Kind.workerType]
  exact exists_same_of_pair hx (Worker.holds_of_child hchild).1 (by simp [Worker.finished, hlife])
    (hphase.imp_right fun h => .inr (.inr h)) rfl hkind (fun _ _ _ _ _ _ => rfl)
    (hi.table.child_ne hx hchild).symm hz' hperdb

omit [DecidableEq ρ] in
theorem noticed_kind (y : Worker n ρ δ) : y.noticed.kind = y.kind := by
  unfold Worker.noticed
  split <;> rfl

variable [DecidableEq δ] [DecidableEq ν]

theorem provenance (hi : Inv s) {a : Action ρ δ ν} (hok : Orderly s a) (h : step s a = some t)
    (hz' : t.worker v = some z') (hperdb : z'.kind.workerType = .perdb) :
    Provenance s a t v z' := by
  have hsame : a ≠ .crash → (∃ z, s.worker v = some z ∧ Same s t z z') →
      Provenance s a t v z' := by
    rintro hcrash ⟨z, hz, hsame⟩
    exact .same z hcrash hz hsame
  cases step_cases h with
  | setLabel | beginScan | keep | full | started | awaited | terminate =>
    exact .same z' (by simp) hz' (.of_eq fun _ _ => rfl)
  | @start d w i hscan hw hfind halloc =>
    by_cases hvw : v = w
    · subst hvw
      refine .new d i hw ?_ rfl hfind hscan rfl ?_
      · simpa [Server.setWorker] using hz'.symm
      · simp [Server.setWorker, Server.setSlot]
    · have hz : s.worker v = some z' := by
        simpa [Server.setWorker, Server.setSlot, hvw] using hz'
      refine .same z' (by simp) hz (.of_eq fun hgen hkeeps => ?_)
      have hne := hi.slot_ne_of_empty hz hgen hkeeps (eq_empty_of_alloc halloc)
      simp [Server.setWorker, Server.setSlot, hne]
  | stopped hsup hstatus => exact absurd hstatus (hi.not_stopped hok hsup)
  | endScan =>
    refine .same z' (by simp) hz' (.of_eq fun hgen hkeeps => ?_)
    simp [freeUnregisteredPerdbWorker, hi.not_disabled hok hz' hgen hkeeps]
  | @act w b x x' new hlock hx hact =>
    by_cases hvw : v = w
    · subst hvw
      obtain rfl : x' = z' := by simpa [Server.setWorker] using hz'
      exact .act x b hx rfl (by simpa [Server.setWorker, Server.setSlot] using hact)
    · have hz : s.worker v = some z' := by
        simpa [Server.setWorker, Server.setSlot, hvw] using hz'
      exact .same z' (by simp) hz (hi.same_act hx hact hvw hz)
  | allocate hunlocked hr hx halloc hkind hlife hchild =>
    refine hsame (by simp) (exists_same_of_pair hx (by simp [Worker.holds, hlife])
      (by simp [Worker.finished, hlife]) (.inr (.inr (.inl rfl))) rfl ?_
      (fun v z hvr => slot_setSlot ?_ _ hvr) ?_ hz' hperdb)
    · rcases hchild with rfl | rfl <;> simp [Kind.workerType]
    · intro v z _ hz hgen hkeeps
      exact hi.slot_ne_of_empty hz hgen hkeeps (eq_empty_of_alloc halloc)
    · rintro rfl
      simp [hx] at hr
  | registerCatchup hx hlife hy hkind =>
    exact hsame (by simp) (hi.exists_same_of_register hx hlife hy (.inr rfl) rfl hz' hperdb)
  | registerApply hx hlife hy =>
    exact hsame (by simp) (hi.exists_same_of_register hx hlife hy (.inl rfl) rfl hz' hperdb)
  | refuse hunlocked hx hlife hy =>
    obtain ⟨hchild, hpending, -, -⟩ := hi.launching hx hlife hy
    exact hsame (by simp) (hi.exists_same_of_child hx hchild (by simp [Worker.finished, hlife]) hy
      (by simp [Worker.keeps, hpending]) rfl rfl (.inr rfl) hz' hperdb)
  | @caughtUp w r success x y hunlocked hx hlife hy hstatus =>
    obtain ⟨hchild, -, hkeeps, -, -⟩ := hi.waiting hx hlife hy
    exact hsame (by simp) (hi.exists_same_of_child hx hchild (by simp [Worker.finished, hlife]) hy
      hkeeps rfl (noticed_kind y) (by cases success <;> simp) hz' hperdb)
  | @raise w r x y hunlocked hx hlife hy =>
    obtain ⟨hchild, -, hkeeps, -, -⟩ := hi.waiting hx hlife hy
    exact hsame (by simp) (hi.exists_same_of_child hx hchild (by simp [Worker.finished, hlife]) hy
      hkeeps rfl (noticed_kind y) (.inr rfl) hz' hperdb)
  | connect hunlocked hw halloc =>
    refine hsame (by simp) (exists_same_of_other rfl (by simp [Kind.workerType])
      (fun v z hvw => slot_setSlot ?_ _ hvw) hz' hperdb)
    intro v z _ hz hgen hkeeps
    exact hi.slot_ne_of_empty hz hgen hkeeps (eq_empty_of_alloc halloc)
  | @disconnect w x hunlocked hx hkind hlife =>
    refine hsame (by simp) (exists_same_of_other rfl (by simp [hkind, Kind.workerType])
      (fun v z hvw => slot_setSlot ?_ _ hvw) hz' hperdb)
    intro v z hne hz hgen hkeeps
    have hholds : x.holds = true := by simp [Worker.holds, hlife]
    exact hi.slot_ne hz hgen hkeeps hx (hi.table.current hx hholds)
      (Worker.keeps_of_holds hholds) hne
  | crash =>
    obtain ⟨z, hz, rfl⟩ := Option.map_eq_some_iff.mp hz'
    exact .crashed z rfl hz rfl

end Provenance

end Pgactive.Workers
