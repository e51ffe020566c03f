import Pgactive.Workers.Slots

/-!
# What a step of the server does

The cases of `step`, with the conditions under which they are taken and the state after them.
-/

namespace Pgactive.Workers

variable {n : ℕ} {ρ δ ν : Type}

theorem eq_empty_of_alloc {slots : Fin n → Slot δ ν} {i : Fin n}
    (h : workerShmemAlloc slots = some i) : slots i = .empty := by
  have hempty := List.find?_some h
  cases hi : slots i <;> simp_all [Slot.workerType]

@[simp] theorem setSlot_self (s : Server n ρ δ ν) (i : Fin n) : s.setSlot i (s.slot i) = s := by
  simp [Server.setSlot]

variable [DecidableEq ρ] [DecidableEq δ] [DecidableEq ν] {s t : Server n ρ δ ν}
  {a : Action ρ δ ν}

/-- The cases of a step. -/
inductive Stepped (s : Server n ρ δ ν) : Action ρ δ ν → Server n ρ δ ν → Prop
  | setLabel {d : δ} {label : Option Bool} :
    Stepped s (.setLabel d label) { s with label := Function.update s.label d label }
  | beginScan (hidle : s.supervisor = .idle) :
    Stepped s .beginScan { s with supervisor := .scanning }
  /-- The database has a worker, or none can be registered and the slot is given back at once. -/
  | keep {d : δ} {w : ρ} {registers : Bool} : Stepped s (.examine d w registers) s
  | full {d : δ} {w : ρ} {registers : Bool} (hscan : s.supervisor = .scanning) :
    Stepped s (.examine d w registers) { s with supervisor := .idle }
  | start {d : δ} {w : ρ} {i : Fin n} (hscan : s.supervisor = .scanning) (hw : s.worker w = none)
    (hfind : findPerdbWorkerSlot s.slot d = .notFound) (halloc : workerShmemAlloc s.slot = some i) :
    Stepped s (.examine d w true)
      { (s.setSlot i (.perdb d none false)).setWorker w
          ⟨.perdb d, i, s.generation, .registered, none⟩ with
        supervisor := .starting w i d }
  | started {w : ρ} {i : Fin n} {d : δ} (hsup : s.supervisor = .starting w i d)
    (hstatus : (s.worker w).map Worker.handleStatus = some .started) :
    Stepped s .startup { s with supervisor := .awaiting w i d }
  | stopped {w : ρ} {i : Fin n} {d : δ} (hsup : s.supervisor = .starting w i d)
    (hstatus : (s.worker w).map Worker.handleStatus = some .stopped) :
    Stepped s .startup { s.setSlot i (s.slot i).free with supervisor := .scanning }
  | awaited {w : ρ} {i : Fin n} {d : δ} (hsup : s.supervisor = .awaiting w i d)
    (hserves : (s.slot i).servesDb d = true) :
    Stepped s .awaited { s with supervisor := .scanning }
  | endScan (hscan : s.supervisor = .scanning) :
    Stepped s .endScan { s with
      slot := fun i => freeUnregisteredPerdbWorker s.label (s.slot i)
      supervisor := .idle }
  | terminate {w : ρ} {i : Fin n} {d : δ} (hsup : s.supervisor = .awaiting w i d) :
    Stepped s .terminateSupervisor { s with supervisor := .idle }
  | act {w : ρ} {b : Act} {x x' : Worker n ρ δ} {new : Slot δ ν}
    (hlock : ¬(b.locks && s.supervisor.locked) = true) (hx : s.worker w = some x)
    (hact : x.act (s.slot x.slot) s.generation b = some (x', new)) :
    Stepped s (.act w b) ((s.setSlot x.slot new).setWorker w x')
  | allocate {w r : ρ} {kind : Kind δ} {remote : ν} {x : Worker n ρ δ} {i : Fin n} {e d : δ}
    (hunlocked : s.supervisor.locked = false) (hr : s.worker r = none) (hx : s.worker w = some x)
    (halloc : workerShmemAlloc s.slot = some i) (hkind : x.kind = .perdb e)
    (hlife : x.life = .running .serving)
    (hchild : kind = .catchup ∨ kind = .apply) :
    Stepped s (.allocate w r kind remote)
      (((s.setSlot i (.apply d remote)).setWorker r
        ⟨kind, i, s.generation, .pending, none⟩).setWorker w (x.to (.launching r)))
  | registerCatchup {w r : ρ} {x y : Worker n ρ δ} (hx : s.worker w = some x)
    (hlife : x.life = .running (.launching r)) (hy : s.worker r = some y)
    (hkind : y.kind = .catchup) :
    Stepped s (.register w true)
      ((s.setWorker r { y with life := .registered }).setWorker w (x.to (.catchup r)))
  | registerApply {w r : ρ} {x y : Worker n ρ δ} (hx : s.worker w = some x)
    (hlife : x.life = .running (.launching r)) (hy : s.worker r = some y) :
    Stepped s (.register w true)
      ((s.setWorker r { y with life := .registered }).setWorker w (x.to .serving))
  | refuse {w r : ρ} {x y : Worker n ρ δ} (hunlocked : s.supervisor.locked = false)
    (hx : s.worker w = some x) (hlife : x.life = .running (.launching r))
    (hy : s.worker r = some y) :
    Stepped s (.register w false)
      (((s.setSlot y.slot .empty).setWorker r { y with life := .gone }).setWorker w
        (x.to .failing))
  | caughtUp {w r : ρ} {success : Bool} {x y : Worker n ρ δ}
    (hunlocked : s.supervisor.locked = false) (hx : s.worker w = some x)
    (hlife : x.life = .running (.catchup r)) (hy : s.worker r = some y)
    (hstatus : y.handleStatus = .stopped) :
    Stepped s (.caughtUp w success)
      (s.catchupToLsnCleanup w r x y (if success then .serving else .failing))
  | raise {w r : ρ} {x y : Worker n ρ δ} (hunlocked : s.supervisor.locked = false)
    (hx : s.worker w = some x) (hlife : x.life = .running (.catchup r))
    (hy : s.worker r = some y) : Stepped s (.raise w) (s.catchupToLsnCleanup w r x y .failing)
  | connect {w : ρ} {i : Fin n} (hunlocked : s.supervisor.locked = false) (hw : s.worker w = none)
    (halloc : workerShmemAlloc s.slot = some i) :
    Stepped s (.connect w) ((s.setSlot i .walsender).setWorker w
      ⟨.walsender, i, s.generation, .running .serving, none⟩)
  | disconnect {w : ρ} {x : Worker n ρ δ} (hunlocked : s.supervisor.locked = false)
    (hx : s.worker w = some x) (hkind : x.kind = .walsender)
    (hlife : x.life = .running .serving) :
    Stepped s (.disconnect w)
      ((s.setSlot x.slot (s.slot x.slot).free).setWorker w { x with life := .gone })
  | crash :
    Stepped s .crash { s with
      slot := fun _ => .empty
      generation := s.generation + 1
      worker := fun w => (s.worker w).map Worker.crashed
      supervisor := .idle }

variable {w : ρ}

omit [DecidableEq ν] in
theorem examine_cases {d : δ} {registers : Bool} (hscan : s.supervisor = .scanning)
    (hw : s.worker w = none) : Stepped s (.examine d w registers) (s.examine d w registers) := by
  unfold Server.examine
  split
  · exact .keep
  · exact .keep
  rename_i hfind
  split
  · exact .full hscan
  rename_i i halloc
  split_ifs with hregisters
  · subst hregisters
    exact .start hscan hw hfind halloc
  · have hfree : (Slot.perdb d none false : Slot δ ν).free = s.slot i :=
      (eq_empty_of_alloc halloc).symm
    rw [hfree, setSlot_self]
    exact .keep

theorem allocate_cases {r : ρ} {kind : Kind δ} {remote : ν}
    (hunlocked : s.supervisor.locked = false) (hr : s.worker r = none)
    (h : s.allocate w r kind remote = some t) : Stepped s (.allocate w r kind remote) t := by
  unfold Server.allocate at h
  split at h
  · rename_i x i hx halloc
    split at h
    · rename_i hkind hlife hdb
      split_ifs at h with hchild
      cases h
      exact .allocate hunlocked hr hx halloc hkind hlife (hchild.imp_right And.left)
    · cases h
  · cases h

omit [DecidableEq ν] in
theorem register_cases {registers : Bool}
    (hunlocked : registers = false → s.supervisor.locked = false)
    (h : s.register w registers = some t) : Stepped s (.register w registers) t := by
  unfold Server.register at h
  split at h
  · cases h
  rename_i x hx
  split at h
  · rename_i r hlife
    split at h
    · cases h
    rename_i y hy
    split_ifs at h with hregisters hkind
    · cases h
      subst hregisters
      exact .registerCatchup hx hlife hy hkind
    · cases h
      subst hregisters
      exact .registerApply hx hlife hy
    · cases h
      rw [Bool.not_eq_true] at hregisters
      subst hregisters
      exact .refuse (hunlocked rfl) hx hlife hy
  · cases h

omit [DecidableEq δ] [DecidableEq ν] in
theorem stopWaiting_eq_some {noticed : Bool} {phase : Phase ρ}
    (h : s.stopWaiting w noticed phase = some t) :
    ∃ r x y, s.worker w = some x ∧ x.life = .running (.catchup r) ∧ s.worker r = some y ∧
      (noticed = true → y.handleStatus = .stopped) ∧
      t = s.catchupToLsnCleanup w r x y phase := by
  unfold Server.stopWaiting at h
  split at h
  · cases h
  rename_i x hx
  split at h
  · rename_i r hlife
    split at h
    · cases h
    rename_i y hy
    rw [Option.ite_none_left_eq_some] at h
    obtain ⟨hstatus, h⟩ := h
    refine ⟨r, x, y, hx, hlife, hy, fun hnoticed => ?_, (Option.some.inj h).symm⟩
    simpa [hnoticed] using hstatus
  · cases h

theorem step_cases (h : step s a = some t) : Stepped s a t := by
  cases a with simp only [step] at h
  | setLabel d label =>
    cases h
    exact .setLabel
  | beginScan =>
    split_ifs at h with hidle
    cases h
    exact .beginScan hidle
  | examine d w registers =>
    split_ifs at h with hcond
    cases h
    exact examine_cases hcond.1 hcond.2.2
  | startup =>
    split at h
    · rename_i w i d hsup
      split at h
      · rename_i hstatus
        cases h
        exact .started hsup hstatus
      · rename_i hstatus
        cases h
        exact .stopped hsup hstatus
      · cases h
    · cases h
  | awaited =>
    split at h
    · rename_i w i d hsup
      split_ifs at h with hserves
      cases h
      exact .awaited hsup hserves
    · cases h
  | endScan =>
    split_ifs at h with hscan
    cases h
    exact .endScan hscan
  | terminateSupervisor =>
    split at h
    · rename_i hsup
      cases h
      exact .terminate hsup
    · cases h
  | act w b =>
    split_ifs at h with hlock
    obtain ⟨x, hx, hmap⟩ := Option.bind_eq_some_iff.mp h
    obtain ⟨⟨x', new⟩, hact, rfl⟩ := Option.map_eq_some_iff.mp hmap
    exact .act hlock hx hact
  | allocate w r kind remote =>
    split_ifs at h with hcond
    exact allocate_cases hcond.1 hcond.2 h
  | register w registers =>
    split_ifs at h with hlock
    exact register_cases (fun hfail => by simpa [hfail] using hlock) h
  | caughtUp w success =>
    rw [Option.ite_none_left_eq_some] at h
    obtain ⟨r, x, y, hx, hlife, hy, hstatus, rfl⟩ := stopWaiting_eq_some h.2
    exact .caughtUp (by simpa using h.1) hx hlife hy (hstatus rfl)
  | raise w =>
    rw [Option.ite_none_left_eq_some] at h
    obtain ⟨r, x, y, hx, hlife, hy, -, rfl⟩ := stopWaiting_eq_some h.2
    exact .raise (by simpa using h.1) hx hlife hy
  | connect w =>
    split at h
    · cases h
    rename_i i halloc
    split_ifs at h with hcond
    cases h
    exact .connect hcond.1 hcond.2 halloc
  | disconnect w =>
    split at h
    · cases h
    rename_i x hx
    split_ifs at h with hcond
    cases h
    exact .disconnect hcond.1 hx hcond.2.1 hcond.2.2
  | crash =>
    split_ifs at h
    cases h
    exact .crash

end Pgactive.Workers
