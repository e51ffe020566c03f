import Pgactive.Transition
import Pgactive.Tenancy
import Pgactive.Workers.Lifecycle
import Pgactive.Workers.Steps
import Mathlib.Data.Fintype.Basic

/-!
# Who has a worker slot

`pgactive_worker_shmem_free` checks that the worker of the slot is gone only with a handle, which no
caller passes. A per-db worker that fails frees the slot of its catchup worker, the supervisor that
of a worker that is to be restarted or is on its way out, and a catchup worker its own before the
per-db worker does. Apart from these cases the slots and the workers are a proper tenancy.
-/

namespace Pgactive.Workers

open Transition

variable {n : ℕ} {ρ δ ν : Type}

def Worker.tenant (x : Worker n ρ δ) (generation : ℕ) : Option (Fin n × Use δ) :=
  if x.generation = generation ∧ x.keeps = true then some (x.slot, x.kind.use) else none

def Server.tenancy (s : Server n ρ δ ν) : Tenancy ρ (Fin n) (Use δ) where
  room i := (s.slot i).use
  tenant w := (s.worker w).bind (Worker.tenant · s.generation)

def Orderly (s : Server n ρ δ ν) : Action ρ δ ν → Prop
  -- a new worker has not been stopped when the supervisor looks after it
  | .startup =>
    match s.supervisor with
    | .starting w _ _ => ∀ x ∈ s.worker w, x.life ≠ .stopped
    | _ => True
  -- the process of an unregistered worker has ended when its database has no label any more
  | .endScan => ∀ w, ∀ x ∈ s.worker w, x.life = .running .leaving →
      (s.slot x.slot).disabled s.label = false
  -- a per-db worker raises no error before its catchup worker has ended
  | .raise w => ∀ x ∈ s.worker w, ∀ r ∈ x.child, ∀ y ∈ s.worker r, y.life = .stopped
  -- a catchup worker does not unregister itself
  | .act w .unregister => ∀ x ∈ s.worker w, x.kind ≠ .catchup
  | _ => True

/-- What holds in every state of an orderly server. -/
structure Inv (s : Server n ρ δ ν) : Prop where
  proper : s.tenancy.Proper
  table : TableInv s.generation s.worker
  /-- The lock that the supervisor holds keeps a new worker from going far. -/
  starting : ∀ {w i d}, s.supervisor = .starting w i d → ∃ x, s.worker w = some x ∧
    x.kind = .perdb d ∧ x.slot = i ∧ x.generation = s.generation ∧ x.young = true
  /-- A worker that has unregistered itself comes to its end. -/
  leaving : ∀ {w x}, s.worker w = some x → x.generation = s.generation → x.keeps = true →
    (s.slot x.slot).isUnregistered = true → x.life = .running .leaving

section Facts

variable {s : Server n ρ δ ν} {w : ρ} {x : Worker n ρ δ} {i : Fin n}

theorem tenant_eq_some (hx : s.worker w = some x) (hgen : x.generation = s.generation)
    (hkeeps : x.keeps = true) : s.tenancy.tenant w = some (x.slot, x.kind.use) := by
  simp [Server.tenancy, hx, Worker.tenant, hgen, hkeeps]

theorem room_of_alloc (h : workerShmemAlloc s.slot = some i) : s.tenancy.room i = none := by
  simp [Server.tenancy, eq_empty_of_alloc h, Slot.use]

theorem free_eq_empty {slot : Slot δ ν} (h : slot.use = some .apply) : slot.free = .empty := by
  cases slot <;> simp_all [Slot.use, Slot.free, workerShmemFree]

variable [DecidableEq ρ]

omit [DecidableEq ρ] in
@[simp] theorem tenancy_setSlot (s : Server n ρ δ ν) (i : Fin n) (slot : Slot δ ν) :
    (s.setSlot i slot).tenancy =
      ⟨Function.update s.tenancy.room i slot.use, s.tenancy.tenant⟩ := by
  simp only [Server.tenancy, Server.setSlot, Tenancy.mk.injEq, and_true]
  funext j
  exact Function.apply_update (fun _ => Slot.use) s.slot i slot j

@[simp] theorem tenancy_setWorker (s : Server n ρ δ ν) (w : ρ) (x : Worker n ρ δ) :
    (s.setWorker w x).tenancy =
      ⟨s.tenancy.room, Function.update s.tenancy.tenant w (x.tenant s.generation)⟩ := by
  simp only [Server.tenancy, Server.setWorker, Tenancy.mk.injEq, true_and]
  funext v
  by_cases hv : v = w
  · subst hv
    simp
  · simp [hv]

end Facts

/-! ### Steps -/

section Steps

variable {s t : Server n ρ δ ν} {w r : ρ} {x y x' y' : Worker n ρ δ}

theorem Inv.frame (hi : Inv s) (hslot : t.slot = s.slot) (hworker : t.worker = s.worker)
    (hgen : t.generation = s.generation)
    (hstarting : ∀ {w i d}, t.supervisor = .starting w i d → ∃ x, s.worker w = some x ∧
      x.kind = .perdb d ∧ x.slot = i ∧ x.generation = s.generation ∧ x.young = true) :
    Inv t where
  proper := by
    have heq : t.tenancy = s.tenancy := by simp [Server.tenancy, hslot, hworker, hgen]
    exact heq ▸ hi.proper
  table := by rw [hgen, hworker]; exact hi.table
  starting h := by rw [hworker, hgen]; exact hstarting h
  leaving := by rw [hworker, hslot, hgen]; exact hi.leaving

theorem Inv.leaving_of (hi : Inv s)
    (hslot : ∀ i, (t.slot i).isUnregistered = true → (s.slot i).isUnregistered = true)
    (hgen : t.generation = s.generation)
    (hworker : ∀ v z, t.worker v = some z → s.worker v = some z ∨
      (t.slot z.slot).isUnregistered = false ∨ ∃ z₀, s.worker v = some z₀ ∧ z₀.slot = z.slot ∧
        z₀.generation = z.generation ∧ z₀.keeps = true ∧ z₀.life ≠ .running .leaving)
    {v : ρ} {z : Worker n ρ δ} (hz : t.worker v = some z) (hcurrent : z.generation = t.generation)
    (hkeeps : z.keeps = true) (hmarked : (t.slot z.slot).isUnregistered = true) :
    z.life = .running .leaving := by
  rw [hgen] at hcurrent
  rcases hworker v z hz with hold | hclear | ⟨z₀, hold, hsame, hgen₀, hkeeps₀, hne⟩
  · exact hi.leaving hold hcurrent hkeeps (hslot _ hmarked)
  · simp [hclear] at hmarked
  · exact absurd (hi.leaving hold (hgen₀.trans hcurrent) hkeeps₀ (hsame ▸ hslot _ hmarked)) hne

theorem Worker.keeps_of_holds (h : x.holds = true) : x.keeps = true := by
  unfold holds at h
  unfold keeps
  split at h <;> simp_all

variable [DecidableEq ρ]

theorem Inv.act_proper (hi : Inv s) (hx : s.worker w = some x) {new : Slot δ ν} {a : Act}
    (hspec : ActSpec x (s.slot x.slot) s.generation a x' new) :
    ((s.setSlot x.slot new).setWorker w x').tenancy.Proper := by
  refine hi.proper.move ?_
  rw [tenancy_setWorker, tenancy_setSlot]
  rcases hspec.use with hsame | ⟨-, hholds, hgone, hfree, huse⟩
  · -- the slot is for the same as before, so that at most its worker leaves
    have hroom : Function.update s.tenancy.room x.slot new.use = s.tenancy.room := by
      rw [hsame]
      exact Function.update_eq_self ..
    rw [hroom]
    refine .leave _ fun v => ?_
    by_cases hv : v = w
    · subst hv
      simp only [Function.update_self, Worker.tenant, Server.setSlot, hspec.generation]
      split_ifs with hcond
      · left
        rw [tenant_eq_some hx hcond.1 (hspec.keeps hcond.2), hspec.slot, hspec.kind]
      · exact .inr rfl
    · exact .inl (Function.update_of_ne hv ..)
  · have htenant := tenant_eq_some hx (hi.table.current hx hholds) (Worker.keeps_of_holds hholds)
    have hnew : new.use = none := by
      rw [hfree, free_eq_empty (huse ▸ hi.proper.let_to htenant)]
      rfl
    have hgone' : x'.tenant s.generation = none := by simp [Worker.tenant, hgone]
    rw [hnew]
    simpa only [Server.setSlot, hgone'] using Tenancy.Move.evict htenant

theorem Inv.act (hi : Inv s) (hx : s.worker w = some x) {new : Slot δ ν} {a : Act}
    (h : x.act (s.slot x.slot) s.generation a = some (x', new))
    (hlock : a.locks = true → s.supervisor.locked = false)
    (hok : x.kind = .catchup → a ≠ .unregister) :
    Inv ((s.setSlot x.slot new).setWorker w x') := by
  have hspec := act_spec h
  refine ⟨hi.act_proper hx hspec, hi.table.act hx hspec hok, ?_, ?_⟩
  · intro v i d hsup
    obtain ⟨z, hz, hkind, hslot, hgen, hyoung⟩ := hi.starting hsup
    have hlocked : s.supervisor.locked = true := by
      rw [show s.supervisor = _ from hsup]
      rfl
    have hfree : a.locks = false := by
      by_contra hlocks
      simp [hlock (by simpa using hlocks)] at hlocked
    by_cases hv : v = w
    · subst hv
      obtain rfl : x = z := Option.some.inj (hx.symm.trans hz)
      exact ⟨x', Function.update_self .., hspec.kind.trans hkind, hspec.slot.trans hslot,
        hspec.generation.trans hgen, hspec.young hfree hgen hyoung⟩
    · exact ⟨z, (Function.update_of_ne hv ..).trans hz, hkind, hslot, hgen, hyoung⟩
  · intro v z hz hgen hkeeps hmarked
    change z.generation = s.generation at hgen
    by_cases hv : v = w
    · subst hv
      obtain rfl : x' = z := by simpa [Server.setWorker] using hz
      simp only [Server.setWorker, Server.setSlot, hspec.slot, Function.update_self] at hmarked
      refine (hspec.unregistered hmarked hkeeps).resolve_right ?_
      rintro ⟨hold, hkept, hne⟩
      exact hne (hi.leaving hx (hspec.generation ▸ hgen) hkept hold)
    · replace hz : s.worker v = some z := (Function.update_of_ne hv ..).symm.trans hz
      by_cases hsame : z.slot = x.slot
      · simp only [Server.setWorker, Server.setSlot, hsame, Function.update_self] at hmarked
        rcases hspec.own with hold | ⟨hkept, hcurrent⟩
        · exact hi.leaving hz hgen hkeeps (by rwa [hsame, ← hold])
        · -- the slot has no other tenant
          have hx' := tenant_eq_some hx (hcurrent.elim (hi.table.current hx) id) hkept
          exact absurd (hi.proper.unique (hsame ▸ tenant_eq_some hz hgen hkeeps) hx') hv
      · simp only [Server.setWorker, Server.setSlot, Function.update_of_ne hsame] at hmarked
        exact hi.leaving hz hgen hkeeps hmarked

theorem update_update_cases {f : ρ → Option (Worker n ρ δ)} {v : ρ} {z : Worker n ρ δ}
    (h : Function.update (Function.update f r (some y')) w (some x') v = some z) :
    v = w ∧ z = x' ∨ v = r ∧ z = y' ∨ v ≠ w ∧ v ≠ r ∧ f v = some z := by
  by_cases hw : v = w
  · subst hw
    rw [Function.update_self, Option.some.injEq] at h
    exact .inl ⟨rfl, h.symm⟩
  rw [Function.update_of_ne hw] at h
  by_cases hr : v = r
  · subst hr
    rw [Function.update_self, Option.some.injEq] at h
    exact .inr (.inl ⟨rfl, h.symm⟩)
  · rw [Function.update_of_ne hr] at h
    exact .inr (.inr ⟨hw, hr, h⟩)

variable {i : Fin n} {slot : Slot δ ν} {phase : Phase ρ}

theorem Inv.pair (hi : Inv s) (hx : s.worker w = some x) (hkeeps : x.keeps = true)
    (hlife : x.life ≠ .running .leaving)
    (hmove : s.tenancy.Move
      (((s.setSlot i slot).setWorker r y').setWorker w (x.to phase)).tenancy)
    (htable : TableInv s.generation
      (Function.update (Function.update s.worker r (some y')) w (some (x.to phase))))
    (hstarting : ∀ {v j d}, s.supervisor = .starting v j d → v ≠ w ∧ v ≠ r)
    (hslot : slot.isUnregistered = true → (s.slot i).isUnregistered = true)
    (hy' : y'.slot = i ∧ slot.isUnregistered = false ∨ ∃ y, s.worker r = some y ∧
      y.slot = y'.slot ∧ y.generation = y'.generation ∧ y.keeps = true ∧
        y.life ≠ .running .leaving) :
    Inv (((s.setSlot i slot).setWorker r y').setWorker w (x.to phase)) := by
  have hmarks : ∀ j, ((((s.setSlot i slot).setWorker r y').setWorker w
      (x.to phase)).slot j).isUnregistered = true → (s.slot j).isUnregistered = true := by
    intro j hj
    by_cases hij : j = i
    · subst hij
      exact hslot (by simpa [Server.setWorker, Server.setSlot] using hj)
    · simpa [Server.setWorker, Server.setSlot, hij] using hj
  refine ⟨hi.proper.move hmove, htable, fun {v j d} hsup => ?_,
    hi.leaving_of hmarks rfl fun v z hz => ?_⟩
  · obtain ⟨z, hz, hrest⟩ := hi.starting hsup
    obtain ⟨hvw, hvr⟩ := hstarting hsup
    refine ⟨z, ?_, hrest⟩
    simpa [Server.setWorker, Server.setSlot, hvw, hvr] using hz
  · obtain ⟨rfl, rfl⟩ | ⟨rfl, rfl⟩ | ⟨-, -, hold⟩ := update_update_cases hz
    · exact .inr (.inr ⟨x, hx, rfl, rfl, hkeeps, hlife⟩)
    · rcases hy' with ⟨rfl, hclear⟩ | hy
      · exact .inr (.inl (by simpa [Server.setWorker, Server.setSlot] using hclear))
      · exact .inr (.inr hy)
    · exact .inl hold

theorem tenancy_to (hx : s.worker w = some x) (hkeeps : x.keeps = true) (phase : Phase ρ)
    (hphase : phase ≠ .freed) : (s.setWorker w (x.to phase)).tenancy = s.tenancy := by
  have hkeeps' : (x.to phase).keeps = true := by
    cases phase <;> simp_all [Worker.to, Worker.keeps]
  have hsame : (x.to phase).tenant s.generation = s.tenancy.tenant w := by
    simp only [Server.tenancy, hx, Option.bind_some, Worker.tenant, hkeeps, hkeeps']
    rfl
  rw [tenancy_setWorker, hsame, Function.update_eq_self]

theorem Inv.enter (hi : Inv s) (hw : s.worker w = none)
    (halloc : workerShmemAlloc s.slot = some i) (hslot : x'.slot = i)
    (hgen : x'.generation = s.generation) (hkeeps : x'.keeps = true) (hchild : x'.child = none)
    (huse : slot.use = some x'.kind.use) (hclear : slot.isUnregistered = false) :
    Inv ((s.setSlot i slot).setWorker w x') := by
  subst hslot
  have hmarks : ∀ j, (((s.setSlot x'.slot slot).setWorker w x').slot j).isUnregistered = true →
      (s.slot j).isUnregistered = true := by
    intro j hj
    by_cases hij : j = x'.slot
    · simp [Server.setWorker, Server.setSlot, hij, hclear] at hj
    · simpa [Server.setWorker, Server.setSlot, hij] using hj
  refine ⟨hi.proper.move ?_, hi.table.set_new hw hgen hchild, fun {v j d} hsup => ?_,
    hi.leaving_of hmarks rfl fun v z hz => ?_⟩
  · have htenant : x'.tenant s.generation = some (x'.slot, x'.kind.use) := by
      simp [Worker.tenant, hgen, hkeeps]
    rw [tenancy_setWorker, tenancy_setSlot, huse]
    simpa only [Server.setSlot, htenant] using
      Tenancy.Move.grant w x'.kind.use (room_of_alloc halloc)
  · obtain ⟨z, hz, hrest⟩ := hi.starting hsup
    refine ⟨z, ?_, hrest⟩
    have hvw : v ≠ w := by
      rintro rfl
      simp [hw] at hz
    simpa [Server.setWorker, Server.setSlot, hvw] using hz
  · by_cases hv : v = w
    · subst hv
      obtain rfl : x' = z := by simpa [Server.setWorker] using hz
      exact .inr (.inl (by simpa [Server.setWorker, Server.setSlot] using hclear))
    · exact .inl (by simpa [Server.setWorker, Server.setSlot, hv] using hz)

theorem Inv.disconnect (hi : Inv s) (hx : s.worker w = some x) (hkind : x.kind = .walsender)
    (hlife : x.life = .running .serving) (hunlocked : s.supervisor.locked = false) :
    Inv ((s.setSlot x.slot (s.slot x.slot).free).setWorker w { x with life := .gone }) := by
  have hcurrent := hi.table.current hx (by simp [Worker.holds, hlife])
  have htenant := tenant_eq_some hx hcurrent (by simp [Worker.keeps, hlife])
  have hslot : (s.slot x.slot).free = .empty := by
    have huse : (s.slot x.slot).use = some .walsender := by
      have := hi.proper.let_to htenant
      rwa [hkind] at this
    cases hs : s.slot x.slot <;> simp_all [Slot.use, Slot.free, workerShmemFree]
  rw [hslot]
  have hmarks : ∀ j, (((s.setSlot x.slot .empty).setWorker w
      { x with life := .gone }).slot j).isUnregistered = true →
      (s.slot j).isUnregistered = true := by
    intro j hj
    by_cases hij : j = x.slot
    · simp [Server.setWorker, Server.setSlot, hij, Slot.isUnregistered] at hj
    · simpa [Server.setWorker, Server.setSlot, hij] using hj
  refine ⟨hi.proper.move ?_, hi.table.set_childless hcurrent.le (fun _ => hcurrent) rfl ?_,
    fun hsup => ?_, hi.leaving_of hmarks rfl fun v z hz => ?_⟩
  · rw [tenancy_setWorker, tenancy_setSlot]
    simpa [Server.setSlot, Worker.tenant, Worker.keeps, Slot.use] using Tenancy.Move.evict htenant
  · intro v z _ hv hz
    obtain ⟨-, y, hy, htends, -⟩ := hi.table.children hv hz
    obtain rfl : x = y := Option.some.inj (hx.symm.trans hy)
    unfold Worker.Tends at htends
    unfold Worker.child at hz
    split at hz <;> simp_all [Kind.use]
  · have hsup' : s.supervisor = _ := hsup
    simp [hsup', Supervisor.locked] at hunlocked
  · by_cases hv : v = w
    · subst hv
      refine .inr (.inr ⟨x, hx, ?_⟩)
      obtain rfl : _ = z := by simpa [Server.setWorker] using hz
      simp [Worker.keeps, hlife]
    · exact .inl (by simpa [Server.setWorker, Server.setSlot, hv] using hz)

omit [DecidableEq ρ] in
theorem Inv.crash (hi : Inv s) {t : Server n ρ δ ν} (hslot : ∀ i, t.slot i = .empty)
    (hgen : t.generation = s.generation + 1)
    (hworker : t.worker = fun w => (s.worker w).map Worker.crashed)
    (hidle : t.supervisor = .idle) : Inv t := by
  have hnobody : ∀ v, t.tenancy.tenant v = none := by
    intro v
    simp only [Server.tenancy, hworker, Option.bind_eq_none_iff, Option.map_eq_some_iff]
    rintro - ⟨z, hz, rfl⟩
    have hle := hi.table.le hz
    have hne : z.generation ≠ t.generation := by omega
    simp [Worker.tenant, Worker.crashed, hne]
  refine ⟨⟨fun h => ?_, fun h => ?_⟩, ?_, fun h => ?_, fun {v z} _ _ _ h => ?_⟩
  · simp [hnobody] at h
  · simp [hnobody] at h
  · rw [hgen, hworker]
    exact hi.table.crash
  · simp [hidle] at h
  · simp [hslot, Slot.isUnregistered] at h

omit [DecidableEq ρ] in
theorem Inv.not_stopped (hi : Inv s) (hok : Orderly s .startup) {d : δ}
    (hsup : s.supervisor = .starting w i d) :
    (s.worker w).map Worker.handleStatus ≠ some .stopped := by
  obtain ⟨x, hx, -, -, -, hyoung⟩ := hi.starting hsup
  have hne : x.life ≠ .stopped := by
    simp only [Orderly, hsup] at hok
    exact hok x hx
  simp only [hx, Option.map_some, ne_eq, Option.some.injEq, Worker.handleStatus]
  unfold Worker.young at hyoung
  cases hlife : x.life <;> simp_all

omit [DecidableEq ρ] in
theorem Inv.not_disabled (hi : Inv s) (hok : Orderly s .endScan) (hx : s.worker w = some x)
    (hgen : x.generation = s.generation) (hkeeps : x.keeps = true) :
    (s.slot x.slot).disabled s.label = false := by
  by_contra hdisabled
  have hmarked : (s.slot x.slot).isUnregistered = true := by
    cases hs : s.slot x.slot with
    | perdb c p u =>
      cases u
      · simp [hs, Slot.disabled] at hdisabled
      · rfl
    | _ => simp [hs, Slot.disabled] at hdisabled
  exact hdisabled (hok w x hx (hi.leaving hx hgen hkeeps hmarked))

theorem Inv.endScan (hi : Inv s) (hok : Orderly s .endScan)
    (hslot : ∀ i, t.slot i = freeUnregisteredPerdbWorker s.label (s.slot i))
    (hworker : t.worker = s.worker) (hgen : t.generation = s.generation)
    (hidle : t.supervisor = .idle) : Inv t := by
  have hfreed : ∀ i, t.slot i = s.slot i ∨
      t.slot i = .empty ∧ (s.slot i).disabled s.label = true := by
    intro i
    rw [hslot]
    unfold freeUnregisteredPerdbWorker
    split_ifs with hdisabled
    · refine .inr ⟨?_, hdisabled⟩
      cases hs : s.slot i <;>
        simp_all [Slot.disabled, Slot.setUnregistered, Slot.free, workerShmemFree]
    · exact .inl rfl
  have htenancy : t.tenancy = ⟨fun i => (t.slot i).use, s.tenancy.tenant⟩ := by
    simp [Server.tenancy, hworker, hgen]
  refine ⟨?_, by rw [hgen, hworker]; exact hi.table, fun h => by simp [hidle] at h,
    hi.leaving_of (fun i hmarked => ?_) hgen fun v z hz => .inl (hworker ▸ hz)⟩
  · rw [htenancy]
    refine hi.proper.move (.vacate _ fun i => ?_)
    refine (hfreed i).imp (congrArg Slot.use) fun hfree w k htenant => ?_
    obtain ⟨x, hx, hx'⟩ := Option.bind_eq_some_iff.mp htenant
    unfold Worker.tenant at hx'
    split_ifs at hx' with hcond
    simp only [Option.some.injEq, Prod.mk.injEq] at hx'
    obtain ⟨rfl, -⟩ := hx'
    simpa [hi.not_disabled hok hx hcond.1 hcond.2] using hfree.2
  · rcases hfreed i with heq | ⟨hempty, -⟩
    · rwa [heq] at hmarked
    · simp [hempty, Slot.isUnregistered] at hmarked

theorem Inv.evict_child (hi : Inv s) (hx : s.worker w = some x) (hchild : x.child = some r)
    (hy : s.worker r = some y) (hkeeps : y.keeps = true) (hleaving : y.life ≠ .running .leaving)
    (hphase : (x.to phase).child = none) (hfreed : phase ≠ .freed)
    (hunlocked : s.supervisor.locked = false) :
    Inv (((s.setSlot y.slot .empty).setWorker r { y with life := .gone }).setWorker w
      (x.to phase)) := by
  obtain ⟨-, y', hy', -, hgen⟩ := hi.table.children hx hchild
  obtain rfl : y = y' := Option.some.inj (hy.symm.trans hy')
  have hrw := hi.table.child_ne hx hchild
  have hkept := (Worker.holds_of_child hchild).2
  have hlife : x.life ≠ .running .leaving := by
    intro h
    simp [Worker.child, h] at hchild
  refine hi.pair hx hkept hlife ?_ (hi.table.orphan hx hchild phase hphase hgen rfl)
    (fun hsup => ?_) (fun hmarked => ?_) (.inr ⟨y, hy, rfl, rfl, hkeeps, hleaving⟩)
  · have hw : ((s.setSlot y.slot .empty).setWorker r { y with life := .gone }).worker w =
        some x := by
      simpa [Server.setWorker, Server.setSlot, hrw.symm] using hx
    rw [tenancy_to hw hkept phase hfreed, tenancy_setWorker, tenancy_setSlot]
    simpa [Server.setSlot, Worker.tenant, Worker.keeps, Slot.use] using
      Tenancy.Move.evict (tenant_eq_some hy hgen hkeeps)
  · simp [hsup, Supervisor.locked] at hunlocked
  · simp [Slot.isUnregistered] at hmarked

omit [DecidableEq ρ] in
theorem Inv.launching (hi : Inv s) (hx : s.worker w = some x)
    (hlife : x.life = .running (.launching r)) (hy : s.worker r = some y) :
    x.child = some r ∧ y.life = .pending ∧ y.kind.use = .apply ∧ y.generation = s.generation := by
  have hchild : x.child = some r := by simp [Worker.child, hlife]
  obtain ⟨-, y', hy', htends, hgen⟩ := hi.table.children hx hchild
  obtain rfl : y = y' := Option.some.inj (hy.symm.trans hy')
  obtain ⟨hpending, huse⟩ : y.life = .pending ∧ y.kind.use = .apply := by
    simpa [Worker.Tends, hlife] using htends
  exact ⟨hchild, hpending, huse, hgen⟩

omit [DecidableEq ρ] in
theorem Inv.waiting (hi : Inv s) (hx : s.worker w = some x)
    (hlife : x.life = .running (.catchup r)) (hy : s.worker r = some y) :
    x.child = some r ∧ y.kind = .catchup ∧ y.keeps = true ∧ y.life ≠ .pending ∧
      y.generation = s.generation := by
  have hchild : x.child = some r := by simp [Worker.child, hlife]
  obtain ⟨-, y', hy', htends, hgen⟩ := hi.table.children hx hchild
  obtain rfl : y = y' := Option.some.inj (hy.symm.trans hy')
  obtain ⟨hkind, hkeeps, hne⟩ : y.kind = .catchup ∧ y.keeps = true ∧ y.life ≠ .pending := by
    simpa [Worker.Tends, hlife] using htends
  exact ⟨hchild, hkind, hkeeps, hne, hgen⟩

theorem Inv.register_child (hi : Inv s) (hx : s.worker w = some x)
    (hlife : x.life = .running (.launching r)) (hy : s.worker r = some y) (phase : Phase ρ)
    (hphase : phase ≠ .freed)
    (htable : TableInv s.generation (Function.update (Function.update s.worker r
      (some { y with life := .registered })) w (some (x.to phase)))) :
    Inv ((s.setWorker r { y with life := .registered }).setWorker w (x.to phase)) := by
  obtain ⟨hchild, hpending, -, -⟩ := hi.launching hx hlife hy
  have hrw := hi.table.child_ne hx hchild
  have hkept := (Worker.holds_of_child hchild).2
  have hkeeps : y.keeps = true := by simp [Worker.keeps, hpending]
  have hsame : ({ y with life := .registered } : Worker n ρ δ).tenant s.generation =
      s.tenancy.tenant r := by
    simp [Server.tenancy, hy, Worker.tenant, Worker.keeps, hpending]
  have hinv : Inv (((s.setSlot y.slot (s.slot y.slot)).setWorker r
      { y with life := .registered }).setWorker w (x.to phase)) := by
    refine hi.pair hx hkept (by simp [hlife]) ?_ htable (fun {v j d} hsup => ?_) id
      (.inr ⟨y, hy, rfl, rfl, hkeeps, by simp [hpending]⟩)
    · rw [setSlot_self, tenancy_to (by simpa [Server.setWorker, hrw.symm] using hx) hkept phase
        hphase, tenancy_setWorker, hsame, Function.update_eq_self]
      exact .refl _
    · obtain ⟨z, hz, -, -, -, hyoung⟩ := hi.starting hsup
      constructor <;> rintro rfl
      · obtain rfl : x = z := Option.some.inj (hx.symm.trans hz)
        simp [Worker.young, hlife] at hyoung
      · obtain rfl : y = z := Option.some.inj (hy.symm.trans hz)
        simp [Worker.young, hpending] at hyoung
  rwa [setSlot_self] at hinv

theorem Inv.allocate (hi : Inv s) {kind : Kind δ} {remote : ν} {d e : δ} (hr : s.worker r = none)
    (hunlocked : s.supervisor.locked = false) (hx : s.worker w = some x)
    (halloc : workerShmemAlloc s.slot = some i) (hkind : x.kind = .perdb e)
    (hlife : x.life = .running .serving) (huse : kind.use = .apply) :
    Inv (((s.setSlot i (.apply d remote)).setWorker r
      ⟨kind, i, s.generation, .pending, none⟩).setWorker w (x.to (.launching r))) := by
  have hrw : w ≠ r := by
    rintro rfl
    simp [hx] at hr
  have hcurrent := hi.table.current hx (by simp [Worker.holds, hlife])
  have hkept : x.keeps = true := by simp [Worker.keeps, hlife]
  refine hi.pair hx hkept (by simp [hlife]) ?_ ?_ (fun hsup => ?_)
    (by simp [Slot.isUnregistered]) (.inl ⟨rfl, rfl⟩)
  · rw [tenancy_to (by simpa [Server.setWorker, Server.setSlot, hrw] using hx) hkept
      (.launching r) (by simp), tenancy_setWorker, tenancy_setSlot]
    simpa [Server.setSlot, Worker.tenant, Worker.keeps, huse, Slot.use] using
      Tenancy.Move.grant r (.apply : Use δ) (room_of_alloc halloc)
  · exact hi.table.allocate hx (by rw [hkind]; rfl) hcurrent hr rfl rfl huse
  · simp [hsup, Supervisor.locked] at hunlocked

theorem Inv.stopWaiting (hi : Inv s) (hx : s.worker w = some x)
    (hlife : x.life = .running (.catchup r)) (hy : s.worker r = some y)
    (hstopped : y.life = .stopped) (hunlocked : s.supervisor.locked = false)
    (hphase : phase = .serving ∨ phase = .failing) : Inv (s.catchupToLsnCleanup w r x y phase) := by
  obtain ⟨hchild, hkind, hkeeps, -, hgen⟩ := hi.waiting hx hlife hy
  have hslot : (s.slot y.slot).free = .empty := by
    refine free_eq_empty ((hi.proper.let_to (tenant_eq_some hy hgen hkeeps)).trans ?_)
    rw [hkind]
    rfl
  have hnoticed : y.noticed = { y with life := .gone } := by simp [Worker.noticed, hstopped]
  unfold Server.catchupToLsnCleanup
  rw [hslot, hnoticed]
  exact hi.evict_child hx hchild hy hkeeps (by simp [hstopped])
    (by rcases hphase with rfl | rfl <;> rfl) (by rcases hphase with rfl | rfl <;> simp) hunlocked

omit [DecidableEq ρ] in
theorem Inv.stopped_of_status (hi : Inv s) (hx : s.worker w = some x)
    (hlife : x.life = .running (.catchup r)) (hy : s.worker r = some y)
    (hstatus : y.handleStatus = .stopped) : y.life = .stopped := by
  obtain ⟨-, -, hkeeps, -, -⟩ := hi.waiting hx hlife hy
  unfold Worker.handleStatus at hstatus
  unfold Worker.keeps at hkeeps
  cases hl : y.life <;> simp_all

variable [DecidableEq δ] [DecidableEq ν]

theorem inv_step (hi : Inv s) {a : Action ρ δ ν} (hok : Orderly s a) (h : step s a = some t) :
    Inv t := by
  cases step_cases h with
  | setLabel => exact hi.frame rfl rfl rfl hi.starting
  | keep => exact hi
  | beginScan | full | started | awaited | terminate => exact hi.frame rfl rfl rfl (by simp)
  | start hscan hw hfind halloc =>
    refine (hi.enter hw halloc rfl rfl rfl rfl rfl rfl).frame rfl rfl rfl fun hsup => ?_
    simp only [Supervisor.starting.injEq] at hsup
    obtain ⟨rfl, rfl, rfl⟩ := hsup
    exact ⟨_, Function.update_self .., rfl, rfl, rfl, rfl⟩
  | stopped hsup hstatus => exact absurd hstatus (hi.not_stopped hok hsup)
  | endScan => exact hi.endScan hok (fun _ => rfl) rfl rfl rfl
  | act hlock hx hact =>
    refine hi.act hx hact (by simpa using hlock) ?_
    rintro hkind rfl
    exact hok _ hx hkind
  | allocate hunlocked hr hx halloc hkind hlife hchild =>
    exact hi.allocate hr hunlocked hx halloc hkind hlife (by rcases hchild with rfl | rfl <;> rfl)
  | registerCatchup hx hlife hy hkind =>
    obtain ⟨-, -, -, hgen⟩ := hi.launching hx hlife hy
    exact hi.register_child hx hlife hy _ (by simp)
      (hi.table.register_catchup hx hlife hgen rfl hkind)
  | registerApply hx hlife hy =>
    obtain ⟨hchild, -, -, hgen⟩ := hi.launching hx hlife hy
    exact hi.register_child hx hlife hy _ (by simp) (hi.table.orphan hx hchild _ rfl hgen rfl)
  | refuse hunlocked hx hlife hy =>
    obtain ⟨hchild, hpending, -, -⟩ := hi.launching hx hlife hy
    exact hi.evict_child hx hchild hy (by simp [Worker.keeps, hpending]) (by simp [hpending]) rfl
      (by simp) hunlocked
  | @caughtUp w r success x y hunlocked hx hlife hy hstatus =>
    exact hi.stopWaiting hx hlife hy (hi.stopped_of_status hx hlife hy hstatus) hunlocked
      (by cases success <;> simp)
  | raise hunlocked hx hlife hy =>
    obtain ⟨hchild, -⟩ := hi.waiting hx hlife hy
    exact hi.stopWaiting hx hlife hy (hok _ hx _ hchild _ hy) hunlocked (.inr rfl)
  | connect hunlocked hw halloc => exact hi.enter hw halloc rfl rfl rfl rfl rfl rfl
  | disconnect hunlocked hx hkind hlife => exact hi.disconnect hx hkind hlife hunlocked
  | crash => exact hi.crash (fun _ => rfl) rfl rfl rfl

theorem inv_of_reach (hs : Reach Server.Initial step Orderly s) : Inv s := by
  refine hs.invariant (fun s hinit => ?_) fun _ _ _ _ hi hok h => inv_step hi hok h
  obtain ⟨hslot, hworker, hidle⟩ := hinit
  refine ⟨⟨fun h => ?_, fun h => ?_⟩, ⟨fun h => ?_, fun h => ?_, fun h => ?_, fun h => ?_⟩,
    fun h => ?_, fun h => ?_⟩
  all_goals simp_all [Server.tenancy]

omit [DecidableEq ρ] [DecidableEq δ] [DecidableEq ν] in
theorem workerType_of_use {kind : Kind δ} (h : slot.use = some kind.use) :
    slot.workerType = kind.workerType := by
  cases slot <;> cases kind <;> simp_all [Slot.use, Kind.use, Slot.workerType, Kind.workerType]

/-- On an orderly server the slot that a running process has acquired stays what it is, is not
handed out, and has been acquired by no other process, until the process itself gives it back. -/
theorem slot_kept (hs : Reach Server.Initial step Orderly s) (hx : s.worker w = some x)
    (hholds : x.holds = true) :
    (s.slot x.slot).workerType = x.kind.workerType ∧ s.slot x.slot ≠ .empty ∧
      workerShmemAlloc s.slot ≠ some x.slot ∧
        ∀ v z, s.worker v = some z → z.holds = true → z.slot = x.slot → v = w := by
  have hi := inv_of_reach hs
  have htenant : ∀ {v z}, s.worker v = some z → z.holds = true →
      s.tenancy.tenant v = some (z.slot, z.kind.use) := fun hz hheld =>
    tenant_eq_some hz (hi.table.current hz hheld) (Worker.keeps_of_holds hheld)
  have huse : (s.slot x.slot).use = some x.kind.use := hi.proper.let_to (htenant hx hholds)
  have hne : s.slot x.slot ≠ .empty := by
    intro hempty
    simp [hempty, Slot.use] at huse
  refine ⟨workerType_of_use huse, hne, fun halloc => hne (eq_empty_of_alloc halloc),
    fun v z hz hheld hslot => ?_⟩
  exact hi.proper.unique (hslot ▸ htenant hz hheld) (htenant hx hholds)

end Steps

instance [Fintype ρ] [DecidableEq ρ] [DecidableEq δ] (s : Server n ρ δ ν) :
    DecidablePred (Orderly s)
  | .startup =>
    match h : s.supervisor with
    | .starting w _ _ =>
      decidable_of_iff (∀ x ∈ s.worker w, x.life ≠ .stopped) (by simp only [Orderly, h])
    | .idle | .scanning | .awaiting .. => .isTrue (by simp only [Orderly, h])
  | .endScan => inferInstanceAs (Decidable (∀ w, ∀ x ∈ s.worker w, _ → _))
  | .raise w => inferInstanceAs (Decidable (∀ x ∈ s.worker w, ∀ r ∈ x.child, ∀ y ∈ s.worker r, _))
  | .act w .unregister => inferInstanceAs (Decidable (∀ x ∈ s.worker w, x.kind ≠ .catchup))
  | .act _ .start | .act _ .abort | .act _ .acquire | .act _ .serve | .act _ .fail
  | .act _ .finish | .act _ .release | .act _ .exit | .setLabel .. | .beginScan | .examine ..
  | .awaited | .terminateSupervisor | .allocate .. | .register .. | .caughtUp .. | .connect _
  | .disconnect _ | .crash => .isTrue trivial

def Server.fresh : Server 2 (Fin 2) Unit Unit :=
  ⟨fun _ => .empty, 1, fun _ => none, fun _ => none, .idle⟩

def catchupActions : List (Action (Fin 2) Unit Unit) :=
  [.setLabel () (some true), .beginScan, .examine () 0 true, .act 0 .start, .startup,
    .act 0 .acquire, .act 0 .serve, .awaited, .endScan, .allocate 0 1 .catchup (),
    .register 0 true, .act 1 .start, .act 1 .acquire, .act 1 .serve]

/-- The catchup worker runs and has its slot. -/
theorem slot_kept_catchup : ∃ s : Server 2 (Fin 2) Unit Unit,
    Reach Server.Initial step Orderly s ∧
      ∃ x ∈ s.worker 1, x.holds = true ∧ s.slot x.slot ≠ .empty := by
  have hfresh : Reach Server.Initial step Orderly Server.fresh :=
    .init ⟨fun _ => rfl, fun _ => rfl, rfl⟩
  obtain ⟨s, hs, x, hx, hholds⟩ := hfresh.exists_of_run catchupActions
    (fun s => ∃ x ∈ s.worker 1, x.holds = true) (by decide)
  exact ⟨s, hs, x, hx, hholds, (slot_kept hs hx hholds).2.1⟩

/-- The per-db worker raises an error. The catchup worker goes on in a slot that is empty and
the next one to be handed out. -/
theorem slot_freed_while_held : ∃ s : Server 2 (Fin 2) Unit Unit,
    Reach Server.Initial step (fun _ _ => True) s ∧
      ∃ x ∈ s.worker 1, x.holds = true ∧ s.slot x.slot = .empty ∧
        workerShmemAlloc s.slot = some x.slot := by
  have hfresh : Reach Server.Initial step (fun _ _ => True) Server.fresh :=
    .init ⟨fun _ => rfl, fun _ => rfl, rfl⟩
  exact hfresh.exists_of_run (catchupActions ++ [.raise 0]) _ (by decide)

end Pgactive.Workers
