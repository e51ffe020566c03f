import Pgactive.Workers.Slots

/-!
# The life of a worker

The steps that a worker takes by itself are specified here once, with what they do to its slot. A
process that has its slot is of the current generation, and a per-db worker that launches or waits
for another worker is the only one to do so.
-/

namespace Pgactive.Workers

variable {n : ℕ} {ρ δ ν : Type}

/-- What a slot is for. -/
inductive Use (δ : Type)
  | apply
  | perdb (dboid : δ)
  | walsender

def Slot.use : Slot δ ν → Option (Use δ)
  | .empty => none
  | .apply .. => some .apply
  | .perdb cDboid _ _ => some (.perdb cDboid)
  | .walsender => some .walsender

def Kind.use : Kind δ → Use δ
  | .perdb dboid => .perdb dboid
  | .apply | .catchup => .apply
  | .walsender => .walsender

def Slot.isUnregistered : Slot δ ν → Bool
  | .perdb _ _ unregistered => unregistered
  | _ => false

@[simp] theorem use_setPDboid (slot : Slot δ ν) (d : Option δ) :
    (slot.setPDboid d).use = slot.use := by
  cases slot <;> rfl

@[simp] theorem use_setUnregistered (slot : Slot δ ν) (b : Bool) :
    (slot.setUnregistered b).use = slot.use := by
  cases slot <;> rfl

@[simp] theorem isUnregistered_setPDboid (slot : Slot δ ν) (d : Option δ) :
    (slot.setPDboid d).isUnregistered = slot.isUnregistered := by
  cases slot <;> rfl

@[simp] theorem isUnregistered_setUnregistered_false (slot : Slot δ ν) :
    (slot.setUnregistered false).isUnregistered = false := by
  cases slot <;> rfl

/-- The process runs and has its slot. -/
def Worker.holds (x : Worker n ρ δ) : Bool :=
  match x.life with
  | .running .acquired | .running .serving | .running (.launching _) | .running (.catchup _)
  | .running .failing | .running .finishing | .running .leaving => true
  | _ => false

def Worker.keeps (x : Worker n ρ δ) : Bool :=
  match x.life with
  | .gone | .running .freed => false
  | _ => true

def Worker.young (x : Worker n ρ δ) : Bool :=
  match x.life with
  | .registered | .stopped | .running .starting | .running .acquired | .running .failing
  | .running (.exiting false) => true
  | _ => false

def Worker.child (x : Worker n ρ δ) : Option ρ :=
  match x.life with
  | .running (.launching child) | .running (.catchup child) => some child
  | _ => none

/-- What a step of a worker does to it and to its slot. -/
structure ActSpec (x : Worker n ρ δ) (old : Slot δ ν) (g : ℕ) (a : Act) (x' : Worker n ρ δ)
    (new : Slot δ ν) : Prop where
  kind : x'.kind = x.kind
  slot : x'.slot = x.slot
  generation : x'.generation = x.generation
  child : x.child = none ∧ x'.child = none
  pending : x.life ≠ .pending ∧ x'.life ≠ .pending
  keeps : x'.keeps = true → x.keeps = true
  /-- Only its own request ends a catchup worker before its end has been noticed. -/
  catchup : x.kind = .catchup → a ≠ .unregister → x.keeps = true → x'.keeps = true
  holds : x'.holds = true → x.holds = true ∨ x.generation = g
  young : a.locks = false → x.generation = g → x.young = true → x'.young = true
  /-- A slot is changed by a worker that it belongs to. -/
  own : new = old ∨ x.keeps = true ∧ (x.holds = true ∨ x.generation = g)
  /-- A slot is freed by an apply worker that unregisters itself. -/
  use : new.use = old.use ∨
    a = .unregister ∧ x.holds = true ∧ x'.keeps = false ∧ new = old.free ∧ x.kind.use = .apply
  unregistered : new.isUnregistered = true → x'.keeps = true →
    x'.life = .running .leaving ∨
      old.isUnregistered = true ∧ x.keeps = true ∧ x.life ≠ .running .leaving

theorem Worker.ended_spec (x : Worker n ρ δ) (slot : Slot δ ν) (g : ℕ) (clean : Bool)
    (hlife : x.life = .running (.exiting clean)) :
    ActSpec x slot g .exit (x.ended clean) slot := by
  have hcatchup : x.kind = .catchup → x.kind.restarts = false := fun h => by rw [h]; rfl
  cases clean <;> cases hr : x.kind.restarts <;> constructor <;>
    simp_all [child, keeps, ended, holds, young]

theorem act_spec {x x' : Worker n ρ δ} {old new : Slot δ ν} {g : ℕ} {a : Act}
    (h : x.act old g a = some (x', new)) : ActSpec x old g a x' new := by
  cases a with simp only [Worker.act] at h
  | exit =>
    split at h
    · rename_i clean hlife
      simp only [Option.some.injEq, Prod.mk.injEq] at h
      obtain ⟨rfl, rfl⟩ := h
      exact x.ended_spec old g clean hlife
    · simp only [Option.some.injEq, Prod.mk.injEq] at h
      obtain ⟨rfl, rfl⟩ := h
      constructor <;> simp_all [Worker.child, Worker.keeps, Worker.holds, Worker.young]
    · simp only [Option.some.injEq, Prod.mk.injEq] at h
      obtain ⟨rfl, rfl⟩ := h
      constructor <;> simp_all [Worker.child, Worker.keeps, Worker.holds, Worker.young]
    · cases h
  | _ =>
    -- the other steps lead from one phase to another
    split at h <;> (try split_ifs at h) <;>
      simp only [reduceCtorEq, Option.some.injEq, Prod.mk.injEq] at h <;> obtain ⟨rfl, rfl⟩ := h
    all_goals
      constructor <;> simp_all [Worker.to, Worker.child, Worker.keeps, Worker.holds,
        Worker.young, Act.locks, Kind.use]

/-! ### The table of workers -/

section Table

variable {g : ℕ} {f : ρ → Option (Worker n ρ δ)} {w r : ρ} {x y x' : Worker n ρ δ}

def Worker.Tends (x y : Worker n ρ δ) : Prop :=
  match x.life with
  | .running (.launching _) => y.life = .pending ∧ y.kind.use = .apply
  | .running (.catchup _) => y.kind = .catchup ∧ y.keeps = true ∧ y.life ≠ .pending
  | _ => True

/-- What holds for the workers by themselves. -/
structure TableInv (g : ℕ) (f : ρ → Option (Worker n ρ δ)) : Prop where
  le : ∀ {w x}, f w = some x → x.generation ≤ g
  current : ∀ {w x}, f w = some x → x.holds = true → x.generation = g
  children : ∀ {w x r}, f w = some x → x.child = some r → x.kind.workerType = .perdb ∧
    ∃ y, f r = some y ∧ x.Tends y ∧ y.generation = g
  parent : ∀ {w w' x x' r}, f w = some x → f w' = some x' → x.child = some r →
    x'.child = some r → w = w'

theorem Worker.holds_of_child (h : x.child = some r) : x.holds = true ∧ x.keeps = true := by
  unfold child at h
  unfold holds keeps
  split at h <;> simp_all

theorem Kind.use_ne_of_perdb {k : Kind δ} (h : k.workerType = .perdb) : k.use ≠ .apply := by
  cases k <;> simp_all [workerType, use]

theorem Worker.Tends.ne_perdb (h : x.Tends y) (hc : x.child = some r) :
    y.kind.workerType ≠ .perdb := by
  intro hy
  have hne := Kind.use_ne_of_perdb hy
  unfold child at hc
  unfold Tends at h
  split at hc <;> simp_all [Kind.use]

variable [DecidableEq ρ]

section

variable (hi : TableInv g f)
include hi

theorem TableInv.set (hle : x'.generation ≤ g) (hcurrent : x'.holds = true → x'.generation = g)
    (hchild : ∀ r, x'.child = some r → x'.kind.workerType = .perdb ∧
      (∃ y, Function.update f w (some x') r = some y ∧ x'.Tends y ∧ y.generation = g) ∧
        ∀ v z, f v = some z → z.child = some r → v = w)
    (htended : ∀ v z, v ≠ w → f v = some z → z.child = some w → z.Tends x' ∧ x'.generation = g) :
    TableInv g (Function.update f w (some x')) := by
  have hcases : ∀ {v z}, Function.update f w (some x') v = some z →
      v = w ∧ z = x' ∨ v ≠ w ∧ f v = some z := by
    intro v z hv
    by_cases hvw : v = w
    · subst hvw
      rw [Function.update_self, Option.some.injEq] at hv
      exact .inl ⟨rfl, hv.symm⟩
    · rw [Function.update_of_ne hvw] at hv
      exact .inr ⟨hvw, hv⟩
  constructor
  · intro v z hv
    obtain ⟨rfl, rfl⟩ | ⟨-, hold⟩ := hcases hv
    · exact hle
    · exact hi.le hold
  · intro v z hv hz
    obtain ⟨rfl, rfl⟩ | ⟨-, hold⟩ := hcases hv
    · exact hcurrent hz
    · exact hi.current hold hz
  · intro v z r hv hz
    obtain ⟨rfl, rfl⟩ | ⟨hvw, hold⟩ := hcases hv
    · exact ⟨(hchild r hz).1, (hchild r hz).2.1⟩
    · obtain ⟨hperdb, y, hy, htends, hgen⟩ := hi.children hold hz
      refine ⟨hperdb, ?_⟩
      by_cases hrw : r = w
      · subst hrw
        exact ⟨x', Function.update_self .., htended v z hvw hold hz⟩
      · exact ⟨y, by rwa [Function.update_of_ne hrw], htends, hgen⟩
  · intro v v' z z' r hv hv' hz hz'
    obtain ⟨rfl, rfl⟩ | ⟨-, hold⟩ := hcases hv <;>
      obtain ⟨rfl, rfl⟩ | ⟨-, hold'⟩ := hcases hv'
    · rfl
    · exact ((hchild r hz).2.2 v' z' hold' hz').symm
    · exact (hchild r hz').2.2 v z hold hz
    · exact hi.parent hold hold' hz hz'

theorem TableInv.set_childless (hle : x'.generation ≤ g)
    (hcurrent : x'.holds = true → x'.generation = g) (hchild : x'.child = none)
    (htended : ∀ v z, v ≠ w → f v = some z → z.child = some w → z.Tends x' ∧ x'.generation = g) :
    TableInv g (Function.update f w (some x')) :=
  hi.set hle hcurrent (fun r hr => by simp [hchild] at hr) htended

theorem TableInv.act (hx : f w = some x) {old new : Slot δ ν} {a : Act}
    (hspec : ActSpec x old g a x' new) (hok : x.kind = .catchup → a ≠ .unregister) :
    TableInv g (Function.update f w (some x')) := by
  refine hi.set_childless (hspec.generation ▸ hi.le hx) (fun hh => ?_) hspec.child.2
    fun v z _ hv hz => ?_
  · rw [hspec.generation]
    exact (hspec.holds hh).elim (hi.current hx) id
  · obtain ⟨-, y, hy, htends, hgen⟩ := hi.children hv hz
    obtain rfl : x = y := Option.some.inj (hx.symm.trans hy)
    refine ⟨?_, hspec.generation ▸ hgen⟩
    unfold Worker.Tends at htends ⊢
    split at htends
    · exact absurd htends.1 hspec.pending.1
    · obtain ⟨hkind, hkeeps, -⟩ := htends
      exact ⟨hspec.kind ▸ hkind, hspec.catchup hkind (hok hkind) hkeeps, hspec.pending.2⟩
    · trivial

theorem TableInv.set_new (hw : f w = none) (hgen : x'.generation = g)
    (hchild : x'.child = none) : TableInv g (Function.update f w (some x')) := by
  refine hi.set_childless hgen.le (fun _ => hgen) hchild fun v z _ hv hz => ?_
  obtain ⟨-, y, hy, -⟩ := hi.children hv hz
  simp [hw] at hy

theorem TableInv.set_parent (hx : f w = some x)
    (hperdb : x.kind.workerType = .perdb) (hgen : x.generation = g) (phase : Phase ρ)
    (hchild : ∀ r, (x.to phase).child = some r →
      (∃ y, r ≠ w ∧ f r = some y ∧ (x.to phase).Tends y ∧ y.generation = g) ∧
        ∀ v z, f v = some z → z.child = some r → v = w) :
    TableInv g (Function.update f w (some (x.to phase))) := by
  refine hi.set hgen.le (fun _ => hgen) (fun r hr => ?_) fun v z _ hv hz => ?_
  · obtain ⟨⟨y, hrw, hy⟩, honly⟩ := hchild r hr
    exact ⟨hperdb, ⟨y, by rwa [Function.update_of_ne hrw]⟩, honly⟩
  · obtain ⟨-, y, hy, htends, -⟩ := hi.children hv hz
    obtain rfl : x = y := Option.some.inj (hx.symm.trans hy)
    exact absurd hperdb (htends.ne_perdb hz)

end

end Table

/-! ### Parents and children -/

section Families

variable [DecidableEq ρ] {g : ℕ} {f : ρ → Option (Worker n ρ δ)} {w r : ρ}
  {x y y' : Worker n ρ δ}

omit [DecidableEq ρ] in
theorem TableInv.child_ne (hi : TableInv g f) (hx : f w = some x) (hchild : x.child = some r) :
    r ≠ w := by
  rintro rfl
  obtain ⟨hperdb, y, hy, htends, -⟩ := hi.children hx hchild
  obtain rfl : x = y := Option.some.inj (hx.symm.trans hy)
  exact htends.ne_perdb hchild hperdb

theorem TableInv.orphan (hi : TableInv g f) (hx : f w = some x) (hchild : x.child = some r)
    (phase : Phase ρ) (hphase : (x.to phase).child = none) (hgen : y'.generation = g)
    (hy' : y'.child = none) :
    TableInv g (Function.update (Function.update f r (some y')) w (some (x.to phase))) := by
  have hcurrent := hi.current hx (Worker.holds_of_child hchild).1
  have hparted : TableInv g (Function.update f w (some (x.to phase))) :=
    hi.set_parent hx (hi.children hx hchild).1 hcurrent phase fun v hv => by simp [hphase] at hv
  rw [Function.update_comm (hi.child_ne hx hchild)]
  refine hparted.set_childless hgen.le (fun _ => hgen) hy' fun v z _ hv hz => ?_
  by_cases hvw : v = w
  · subst hvw
    rw [Function.update_self, Option.some.injEq] at hv
    simp [← hv, hphase] at hz
  · rw [Function.update_of_ne hvw] at hv
    exact absurd (hi.parent hv hx hz hchild) hvw

theorem TableInv.allocate (hi : TableInv g f) (hx : f w = some x)
    (hperdb : x.kind.workerType = .perdb) (hcurrent : x.generation = g) (hr : f r = none)
    (hgen : y.generation = g) (hlife : y.life = .pending) (huse : y.kind.use = .apply) :
    TableInv g (Function.update (Function.update f r (some y)) w
      (some (x.to (.launching r)))) := by
  have hchildless : y.child = none := by simp [Worker.child, hlife]
  have hrw : r ≠ w := by
    rintro rfl
    simp [hx] at hr
  have hnew := hi.set_new hr hgen hchildless
  refine hnew.set_parent (by rwa [Function.update_of_ne hrw.symm]) hperdb hcurrent _ fun v hv => ?_
  obtain rfl : r = v := Option.some.inj hv
  refine ⟨⟨y, hrw, Function.update_self .., ⟨hlife, huse⟩, hgen⟩, fun v z hv hz => ?_⟩
  by_cases hvr : v = r
  · subst hvr
    rw [Function.update_self, Option.some.injEq] at hv
    simp [← hv, hchildless] at hz
  · rw [Function.update_of_ne hvr] at hv
    obtain ⟨-, y', hy', -⟩ := hi.children hv hz
    simp [hr] at hy'

theorem TableInv.register_catchup (hi : TableInv g f) (hx : f w = some x)
    (hlife : x.life = .running (.launching r)) (hgen : y'.generation = g)
    (hy' : y'.life = .registered) (hkind : y'.kind = .catchup) :
    TableInv g (Function.update (Function.update f r (some y')) w (some (x.to (.catchup r)))) := by
  have hchild : x.child = some r := by simp [Worker.child, hlife]
  have hrw := hi.child_ne hx hchild
  have hparted := hi.orphan hx hchild .serving rfl hgen
    (by simp [Worker.child, hy'] : y'.child = none)
  have hcurrent := hi.current hx (Worker.holds_of_child hchild).1
  have htaken := hparted.set_parent (w := w) (x := x.to .serving) (Function.update_self ..)
    (hi.children hx hchild).1 hcurrent (.catchup r) fun v hv => by
      obtain rfl : r = v := Option.some.inj hv
      refine ⟨⟨y', hrw, by simp [Function.update_of_ne hrw], ⟨hkind, ?_, ?_⟩, hgen⟩,
        fun v z hv hz => ?_⟩
      · simp [Worker.keeps, hy']
      · simp [hy']
      · by_contra hvw
        rw [Function.update_of_ne hvw] at hv
        by_cases hvr : v = r
        · subst hvr
          rw [Function.update_self, Option.some.injEq] at hv
          simp [← hv, Worker.child, hy'] at hz
        · rw [Function.update_of_ne hvr] at hv
          exact hvw (hi.parent hv hx hz hchild)
  rwa [Function.update_idem] at htaken

omit [DecidableEq ρ] in
theorem Worker.crashed_idle (z : Worker n ρ δ) :
    z.crashed.holds = false ∧ z.crashed.child = none := by
  unfold crashed holds child
  cases z.life <;> cases z.kind.restarts <;> simp

omit [DecidableEq ρ] in
theorem TableInv.crash (hi : TableInv g f) :
    TableInv (g + 1) fun w => (f w).map Worker.crashed := by
  constructor
  · intro v z hv
    obtain ⟨x, hx, rfl⟩ := Option.map_eq_some_iff.mp hv
    exact (hi.le hx).trans (Nat.le_succ g)
  · intro v z hv hz
    obtain ⟨x, -, rfl⟩ := Option.map_eq_some_iff.mp hv
    simp [Worker.crashed_idle] at hz
  · intro v z r hv hz
    obtain ⟨x, -, rfl⟩ := Option.map_eq_some_iff.mp hv
    simp [Worker.crashed_idle] at hz
  · intro v v' z z' r hv _ hz _
    obtain ⟨x, -, rfl⟩ := Option.map_eq_some_iff.mp hv
    simp [Worker.crashed_idle] at hz

end Families

end Pgactive.Workers
