import Pgactive.Workers.Provenance

/-!
# One per-db worker for a database

The supervisor registers a per-db worker for a labelled database when no worker has set that
database, and waits for the new one to set it. This fails when the supervisor is terminated while it
waits, or gives up a stopped worker that the postmaster then restarts. A worker that leaves its main
loop takes back its database before its process has ended.
-/

namespace Pgactive.Workers

open Transition

variable {n : ℕ} {ρ δ ν : Type}

def Worker.Serves (x : Worker n ρ δ) (dboid : δ) : Prop :=
  x.kind.workerType = .perdb ∧ (∃ phase, x.life = .running phase) ∧ x.db = some dboid

/-- The supervisor does not lose a worker that it has registered from sight, and does not look at
a database whose worker is about to end. -/
def Settled [DecidableEq δ] (s : Server n ρ δ ν) : Action ρ δ ν → Prop
  -- the new worker has set its database when the supervisor is terminated, or is gone
  | .terminateSupervisor =>
    match s.supervisor with
    | .awaiting w i dboid => (s.slot i).servesDb dboid = true ∨ ∀ x ∈ s.worker w, x.life = .gone
    | _ => True
  -- a worker that has left its main loop has ended when its database is looked at
  | .examine dboid _ _ => ∀ w, ∀ x ∈ s.worker w, x.kind = .perdb dboid → x.finished = false
  | _ => True

/-- The condition on the steps of a server with one per-db worker for each database. -/
def Exclusive [DecidableEq δ] (s : Server n ρ δ ν) (a : Action ρ δ ν) : Prop :=
  Orderly s a ∧ Settled s a

/-! ### The databases of the per-db workers -/

def Slot.pDboid : Slot δ ν → Option δ
  | .perdb _ pDboid _ => pDboid
  | _ => none

@[simp] theorem pDboid_setUnregistered (slot : Slot δ ν) (b : Bool) :
    (slot.setUnregistered b).pDboid = slot.pDboid := by
  cases slot <;> rfl

/-- What a step of a per-db worker does to its database. -/
structure ActPerdb (z : Worker n ρ δ) (old : Slot δ ν) (g : ℕ) (e : δ) (z' : Worker n ρ δ)
    (new : Slot δ ν) : Prop where
  holds : z'.holds = true → z'.db = some e ∨ z.holds = true ∧ z'.db = z.db
  db : ∀ d, z'.db = some d → z'.keeps = true ∧ (z.db = some d ∨ d = e ∧ z.generation = g)
  pDboid : new.pDboid = old.pDboid ∧ (z.finished = true → z'.keeps = true → z'.finished = true) ∨
    z.holds = true ∧ new.pDboid = z.db ∨ new.pDboid = none ∧ z'.finished = true

theorem pDboid_setPDboid (slot : Slot δ ν) (d : Option δ) :
    (slot.setPDboid d).pDboid = d ∨ (slot.setPDboid d).pDboid = slot.pDboid := by
  cases slot
  case perdb => exact .inl rfl
  all_goals exact .inr rfl

theorem dboid_of_use {slot : Slot δ ν} {e : δ} (h : slot.use = some (.perdb e)) :
    slot.dboid = some e := by
  cases slot <;> simp_all [Slot.use, Slot.dboid]

theorem act_perdb {z z' : Worker n ρ δ} {old new : Slot δ ν} {g : ℕ} {b : Act} {e : δ}
    (h : z.act old g b = some (z', new)) (hkind : z.kind = .perdb e)
    (hdb : ∀ d, z.db = some d → z.keeps = true)
    (huse : z.generation = g → z.keeps = true → old.use = some (.perdb e)) :
    ActPerdb z old g e z' new := by
  have hserve := pDboid_setPDboid old z.db
  have hfinish := pDboid_setPDboid old none
  cases b with simp only [Worker.act, hkind] at h
  | acquire =>
    split at h
    · rename_i hlife
      split_ifs at h with hgen <;> simp only [Option.some.injEq, Prod.mk.injEq] at h <;>
        obtain ⟨rfl, rfl⟩ := h
      · constructor <;> simp_all [Worker.to, Worker.keeps, Worker.holds, Worker.finished]
      · constructor <;> simp_all [Worker.to, Worker.keeps, Worker.holds, Worker.finished]
      · -- the slot is for the database that the worker has been registered for
        have hdboid : old.dboid = some e :=
          dboid_of_use (huse (not_ne_iff.mp hgen) (by simp [Worker.keeps, hlife]))
        constructor <;> simp_all [Worker.to, Worker.keeps, Worker.holds, Worker.finished]
    · cases h
  | exit =>
    split at h
    · rename_i clean hlife
      simp only [Option.some.injEq, Prod.mk.injEq] at h
      obtain ⟨rfl, rfl⟩ := h
      cases clean <;> constructor <;>
        simp [Worker.ended, Worker.keeps, Worker.holds, Worker.finished, hlife, hkind,
          Kind.restarts]
    all_goals
      simp only [reduceCtorEq, Option.some.injEq, Prod.mk.injEq] at h
      try obtain ⟨rfl, rfl⟩ := h
      try constructor <;> simp_all [Worker.keeps, Worker.holds, Worker.finished]
  | _ =>
    split at h <;> (try split_ifs at h) <;>
      simp only [reduceCtorEq, Option.some.injEq, Prod.mk.injEq] at h <;> obtain ⟨rfl, rfl⟩ := h
    all_goals
      constructor <;> simp_all [Worker.to, Worker.keeps, Worker.holds, Worker.finished] <;> tauto

/-- The supervisor has registered a worker and not yet found it in its slot. -/
def Supervisor.Expects (sup : Supervisor n ρ δ) (w : ρ) (i : Fin n) : Prop :=
  ∃ d, sup = .starting w i d ∨ sup = .awaiting w i d

/-- What holds in every state of an exclusive server. -/
structure PerdbInv (s : Server n ρ δ ν) : Prop where
  /-- A per-db worker is connected to the database that it has been registered for. -/
  db : ∀ {w x e}, s.worker w = some x → x.kind = .perdb e →
    (x.holds = true → x.db = some e) ∧
      ∀ d, x.db = some d → d = e ∧ x.generation = s.generation ∧ x.keeps = true
  /-- Its slot shows that database, unless the supervisor waits for this or the worker has left
  its main loop. -/
  pDboid : ∀ {w x e}, s.worker w = some x → x.kind = .perdb e → x.generation = s.generation →
    x.keeps = true → (s.slot x.slot).pDboid = some e ∨ (s.slot x.slot).pDboid = none ∧
      (x.finished = true ∨ s.supervisor.Expects w x.slot)
  expects : ∀ {w i x}, s.supervisor.Expects w i → s.worker w = some x →
    x.kind.workerType = .perdb → x.slot = i
  unique : ∀ {w w' x x' e}, s.worker w = some x → s.worker w' = some x' → x.kind = .perdb e →
    x'.kind = .perdb e → x.generation = s.generation → x'.generation = s.generation →
      x.keeps = true → x'.keeps = true → w = w'

section Facts

variable {s t : Server n ρ δ ν} {v : ρ} {z z' : Worker n ρ δ} {e : δ}

theorem servesDb_of_pDboid [DecidableEq δ] {slot : Slot δ ν} (h : slot.pDboid = some e) :
    slot.servesDb e = true := by
  cases slot <;> simp_all [Slot.pDboid, Slot.servesDb]

theorem servesDb_of_notFound [DecidableEq δ] {slots : Fin n → Slot δ ν}
    (h : findPerdbWorkerSlot slots e = .notFound) (i : Fin n) : (slots i).servesDb e = false := by
  unfold findPerdbWorkerSlot at h
  split at h
  · rename_i hnone
    simpa using List.find?_eq_none.mp hnone i (List.mem_finRange i)
  · split at h <;> cases h

theorem Same.keeps (hsame : Same s t z z') (h : z'.keeps = true) : z.keeps = true := by
  rcases hsame.life with hlife | ⟨hholds, -⟩
  · unfold Worker.keeps at h ⊢
    rwa [hlife] at h
  · exact Worker.keeps_of_holds hholds

theorem Inv.use_of_perdb (hi : Inv s) (hz : s.worker v = some z) (hkind : z.kind = .perdb e)
    (hgen : z.generation = s.generation) (hkeeps : z.keeps = true) :
    (s.slot z.slot).use = some (.perdb e) := by
  have huse := hi.proper.let_to (tenant_eq_some hz hgen hkeeps)
  rwa [hkind] at huse

end Facts

section Exclusive

variable [DecidableEq ρ] [DecidableEq δ] [DecidableEq ν] {s t : Server n ρ δ ν} {v w : ρ}
  {x z z' : Worker n ρ δ} {a : Action ρ δ ν} {e : δ} {i : Fin n}

def Action.ofSupervisor : Action ρ δ ν → Bool
  | .beginScan | .examine .. | .startup | .awaited | .endScan | .terminateSupervisor | .crash =>
    true
  | _ => false

theorem step_frame (h : step s a = some t) (ha : a.ofSupervisor = false) :
    t.supervisor = s.supervisor := by
  cases step_cases h with
  | beginScan | keep | full | start | started | stopped | awaited | endScan | terminate | crash =>
    cases ha
  | _ => rfl

theorem generation_step (h : step s a = some t) (ha : a ≠ .crash) :
    t.generation = s.generation := by
  cases step_cases h with
  | crash => exact absurd rfl ha
  | _ => rfl

theorem Inv.generation_crashed_ne (hi : Inv s) (h : step s .crash = some t)
    (hz : s.worker v = some z) : z.crashed.generation ≠ t.generation := by
  have hle := hi.table.le hz
  cases step_cases h
  simp only [Worker.crashed]
  omega

theorem expects_step (hi : Inv s) (hok : Exclusive s a) (h : step s a = some t)
    (hexp : s.supervisor.Expects w x.slot) (hx : s.worker w = some x)
    (hkeeps : x.keeps = true)
    (hunset : (s.slot x.slot).pDboid = none) (ha : a ≠ .crash) :
    t.supervisor.Expects w x.slot := by
  cases hsup : a.ofSupervisor with
  | false => rwa [step_frame h hsup]
  | true =>
    have hserves : ∀ d, (s.slot x.slot).servesDb d = false := by
      intro d
      cases hs : s.slot x.slot <;> simp_all [Slot.servesDb, Slot.pDboid]
    obtain ⟨d, hexp⟩ := hexp
    cases step_cases h with
    | keep => exact ⟨d, hexp⟩
    | started hstart =>
      obtain ⟨rfl, rfl, rfl⟩ := by simpa [hstart] using hexp
      exact ⟨_, .inr rfl⟩
    | stopped hstart hstatus => exact absurd hstatus (hi.not_stopped hok.1 hstart)
    | awaited hwait hfound =>
      obtain ⟨rfl, rfl, rfl⟩ := by simpa [hwait] using hexp
      simp [hserves] at hfound
    | terminate hwait =>
      obtain ⟨rfl, rfl, rfl⟩ := by simpa [hwait] using hexp
      have hdone := hok.2
      simp only [Settled, hwait, hserves, Bool.false_eq_true, false_or] at hdone
      simp [Worker.keeps, hdone x hx] at hkeeps
    | beginScan hidle => simp [hidle] at hexp
    | full hscan | start hscan | endScan hscan => simp [hscan] at hexp
    | crash => exact absurd rfl ha
    | _ => cases hsup

theorem expects_of_step (h : step s a = some t) (hexp : t.supervisor.Expects w i) :
    s.supervisor.Expects w i ∨ s.worker w = none := by
  cases hsup : a.ofSupervisor with
  | false => exact .inl (step_frame h hsup ▸ hexp)
  | true =>
    obtain ⟨d, hexp⟩ := hexp
    cases step_cases h with
    | keep => exact .inl ⟨d, hexp⟩
    | start hscan hw =>
      obtain ⟨rfl, -, -⟩ := by simpa using hexp
      exact .inr hw
    | started hstart =>
      obtain ⟨rfl, rfl, rfl⟩ := by simpa using hexp
      exact .inl ⟨_, .inl hstart⟩
    | beginScan | full | stopped | awaited | endScan | terminate | crash => simp at hexp
    | _ => cases hsup

omit [DecidableEq ρ] [DecidableEq δ] [DecidableEq ν] in
theorem PerdbInv.actPerdb (hi : Inv s) (hp : PerdbInv s) (hz : s.worker v = some z)
    (hkind : z.kind = .perdb e) {b : Act} {new : Slot δ ν}
    (hact : z.act (s.slot z.slot) s.generation b = some (z', new)) :
    ActPerdb z (s.slot z.slot) s.generation e z' new :=
  act_perdb hact hkind (fun d hd => ((hp.db hz hkind).2 d hd).2.2) (hi.use_of_perdb hz hkind)

omit [DecidableEq ρ] [DecidableEq ν] in
theorem PerdbInv.not_registered (hp : PerdbInv s) {w : ρ}
    (hok : Exclusive s (.examine e w true)) (hfind : findPerdbWorkerSlot s.slot e = .notFound)
    (hscan : s.supervisor = .scanning) (hz : s.worker v = some z) (hkind : z.kind = .perdb e)
    (hgen : z.generation = s.generation) : z.keeps = false := by
  by_contra hkeeps
  rcases hp.pDboid hz hkind hgen (by simpa using hkeeps) with hset | ⟨-, hfinished | ⟨d, hexp⟩⟩
  · have hserves := servesDb_of_notFound hfind z.slot
    simp [servesDb_of_pDboid hset] at hserves
  · simp [hok.2 v z hz hkind] at hfinished
  · simp [hscan] at hexp

theorem tenant_of_step (hi : Inv s) (hok : Exclusive s a) (h : step s a = some t)
    (hx : t.worker w = some x) (hkind : x.kind = .perdb e) (hgen : x.generation = t.generation)
    (hkeeps : x.keeps = true) :
    a = .examine e w true ∧ findPerdbWorkerSlot s.slot e = .notFound ∧
        s.supervisor = .scanning ∨
      ∃ z, s.worker w = some z ∧ z.kind = .perdb e ∧ z.generation = s.generation ∧
        z.keeps = true := by
  cases provenance hi hok.1 h hx (by rw [hkind]; rfl) with
  | new d i hnone hz' ha hfind hscan hstart hslot =>
    subst hz'
    obtain rfl : d = e := by simpa using hkind
    exact .inl ⟨ha, hfind, hscan⟩
  | act z b hz ha hact =>
    have hspec := act_spec hact
    rw [generation_step h (by simp [ha])] at hgen
    exact .inr ⟨z, hz, hspec.kind.symm.trans hkind, hspec.generation.symm.trans hgen,
      hspec.keeps hkeeps⟩
  | same z ha hz hsame =>
    rw [generation_step h ha] at hgen
    exact .inr ⟨z, hz, hsame.kind.symm.trans hkind, hsame.generation.symm.trans hgen,
      hsame.keeps hkeeps⟩
  | crashed z ha hz hz' =>
    subst ha hz'
    exact absurd hgen (hi.generation_crashed_ne h hz)

theorem PerdbInv.db_step (hi : Inv s) (hp : PerdbInv s) (hok : Exclusive s a)
    (h : step s a = some t) {x : Worker n ρ δ} (hx : t.worker w = some x)
    (hkind : x.kind = .perdb e) :
    (x.holds = true → x.db = some e) ∧
      ∀ d, x.db = some d → d = e ∧ x.generation = t.generation ∧ x.keeps = true := by
  cases provenance hi hok.1 h hx (by rw [hkind]; rfl) with
  | new d i hnone hz' ha hfind hscan hstart hslot =>
    subst hz'
    simp [Worker.holds]
  | act z b hz ha hact =>
    have hspec := act_spec hact
    have hkindz := hspec.kind.symm.trans hkind
    have hact' := hp.actPerdb hi hz hkindz hact
    obtain ⟨hholds, hdb⟩ := hp.db hz hkindz
    refine ⟨fun hx => ?_, fun d hd => ?_⟩
    · rcases hact'.holds hx with hset | ⟨hheld, hsame⟩
      · exact hset
      · exact hsame.trans (hholds hheld)
    · obtain ⟨hkeeps, hcase⟩ := hact'.db d hd
      rw [generation_step h (by simp [ha]), hspec.generation]
      rcases hcase with hold | ⟨rfl, hgen⟩
      · exact ⟨(hdb d hold).1, (hdb d hold).2.1, hkeeps⟩
      · exact ⟨rfl, hgen, hkeeps⟩
  | same z ha hz hsame =>
    obtain ⟨hholds, hdb⟩ := hp.db hz (hsame.kind.symm.trans hkind)
    rw [generation_step h ha, hsame.generation, hsame.db]
    rcases hsame.life with hlife | ⟨hheld, hheld', -⟩
    · simp only [Worker.holds, Worker.keeps, hlife] at hholds hdb ⊢
      exact ⟨hholds, hdb⟩
    · exact ⟨fun _ => hholds hheld, fun d hd =>
        ⟨(hdb d hd).1, (hdb d hd).2.1, Worker.keeps_of_holds hheld'⟩⟩
  | crashed z ha hz hz' =>
    subst hz'
    exact ⟨fun hheld => by simp [Worker.crashed_idle] at hheld, fun d hd => by cases hd⟩

theorem PerdbInv.pDboid_step (hi : Inv s) (hp : PerdbInv s) (hok : Exclusive s a)
    (h : step s a = some t) {x : Worker n ρ δ} (hx : t.worker w = some x)
    (hkind : x.kind = .perdb e) (hgen : x.generation = t.generation) (hkeeps : x.keeps = true) :
    (t.slot x.slot).pDboid = some e ∨ (t.slot x.slot).pDboid = none ∧
      (x.finished = true ∨ t.supervisor.Expects w x.slot) := by
  cases provenance hi hok.1 h hx (by rw [hkind]; rfl) with
  | new d i hnone hz' ha hfind hscan hstart hslot =>
    subst hz'
    exact .inr ⟨by rw [hslot]; rfl, .inr ⟨d, .inl hstart⟩⟩
  | act z b hz ha hact =>
    have hspec := act_spec hact
    have hkindz := hspec.kind.symm.trans hkind
    rw [generation_step h (by simp [ha])] at hgen
    rw [hspec.slot, step_frame h (by rw [ha]; rfl)]
    rcases (hp.actPerdb hi hz hkindz hact).pDboid with ⟨heq, hstays⟩ | ⟨hheld, heq⟩ | hdone
    · rw [heq]
      have hold := hp.pDboid hz hkindz (hspec.generation.symm.trans hgen) (hspec.keeps hkeeps)
      refine hold.imp_right (And.imp_right ?_)
      exact Or.imp_left fun hfinished => hstays hfinished hkeeps
    · exact .inl (heq.trans ((hp.db hz hkindz).1 hheld))
    · exact .inr ⟨hdone.1, .inl hdone.2⟩
  | same z ha hz hsame =>
    rw [generation_step h ha] at hgen
    have hgenz := hsame.generation.symm.trans hgen
    have hkeepsz := hsame.keeps hkeeps
    rw [hsame.slot, hsame.content hgenz hkeepsz]
    obtain hset | ⟨hunset, hwhy⟩ := hp.pDboid hz (hsame.kind.symm.trans hkind) hgenz hkeepsz
    · exact .inl hset
    refine .inr ⟨hunset, ?_⟩
    rcases hwhy with hfinished | hexp
    · rcases hsame.life with hlife | ⟨-, -, hnot, -⟩
      · left
        unfold Worker.finished at hfinished ⊢
        rwa [hlife]
      · simp [hnot] at hfinished
    · exact .inr (expects_step hi hok h hexp hz hkeepsz hunset ha)
  | crashed z ha hz hz' =>
    subst ha hz'
    exact absurd hgen (hi.generation_crashed_ne h hz)

theorem PerdbInv.expects_slot_step (hi : Inv s) (hp : PerdbInv s) (hok : Exclusive s a)
    (h : step s a = some t) {i : Fin n} {x : Worker n ρ δ} (hexp : t.supervisor.Expects w i)
    (hx : t.worker w = some x) (hperdb : x.kind.workerType = .perdb) : x.slot = i := by
  have hback := expects_of_step h hexp
  cases provenance hi hok.1 h hx hperdb with
  | new d j hnone hz' ha hfind hscan hstart hslot =>
    subst hz'
    obtain ⟨d', hexp⟩ := hexp
    simp only [hstart, Supervisor.starting.injEq, true_and, reduceCtorEq, or_false] at hexp
    exact hexp.1
  | act z b hz ha hact =>
    have hspec := act_spec hact
    have hold := hback.resolve_right (by simp [hz])
    rw [hspec.slot]
    exact hp.expects hold hz (hspec.kind ▸ hperdb)
  | same z ha hz hsame =>
    have hold := hback.resolve_right (by simp [hz])
    rw [hsame.slot]
    exact hp.expects hold hz (hsame.kind ▸ hperdb)
  | crashed z ha hz hz' =>
    subst ha hz'
    have hslot : z.slot = i := hp.expects (hback.resolve_right (by simp [hz])) hz hperdb
    exact hslot

theorem PerdbInv.unique_step (hi : Inv s) (hp : PerdbInv s) (hok : Exclusive s a)
    (h : step s a = some t) {w' : ρ} {x x' : Worker n ρ δ} (hx : t.worker w = some x)
    (hx' : t.worker w' = some x') (hkind : x.kind = .perdb e) (hkind' : x'.kind = .perdb e)
    (hgen : x.generation = t.generation) (hgen' : x'.generation = t.generation)
    (hkeeps : x.keeps = true) (hkeeps' : x'.keeps = true) : w = w' := by
  have h₁ := tenant_of_step hi hok h hx hkind hgen hkeeps
  have h₂ := tenant_of_step hi hok h hx' hkind' hgen' hkeeps'
  rcases h₁ with ⟨rfl, hfind, hscan⟩ | ⟨z, hz, hkindz, hgenz, hkeepsz⟩
  · rcases h₂ with ⟨heq, -⟩ | ⟨z', hz', hkindz', hgenz', hkeepsz'⟩
    · simpa using heq
    · simp [hp.not_registered hok hfind hscan hz' hkindz' hgenz'] at hkeepsz'
  · rcases h₂ with ⟨rfl, hfind, hscan⟩ | ⟨z', hz', hkindz', hgenz', hkeepsz'⟩
    · simp [hp.not_registered hok hfind hscan hz hkindz hgenz] at hkeepsz
    · exact hp.unique hz hz' hkindz hkindz' hgenz hgenz' hkeepsz hkeepsz'

theorem perdbInv_step (hi : Inv s) (hp : PerdbInv s) (hok : Exclusive s a)
    (h : step s a = some t) : PerdbInv t where
  db := hp.db_step hi hok h
  pDboid := hp.pDboid_step hi hok h
  expects := hp.expects_slot_step hi hok h
  unique := hp.unique_step hi hok h

theorem perdbInv_of_reach (hs : Reach Server.Initial step Exclusive s) : PerdbInv s := by
  have horderly : ∀ {s : Server n ρ δ ν}, Reach Server.Initial step Exclusive s →
      Reach Server.Initial step Orderly s := fun hs => hs.mono fun _ _ _ _ hok => hok.1
  refine hs.invariant (fun s hinit => ?_) fun _ _ _ hr hp hok h =>
    perdbInv_step (inv_of_reach (horderly hr)) hp hok h
  obtain ⟨hslot, hworker, hidle⟩ := hinit
  refine ⟨fun h => ?_, fun h => ?_, fun _ h => ?_, fun h => ?_⟩
  all_goals simp [hworker] at h

/-- On an exclusive server no two running per-db workers are connected to one database. -/
theorem perdb_unique (hs : Reach Server.Initial step Exclusive s) {x x' : Worker n ρ δ} {w' : ρ}
    {dboid : δ} (hx : s.worker w = some x) (hx' : s.worker w' = some x')
    (hserves : x.Serves dboid) (hserves' : x'.Serves dboid) : w = w' := by
  have hp := perdbInv_of_reach hs
  have hkind : ∀ {y : Worker n ρ δ}, y.kind.workerType = .perdb → ∃ e, y.kind = .perdb e := by
    intro y hy
    cases hk : y.kind <;> simp_all [Kind.workerType]
  obtain ⟨e, he⟩ := hkind hserves.1
  obtain ⟨e', he'⟩ := hkind hserves'.1
  obtain ⟨rfl, hgen, hkeeps⟩ := (hp.db hx he).2 _ hserves.2.2
  obtain ⟨rfl, hgen', hkeeps'⟩ := (hp.db hx' he').2 _ hserves'.2.2
  exact hp.unique hx hx' he he' hgen hgen' hkeeps hkeeps'

end Exclusive

instance [DecidableEq δ] (x : Worker n ρ δ) (dboid : δ) : Decidable (x.Serves dboid) :=
  match h : x.life with
  | .running phase =>
    decidable_of_iff (x.kind.workerType = .perdb ∧ x.db = some dboid)
      (by simp [Worker.Serves, h])
  | .pending | .registered | .stopped | .gone => .isFalse (by simp [Worker.Serves, h])

instance [Fintype ρ] [DecidableEq ρ] [DecidableEq δ] (s : Server n ρ δ ν) :
    DecidablePred (Settled s)
  | .terminateSupervisor =>
    match h : s.supervisor with
    | .awaiting w i dboid =>
      decidable_of_iff ((s.slot i).servesDb dboid = true ∨ ∀ x ∈ s.worker w, x.life = .gone)
        (by simp only [Settled, h])
    | .idle | .scanning | .starting .. => .isTrue (by simp only [Settled, h])
  | .examine dboid _ _ => inferInstanceAs (Decidable (∀ w, ∀ x ∈ s.worker w, _ → _))
  | .startup | .endScan | .raise _ | .act .. | .setLabel .. | .beginScan | .awaited
  | .allocate .. | .register .. | .caughtUp .. | .connect _ | .disconnect _ | .crash =>
    .isTrue trivial

instance [Fintype ρ] [DecidableEq ρ] [DecidableEq δ] (s : Server n ρ δ ν) :
    DecidablePred (Exclusive s) := fun _ => instDecidableAnd

/-- The per-db worker of the labelled database is the only one. -/
theorem perdb_unique_catchup : ∃ s : Server 2 (Fin 2) Unit Unit,
    Reach Server.Initial step Exclusive s ∧ (∃ x ∈ s.worker 0, x.Serves ()) ∧
      ∀ w, ∀ x ∈ s.worker w, x.Serves () → w = 0 := by
  have hfresh : Reach Server.Initial step Exclusive Server.fresh :=
    .init ⟨fun _ => rfl, fun _ => rfl, rfl⟩
  obtain ⟨s, hs, x, hx, hserves⟩ := hfresh.exists_of_run catchupActions
    (fun s => ∃ x ∈ s.worker 0, x.Serves ()) (by decide)
  exact ⟨s, hs, ⟨x, hx, hserves⟩, fun w y hy hserves' => perdb_unique hs hy hx hserves' hserves⟩

/-- A worker fails before it has acquired its slot, and the supervisor gives it up. When its next
scan has registered another worker, in the same slot, the postmaster restarts the first one. -/
theorem perdb_registered_twice : ∃ s : Server 2 (Fin 2) Unit Unit,
    Reach Server.Initial step (fun _ _ => True) s ∧ (∃ x ∈ s.worker 0, x.Serves ()) ∧
      ∃ x ∈ s.worker 1, x.Serves () := by
  have hfresh : Reach Server.Initial step (fun _ _ => True) Server.fresh :=
    .init ⟨fun _ => rfl, fun _ => rfl, rfl⟩
  exact hfresh.exists_of_run
    [.setLabel () (some true), .beginScan, .examine () 0 true, .act 0 .start, .act 0 .abort,
      .act 0 .exit, .startup, .endScan, .beginScan, .examine () 1 true, .act 1 .start, .startup,
      .act 1 .acquire, .act 1 .serve, .act 0 .start, .act 0 .acquire] _ (by decide)

end Pgactive.Workers
