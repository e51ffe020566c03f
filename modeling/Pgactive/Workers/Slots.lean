import Mathlib.Data.List.FinRange

/-!
# The worker slots in shared memory

Each worker gets a slot of `pgactiveWorkerCtl` before it is registered with the postmaster, and
acquires it, without the lock, when it starts; a walsender does both in one go. The slot stays when
a process ends, since the postmaster restarts it, and is freed by somebody else. The supervisor
holds the lock of the slots during its scans; other holders are single steps here.
-/

namespace Pgactive.Workers

variable {n : ℕ} {ρ δ ν : Type}

inductive WorkerType
  | emptySlot
  | apply
  | perdb
  | walsender
deriving DecidableEq

/-- `pgactiveWorker`, with the part of the union that goes with its type. An oid that is not set
is `none`. -/
inductive Slot (δ ν : Type)
  | empty
  /-- Fields `dboid` and `remote_node`. -/
  | apply (dboid : δ) (remoteNode : ν)
  /-- Fields `c_dboid`, `p_dboid` and `unregistered`. -/
  | perdb (cDboid : δ) (pDboid : Option δ) (unregistered : Bool)
  | walsender
deriving DecidableEq

def Slot.workerType : Slot δ ν → WorkerType
  | .empty => .emptySlot
  | .apply .. => .apply
  | .perdb .. => .perdb
  | .walsender => .walsender

/-- The database that `pgactive_bgworker_init` connects to. -/
def Slot.dboid : Slot δ ν → Option δ
  | .apply dboid _ => some dboid
  | .perdb cDboid _ _ => some cDboid
  | .empty | .walsender => none

def Slot.setPDboid (slot : Slot δ ν) (pDboid : Option δ) : Slot δ ν :=
  match slot with
  | .perdb cDboid _ unregistered => .perdb cDboid pDboid unregistered
  | slot => slot

def Slot.setUnregistered (slot : Slot δ ν) (unregistered : Bool) : Slot δ ν :=
  match slot with
  | .perdb cDboid pDboid _ => .perdb cDboid pDboid unregistered
  | slot => slot

inductive BgwHandleStatus
  | started
  | notYetStarted
  | stopped
deriving DecidableEq

/-- `pgactive_worker_shmem_free`. Without a result it raises an error: with a handle the worker
must not run. -/
def workerShmemFree (slot : Slot δ ν) (handle : Option BgwHandleStatus) : Option (Slot δ ν) :=
  match slot with
  -- the supervisor is not to restart this worker
  | .perdb _ _ true => some slot
  | .empty => some .empty
  | _ => if handle = some .started then none else some .empty

/-- All callers pass no handle. -/
def Slot.free (slot : Slot δ ν) : Slot δ ν := (workerShmemFree slot none).getD slot

def workerShmemAlloc (slots : Fin n → Slot δ ν) : Option (Fin n) :=
  (List.finRange n).find? fun i => (slots i).workerType = .emptySlot

/-- The results of `find_perdb_worker_slot`. -/
inductive PerdbSlot (n : ℕ)
  | notFound
  | unregistered
  | found (i : Fin n)
deriving DecidableEq

def Slot.servesDb [DecidableEq δ] (slot : Slot δ ν) (dboid : δ) : Bool :=
  match slot with
  | .perdb _ pDboid _ => pDboid = some dboid
  | _ => false

def findPerdbWorkerSlot [DecidableEq δ] (slots : Fin n → Slot δ ν) (dboid : δ) : PerdbSlot n :=
  match (List.finRange n).find? fun i => (slots i).servesDb dboid with
  | none => .notFound
  | some i =>
    match slots i with
    | .perdb _ _ true => .unregistered
    | _ => .found i

def findApplyWorkerSlot [DecidableEq δ] [DecidableEq ν] (slots : Fin n → Slot δ ν) (dboid : δ)
    (remote : ν) : Option (Fin n) :=
  (List.finRange n).find? fun i => slots i = .apply dboid remote

/-- The slot of a per-db worker that has unregistered itself, in a database without a label. A
database that is not set has none. -/
def Slot.disabled (label : δ → Option Bool) : Slot δ ν → Bool
  | .perdb _ pDboid true => pDboid.bind label = none
  | _ => false

def freeUnregisteredPerdbWorker (label : δ → Option Bool) (slot : Slot δ ν) : Slot δ ν :=
  if slot.disabled label then (slot.setUnregistered false).free else slot

/-! ### Processes -/

/-- What a worker has been registered as. -/
inductive Kind (δ : Type)
  /-- For a database, which its name mentions. -/
  | perdb (dboid : δ)
  | apply
  /-- With `BGW_NEVER_RESTART`. -/
  | catchup
  /-- A walsender is not a background worker. -/
  | walsender
deriving DecidableEq

def Kind.restarts : Kind δ → Bool
  | .perdb _ | .apply => true
  | .catchup | .walsender => false

def Kind.workerType : Kind δ → WorkerType
  | .perdb _ => .perdb
  | .apply | .catchup => .apply
  | .walsender => .walsender

/-- How a running process goes on. -/
inductive Phase (ρ : Type)
  /-- It has not acquired its slot. -/
  | starting
  /-- It has acquired its slot and is in `pgactive_bgworker_init`. -/
  | acquired
  | serving
  /-- A per-db worker has allocated a slot for a worker that it is about to register. -/
  | launching (child : ρ)
  /-- A per-db worker waits in `pgactive_catchup_to_lsn`. -/
  | catchup (child : ρ)
  /-- It has raised an error. -/
  | failing
  /-- It has called `proc_exit(0)` at the end of its work. -/
  | finishing
  /-- A per-db worker has unregistered itself. -/
  | leaving
  /-- An apply worker has unregistered itself, which frees its slot. -/
  | freed
  /-- It has no slot any more. The flag tells whether its exit status is zero. -/
  | exiting (clean : Bool)
deriving DecidableEq

/-- What the postmaster knows about a worker. -/
inductive Life (ρ : Type)
  /-- It has a slot and is not yet registered. -/
  | pending
  /-- It is registered and has not been started. -/
  | registered
  | running (phase : Phase ρ)
  /-- Its process has ended. It will be restarted; or it is a catchup worker, whose end has not
  been noticed by the per-db worker that waits for it. -/
  | stopped
  /-- Nobody deals with it any more. -/
  | gone
deriving DecidableEq

/-- A background worker or a walsender. -/
structure Worker (n : ℕ) (ρ δ : Type) where
  kind : Kind δ
  /-- In its main argument: the index of its slot. -/
  slot : Fin n
  /-- In its main argument: the generation of the shared memory. -/
  generation : ℕ
  life : Life ρ
  /-- `MyDatabaseId`. -/
  db : Option δ
deriving DecidableEq

/-- `pgactive_supervisor_rescan_dbs` and `pgactive_register_perdb_worker`. -/
inductive Supervisor (n : ℕ) (ρ δ : Type)
  | idle
  /-- It holds the lock and goes through the databases. -/
  | scanning
  /-- It holds the lock and is in `WaitForBackgroundWorkerStartup`. -/
  | starting (w : ρ) (i : Fin n) (dboid : δ)
  /-- It waits without the lock for the worker to set its database. -/
  | awaiting (w : ρ) (i : Fin n) (dboid : δ)
deriving DecidableEq

def maxGeneration : ℕ := 65535

/-- The server. -/
structure Server (n : ℕ) (ρ δ ν : Type) where
  /-- The array `slots`. -/
  slot : Fin n → Slot δ ν
  generation : ℕ
  /-- The security labels of the databases: whether pgactive is activated. -/
  label : δ → Option Bool
  /-- The workers that have been allocated a slot, by an identity that is not used again. -/
  worker : ρ → Option (Worker n ρ δ)
  supervisor : Supervisor n ρ δ

def Supervisor.locked : Supervisor n ρ δ → Bool
  | .scanning | .starting .. => true
  | .idle | .awaiting .. => false

def Server.Initial (s : Server n ρ δ ν) : Prop :=
  (∀ i, s.slot i = .empty) ∧ (∀ w, s.worker w = none) ∧ s.supervisor = .idle

/-- A step of a background worker that concerns only itself and its slot. -/
inductive Act
  | start
  /-- The process ends with an error before it comes to `pgactive_bgworker_init`. -/
  | abort
  /-- The checks of `pgactive_bgworker_init` and `pgactive_worker_shmem_acquire`. -/
  | acquire
  /-- The initialization is over; a per-db worker sets its database. -/
  | serve
  | unregister
  /-- An error is raised. -/
  | fail
  /-- A per-db worker leaves its main loop; a catchup worker is done. -/
  | finish
  /-- `pgactive_worker_shmem_release`. -/
  | release
  /-- The process ends. -/
  | exit
deriving DecidableEq

def Act.locks : Act → Bool
  | .serve | .unregister | .release => true
  | .start | .abort | .acquire | .fail | .finish | .exit => false

def Worker.to (x : Worker n ρ δ) (phase : Phase ρ) : Worker n ρ δ :=
  { x with life := .running phase }

/-- The process has ended. The postmaster forgets a worker with exit status zero, and one that
is not to be restarted. -/
def Worker.ended (x : Worker n ρ δ) (clean : Bool) : Worker n ρ δ :=
  { x with life := if clean && x.kind.restarts then .gone else .stopped, db := none }

def Worker.act (x : Worker n ρ δ) (slot : Slot δ ν) (generation : ℕ) :
    Act → Option (Worker n ρ δ × Slot δ ν)
  | .start =>
    match x.life with
    | .registered => some (x.to .starting, slot)
    | .stopped => if x.kind.restarts then some (x.to .starting, slot) else none
    | _ => none
  | .abort =>
    match x.life with
    | .running .starting => some (x.to (.exiting false), slot)
    | _ => none
  | .acquire =>
    match x.life with
    | .running .starting =>
      -- a worker from before a restart of the server
      if x.generation ≠ generation then some (x.to (.exiting true), slot)
      -- "mismatch in worker state"
      else if slot.workerType ≠ x.kind.workerType then some (x.to (.exiting false), slot)
      else some ({ x.to .acquired with db := slot.dboid }, slot.setUnregistered false)
    | _ => none
  | .serve =>
    match x.life, x.kind with
    | .running .acquired, .perdb _ => some (x.to .serving, slot.setPDboid x.db)
    | .running .acquired, _ => some (x.to .serving, slot)
    | _, _ => none
  | .unregister =>
    match x.life, x.kind with
    | .running .acquired, .perdb _ | .running .serving, .perdb _ =>
      some (x.to .leaving, slot.setUnregistered true)
    | .running .acquired, .apply | .running .serving, .apply
    | .running .acquired, .catchup | .running .serving, .catchup => some (x.to .freed, slot.free)
    | _, _ => none
  | .fail =>
    match x.life, x.kind with
    | .running .serving, .walsender => none
    | .running .acquired, _ | .running .serving, _ => some (x.to .failing, slot)
    | _, _ => none
  | .finish =>
    match x.life, x.kind with
    -- without the lock
    | .running .serving, .perdb _ => some (x.to .finishing, slot.setPDboid none)
    | .running .serving, .catchup => some (x.to .finishing, slot)
    | _, _ => none
  | .release =>
    match x.life with
    | .running .failing => some (x.to (.exiting false), slot)
    | .running .finishing => some (x.to (.exiting true), slot)
    | _ => none
  | .exit =>
    match x.life, x.kind with
    | .running (.exiting clean), _ => some (x.ended clean, slot)
    -- no release: the slot is kept, or is not the worker's any more
    | .running .leaving, .perdb _ | .running .freed, _ =>
      some ({ x with life := .gone, db := none }, slot)
    | _, _ => none

def Worker.handleStatus (x : Worker n ρ δ) : BgwHandleStatus :=
  match x.life with
  | .pending | .registered => .notYetStarted
  | .running _ => .started
  | .stopped | .gone => .stopped

def Worker.noticed (x : Worker n ρ δ) : Worker n ρ δ :=
  match x.life with
  | .stopped => { x with life := .gone }
  | _ => x

/-- The server crashes and reinitializes its shared memory. The postmaster keeps the workers that
are to be restarted. -/
def Worker.crashed (x : Worker n ρ δ) : Worker n ρ δ :=
  { x with
    life :=
      match x.life with
      | .pending | .gone => .gone
      | .registered | .running _ | .stopped => if x.kind.restarts then .stopped else .gone
    db := none }

/-! ### The server -/

/-- A step of the server. -/
inductive Action (ρ δ ν : Type)
  /-- The label of a database is changed. -/
  | setLabel (dboid : δ) (label : Option Bool)
  /-- The supervisor takes the lock for a scan. -/
  | beginScan
  /-- It comes to a database and registers a worker for it, if it needs to and can. -/
  | examine (dboid : δ) (w : ρ) (registers : Bool)
  /-- `WaitForBackgroundWorkerStartup` returns. -/
  | startup
  /-- The new worker has set its database. -/
  | awaited
  /-- The scan ends with `free_unregistered_perdb_workers`. -/
  | endScan
  /-- The supervisor is terminated while it waits without the lock. -/
  | terminateSupervisor
  /-- A background worker goes on. -/
  | act (w : ρ) (a : Act)
  /-- A per-db worker allocates a slot for an apply worker or a catchup worker. -/
  | allocate (w : ρ) (child : ρ) (kind : Kind δ) (remote : ν)
  | register (w : ρ) (registers : Bool)
  /-- It sees that its catchup worker has ended, and whether it has caught up. -/
  | caughtUp (w : ρ) (success : Bool)
  /-- It raises an error while it waits for its catchup worker. -/
  | raise (w : ρ)
  /-- A walsender starts. -/
  | connect (w : ρ)
  /-- It shuts down or exits. -/
  | disconnect (w : ρ)
  | crash

variable [DecidableEq ρ]

def Server.setWorker (s : Server n ρ δ ν) (w : ρ) (x : Worker n ρ δ) : Server n ρ δ ν :=
  { s with worker := Function.update s.worker w (some x) }

def Server.setSlot (s : Server n ρ δ ν) (i : Fin n) (slot : Slot δ ν) : Server n ρ δ ν :=
  { s with slot := Function.update s.slot i slot }

def Server.catchupToLsnCleanup (s : Server n ρ δ ν) (w child : ρ) (x y : Worker n ρ δ)
    (phase : Phase ρ) : Server n ρ δ ν :=
  ((s.setSlot y.slot (s.slot y.slot).free).setWorker child y.noticed).setWorker w (x.to phase)

variable [DecidableEq δ] [DecidableEq ν]

/-- `pgactive_supervisor_rescan_dbs` for one database, and the first part of
`pgactive_register_perdb_worker`. -/
def Server.examine (s : Server n ρ δ ν) (dboid : δ) (w : ρ) (registers : Bool) :
    Server n ρ δ ν :=
  match findPerdbWorkerSlot s.slot dboid with
  | .found _ | .unregistered => s
  | .notFound =>
    match workerShmemAlloc s.slot with
    -- "could not find free slot": the supervisor starts anew
    | none => { s with supervisor := .idle }
    | some i =>
      if registers then
        { (s.setSlot i (.perdb dboid none false)).setWorker w
            ⟨.perdb dboid, i, s.generation, .registered, none⟩ with
          supervisor := .starting w i dboid }
      else s.setSlot i (Slot.perdb dboid none false).free

def Server.allocate (s : Server n ρ δ ν) (w child : ρ) (kind : Kind δ) (remote : ν) :
    Option (Server n ρ δ ν) :=
  match s.worker w, workerShmemAlloc s.slot with
  | some x, some i =>
    match x.kind, x.life, x.db with
    | .perdb _, .running .serving, some dboid =>
      if kind = .catchup ∨ kind = .apply ∧ findApplyWorkerSlot s.slot dboid remote = none then
        some (((s.setSlot i (.apply dboid remote)).setWorker child
          ⟨kind, i, s.generation, .pending, none⟩).setWorker w (x.to (.launching child)))
      else none
    | _, _, _ => none
  | _, _ => none

/-- A per-db worker registers the worker that it has a slot for. That a catchup worker cannot be
registered is left out; the result is not looked at there. -/
def Server.register (s : Server n ρ δ ν) (w : ρ) (registers : Bool) :
    Option (Server n ρ δ ν) :=
  match s.worker w with
  | none => none
  | some x =>
    match x.life with
    | .running (.launching child) =>
      match s.worker child with
      | none => none
      | some y =>
        if registers then
          some ((s.setWorker child { y with life := .registered }).setWorker w
            (x.to (if y.kind = .catchup then .catchup child else .serving)))
        else if y.kind = .catchup then none
        else some (((s.setSlot y.slot .empty).setWorker child { y with life := .gone }).setWorker w
          (x.to .failing))
    | _ => none

def Server.stopWaiting (s : Server n ρ δ ν) (w : ρ) (noticed : Bool) (phase : Phase ρ) :
    Option (Server n ρ δ ν) :=
  match s.worker w with
  | none => none
  | some x =>
    match x.life with
    | .running (.catchup child) =>
      match s.worker child with
      | none => none
      | some y =>
        if noticed && decide (y.handleStatus ≠ .stopped) then none
        else some (s.catchupToLsnCleanup w child x y phase)
    | _ => none

def step (s : Server n ρ δ ν) : Action ρ δ ν → Option (Server n ρ δ ν)
  | .setLabel dboid label => some { s with label := Function.update s.label dboid label }
  | .beginScan => if s.supervisor = .idle then some { s with supervisor := .scanning } else none
  | .examine dboid w registers =>
    if s.supervisor = .scanning ∧ s.label dboid = some true ∧ s.worker w = none then
      some (s.examine dboid w registers)
    else none
  | .startup =>
    match s.supervisor with
    | .starting w i dboid =>
      match (s.worker w).map Worker.handleStatus with
      | some .started => some { s with supervisor := .awaiting w i dboid }
      | some .stopped => some { s.setSlot i (s.slot i).free with supervisor := .scanning }
      | _ => none
    | _ => none
  | .awaited =>
    match s.supervisor with
    | .awaiting _ i dboid =>
      if (s.slot i).servesDb dboid then some { s with supervisor := .scanning } else none
    | _ => none
  | .endScan =>
    if s.supervisor = .scanning then
      some { s with
        slot := fun i => freeUnregisteredPerdbWorker s.label (s.slot i)
        supervisor := .idle }
    else none
  | .terminateSupervisor =>
    match s.supervisor with
    | .awaiting .. => some { s with supervisor := .idle }
    | _ => none
  | .act w a =>
    if a.locks && s.supervisor.locked then none
    else (s.worker w).bind fun x => (x.act (s.slot x.slot) s.generation a).map fun p =>
      (s.setSlot x.slot p.2).setWorker w p.1
  | .allocate w child kind remote =>
    if s.supervisor.locked = false ∧ s.worker child = none then s.allocate w child kind remote
    else none
  | .register w registers =>
    if registers || !s.supervisor.locked then s.register w registers else none
  | .caughtUp w success =>
    if s.supervisor.locked then none
    else s.stopWaiting w true (if success then .serving else .failing)
  | .raise w => if s.supervisor.locked then none else s.stopWaiting w false .failing
  | .connect w =>
    match workerShmemAlloc s.slot with
    | none => none
    | some i =>
      if s.supervisor.locked = false ∧ s.worker w = none then
        some ((s.setSlot i .walsender).setWorker w
          ⟨.walsender, i, s.generation, .running .serving, none⟩)
      else none
  | .disconnect w =>
    match s.worker w with
    | none => none
    | some x =>
      if s.supervisor.locked = false ∧ x.kind = .walsender ∧ x.life = .running .serving then
        some ((s.setSlot x.slot (s.slot x.slot).free).setWorker w { x with life := .gone })
      else none
  | .crash =>
    if s.generation = maxGeneration then none
    else some { s with
      slot := fun _ => .empty
      generation := s.generation + 1
      worker := fun w => (s.worker w).map Worker.crashed
      supervisor := .idle }

end Pgactive.Workers
