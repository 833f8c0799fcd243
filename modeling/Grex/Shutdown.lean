import Grex.Durability

/-!
The end of a process. `run` waits for a signal or for a listener that fails; on
a signal it refuses new agents, stops being ready and sleeps through the drain
window, and in both cases it then cancels the context of its workers, waits for
them and shuts the listeners down. The sweeper returns, and the flusher and the
session snapshotter each do one more pass first. Messages on connections that
are still open go on being handled through all of this. A worker that is
cancelled may find its ticker ready as well, so it may still begin a pass.
-/

namespace Grex.Shutdown

open GoTime AgentState Message AgentProgram Tables Replica Machine Durability DirtyMarks

/-- Where `run` is, from the time its listeners serve. -/
inductive Stage
  | serving
  | refusing
  | draining
  | cancelled
  | closed
  deriving DecidableEq

/-- A worker loops until it sees that its context is done; then its last pass
is to begin, is under way, and it has returned. -/
inductive Worker
  | looping
  | last
  | finishing
  | returned
  deriving DecidableEq

/-- `accepting` is the negation of the handler's `draining` flag, and `ready` is
what `/readyz` answers from. -/
structure Process where
  replica : Replica
  stage : Stage := .serving
  accepting : Bool := true
  ready : Bool := true
  sweeper : Worker := .looping
  flusher : Worker := .looping
  snapshotter : Worker := .looping

inductive Act
  | replica (a : Replica.Act)
  | signal
  | beginDraining
  | cancelPersist
  | fatal
  | sweeperReturns
  | flusherDone
  | flusherReturns
  | snapshotterDone
  | snapshotterReturns
  | shutdown

def isSweep : Locked → Bool
  | .sweepShard _ _ _ => true
  | _ => false

/-- The sweeper holds a lock. -/
def sweeping (R : Replica) : Bool :=
  decide (∃ shard ∈ R.locks.keys, (R.locks.find shard).any fun sec => isSweep sec.op)

/-- Which steps of the replica a worker that has returned no longer begins. -/
def Process.begins (p : Process) : Replica.Act → Bool
  | .lock op => !isSweep op || decide (p.sweeper = .looping)
  | .drain _ => decide (p.flusher = .looping ∨ p.flusher = .last)
  | .beginSnapshot => decide (p.snapshotter = .looping ∨ p.snapshotter = .last)
  | _ => true

/-- A worker whose last pass has begun. -/
def Worker.begun : Worker → Worker
  | .last => .finishing
  | w => w

/-- The workers after a step of the replica. -/
def Process.after (p : Process) (R : Replica) : Replica.Act → Process
  | .drain _ => { p with replica := R, flusher := p.flusher.begun }
  | .beginSnapshot => { p with replica := R, snapshotter := p.snapshotter.begun }
  | _ => { p with replica := R }

def step (s : Process × Database) : Act → Option (Process × Database)
  | .replica a =>
      if s.1.begins a then
        (s.1.replica.step s.2 a).map fun q => (s.1.after q.1 a, q.2)
      else none
  | .signal =>
      if s.1.stage = .serving then
        some ({ s.1 with stage := .refusing, accepting := false }, s.2)
      else none
  | .beginDraining =>
      if s.1.stage = .refusing then
        some ({ s.1 with stage := .draining, ready := false }, s.2)
      else none
  | .cancelPersist =>
      if s.1.stage = .draining then some ({ s.1 with stage := .cancelled }, s.2) else none
  | .fatal =>
      if s.1.stage = .serving then some ({ s.1 with stage := .cancelled }, s.2) else none
  | .sweeperReturns =>
      if s.1.stage = .cancelled ∧ s.1.sweeper = .looping ∧ sweeping s.1.replica = false then
        some ({ s.1 with sweeper := .returned }, s.2)
      else none
  | .flusherDone =>
      if s.1.stage = .cancelled ∧ s.1.flusher = .looping ∧ s.1.replica.flush = .idle then
        some ({ s.1 with flusher := .last }, s.2)
      else none
  | .flusherReturns =>
      if s.1.flusher = .finishing ∧ s.1.replica.flush = .idle then
        some ({ s.1 with flusher := .returned }, s.2)
      else none
  | .snapshotterDone =>
      match s.1.replica.snapshot with
      | .idle =>
          if s.1.stage = .cancelled ∧ s.1.snapshotter = .looping then
            some ({ s.1 with snapshotter := .last }, s.2)
          else none
      | _ => none
  | .snapshotterReturns =>
      match s.1.replica.snapshot with
      | .idle =>
          if s.1.snapshotter = .finishing then some ({ s.1 with snapshotter := .returned }, s.2)
          else none
      | _ => none
  | .shutdown =>
      if s.1.stage = .cancelled ∧ s.1.sweeper = .returned ∧ s.1.flusher = .returned ∧
          s.1.snapshotter = .returned then
        some ({ s.1 with stage := .closed, ready := false }, s.2)
      else none

/-- A process whose listeners have just begun to serve. -/
def start (cfg : Config) (tick : ℤ) (batched : Bool) (replicaID replicaLabel : String) : Process where
  replica := Replica.start cfg tick batched replicaID replicaLabel

/-- Everything one step can do. -/
inductive Moves : Process × Database → Act → Process × Database → Prop
  | replica {p : Process} {db db' : Database} {R : Replica} {a : Replica.Act}
      (hbegins : p.begins a = true) (hstep : Step p.replica db a R db') :
      Moves (p, db) (.replica a) (p.after R a, db')
  | signal {p : Process} {db : Database} (hstage : p.stage = .serving) :
      Moves (p, db) .signal ({ p with stage := .refusing, accepting := false }, db)
  | beginDraining {p : Process} {db : Database} (hstage : p.stage = .refusing) :
      Moves (p, db) .beginDraining ({ p with stage := .draining, ready := false }, db)
  | cancelPersist {p : Process} {db : Database} (hstage : p.stage = .draining) :
      Moves (p, db) .cancelPersist ({ p with stage := .cancelled }, db)
  | fatal {p : Process} {db : Database} (hstage : p.stage = .serving) :
      Moves (p, db) .fatal ({ p with stage := .cancelled }, db)
  | sweeperReturns {p : Process} {db : Database} (hstage : p.stage = .cancelled)
      (hsweeper : p.sweeper = .looping) (hidle : sweeping p.replica = false) :
      Moves (p, db) .sweeperReturns ({ p with sweeper := .returned }, db)
  | flusherDone {p : Process} {db : Database} (hstage : p.stage = .cancelled)
      (hflusher : p.flusher = .looping) (hidle : p.replica.flush = .idle) :
      Moves (p, db) .flusherDone ({ p with flusher := .last }, db)
  | flusherReturns {p : Process} {db : Database} (hflusher : p.flusher = .finishing)
      (hidle : p.replica.flush = .idle) :
      Moves (p, db) .flusherReturns ({ p with flusher := .returned }, db)
  | snapshotterDone {p : Process} {db : Database} (hstage : p.stage = .cancelled)
      (hsnapshotter : p.snapshotter = .looping) (hidle : p.replica.snapshot = .idle) :
      Moves (p, db) .snapshotterDone ({ p with snapshotter := .last }, db)
  | snapshotterReturns {p : Process} {db : Database} (hsnapshotter : p.snapshotter = .finishing)
      (hidle : p.replica.snapshot = .idle) :
      Moves (p, db) .snapshotterReturns ({ p with snapshotter := .returned }, db)
  | shutdown {p : Process} {db : Database} (hstage : p.stage = .cancelled)
      (hsweeper : p.sweeper = .returned) (hflusher : p.flusher = .returned)
      (hsnapshotter : p.snapshotter = .returned) :
      Moves (p, db) .shutdown ({ p with stage := .closed, ready := false }, db)

theorem moves_of_step {s t : Process × Database} {a : Act} (h : step s a = some t) :
    Moves s a t := by
  obtain ⟨p, db⟩ := s
  cases a with
  | replica a =>
    simp only [step, Option.ite_none_right_eq_some, Option.map_eq_some_iff] at h
    obtain ⟨hbegins, ⟨R, db'⟩, hstep, rfl⟩ := h
    exact .replica hbegins (step_cases hstep)
  | signal =>
    simp only [step, Option.ite_none_right_eq_some, Option.some.injEq] at h
    obtain ⟨hstage, rfl⟩ := h
    exact .signal hstage
  | beginDraining =>
    simp only [step, Option.ite_none_right_eq_some, Option.some.injEq] at h
    obtain ⟨hstage, rfl⟩ := h
    exact .beginDraining hstage
  | cancelPersist =>
    simp only [step, Option.ite_none_right_eq_some, Option.some.injEq] at h
    obtain ⟨hstage, rfl⟩ := h
    exact .cancelPersist hstage
  | fatal =>
    simp only [step, Option.ite_none_right_eq_some, Option.some.injEq] at h
    obtain ⟨hstage, rfl⟩ := h
    exact .fatal hstage
  | sweeperReturns =>
    simp only [step, Option.ite_none_right_eq_some, Option.some.injEq] at h
    obtain ⟨⟨hstage, hsweeper, hidle⟩, rfl⟩ := h
    exact .sweeperReturns hstage hsweeper hidle
  | flusherDone =>
    simp only [step, Option.ite_none_right_eq_some, Option.some.injEq] at h
    obtain ⟨⟨hstage, hflusher, hidle⟩, rfl⟩ := h
    exact .flusherDone hstage hflusher hidle
  | flusherReturns =>
    simp only [step, Option.ite_none_right_eq_some, Option.some.injEq] at h
    obtain ⟨⟨hflusher, hidle⟩, rfl⟩ := h
    exact .flusherReturns hflusher hidle
  | snapshotterDone =>
    simp only [step] at h
    split at h
    · rename_i hidle
      simp only [Option.ite_none_right_eq_some, Option.some.injEq] at h
      obtain ⟨⟨hstage, hsnapshotter⟩, rfl⟩ := h
      exact .snapshotterDone hstage hsnapshotter hidle
    · cases h
  | snapshotterReturns =>
    simp only [step] at h
    split at h
    · rename_i hidle
      simp only [Option.ite_none_right_eq_some, Option.some.injEq] at h
      obtain ⟨hsnapshotter, rfl⟩ := h
      exact .snapshotterReturns hsnapshotter hidle
    · cases h
  | shutdown =>
    simp only [step, Option.ite_none_right_eq_some, Option.some.injEq] at h
    obtain ⟨⟨hstage, hsweeper, hflusher, hsnapshotter⟩, rfl⟩ := h
    exact .shutdown hstage hsweeper hflusher hsnapshotter

/-! ### The stages and the workers -/

@[simp] theorem replica_after (p : Process) (R : Replica) (a : Replica.Act) :
    (p.after R a).replica = R := by
  cases a <;> rfl

@[simp] theorem stage_after (p : Process) (R : Replica) (a : Replica.Act) :
    (p.after R a).stage = p.stage := by
  cases a <;> rfl

/-- A worker with a last pass: that pass comes after the cancellation, the
worker is idle before and after it, and the listeners close only once the
worker has returned. -/
structure WorkerInv (stage : Stage) (w : Worker) (idle : Prop) : Prop where
  late : w ≠ .looping → stage = .cancelled ∨ stage = .closed
  idle : w = .last ∨ w = .returned → idle
  closed : stage = .closed → w = .returned

theorem WorkerInv.looping_of_early {stage : Stage} {w : Worker} {idle : Prop}
    (h : WorkerInv stage w idle) (hstage : stage ≠ .cancelled ∧ stage ≠ .closed) : w = .looping := by
  by_contra hne
  rcases h.late hne with heq | heq
  · exact hstage.1 heq
  · exact hstage.2 heq

theorem workerInv_looping {stage : Stage} {idle : Prop} (hstage : stage ≠ .closed) :
    WorkerInv stage .looping idle :=
  ⟨fun h => absurd rfl h, by simp, fun h => absurd h hstage⟩

theorem workerInv_cancelled {w : Worker} {idle : Prop} (hidle : w = .last ∨ w = .returned → idle) :
    WorkerInv .cancelled w idle :=
  ⟨fun _ => Or.inl rfl, hidle, by simp⟩

/-- A pass begins, the last one or another. -/
theorem WorkerInv.begun {stage : Stage} {w : Worker} {idle idle' : Prop} (h : WorkerInv stage w idle)
    (hbegins : w = .looping ∨ w = .last) : WorkerInv stage w.begun idle' := by
  have hopen : stage ≠ .closed := fun hstage => by
    rcases hbegins with hw | hw <;> simp [h.closed hstage] at hw
  rcases hbegins with rfl | rfl
  · exact workerInv_looping hopen
  · exact ⟨fun _ => h.late (by simp), by simp [Worker.begun], fun hstage => absurd hstage hopen⟩

theorem WorkerInv.imp {stage : Stage} {w : Worker} {idle idle' : Prop} (h : WorkerInv stage w idle)
    (himp : idle → idle') : WorkerInv stage w idle' :=
  ⟨h.late, fun hw => himp (h.idle hw), h.closed⟩

structure Inv (p : Process) : Prop where
  flusher : WorkerInv p.stage p.flusher (p.replica.flush = .idle)
  snapshotter : WorkerInv p.stage p.snapshotter (p.replica.snapshot = .idle)
  ready : p.stage = .draining ∨ p.stage = .closed → p.ready = false

/-- Only a drain begins a flush. -/
theorem flush_idle_step {R R' : Replica} {db db' : Database} {a : Replica.Act}
    (h : Step R db a R' db') (hdrain : ∀ ids, a ≠ .drain ids) (hidle : R.flush = .idle) :
    R'.flush = .idle := by
  cases h with
  | drain => exact absurd rfl (hdrain _)
  | get hflush | save hflush | softDelete hflush | upsertConnections hflush =>
    rw [hidle] at hflush
    cases hflush
  | advance hnext =>
    rw [hidle] at hnext
    cases hnext
  | _ => exact hidle

theorem snapshot_idle_step {R R' : Replica} {db db' : Database} {a : Replica.Act}
    (h : Step R db a R' db') (hbegin : a ≠ .beginSnapshot) (hidle : R.snapshot = .idle) :
    R'.snapshot = .idle := by
  cases h with
  | beginSnapshot => exact absurd rfl hbegin
  | list hsnapshot | due hsnapshot | saveSessions hsnapshot =>
    rw [hidle] at hsnapshot
    cases hsnapshot
  | endSnapshot => rfl
  | _ => exact hidle

theorem inv_replica {p : Process} {db db' : Database} {R : Replica} {a : Replica.Act} (h : Inv p)
    (hbegins : p.begins a = true) (hstep : Step p.replica db a R db') : Inv (p.after R a) := by
  cases a with
  | drain ids =>
    refine ⟨h.flusher.begun (by simpa [Process.begins] using hbegins), ?_, h.ready⟩
    exact h.snapshotter.imp (snapshot_idle_step hstep (by simp))
  | beginSnapshot =>
    refine ⟨?_, h.snapshotter.begun (by simpa [Process.begins] using hbegins), h.ready⟩
    exact h.flusher.imp (flush_idle_step hstep (by simp))
  | _ =>
    exact ⟨h.flusher.imp (flush_idle_step hstep (by simp)),
      h.snapshotter.imp (snapshot_idle_step hstep (by simp)), h.ready⟩

theorem inv_step (s : Process × Database) (a : Act) (t : Process × Database) (h : Inv s.1)
    (hstep : step s a = some t) : Inv t.1 := by
  cases moves_of_step hstep with
  | replica hbegins hmove => exact inv_replica h hbegins hmove
  | signal hstage | beginDraining hstage =>
    have hflusher := h.flusher.looping_of_early (by simp [hstage])
    have hsnapshotter := h.snapshotter.looping_of_early (by simp [hstage])
    constructor
    · exact hflusher ▸ workerInv_looping (by simp)
    · exact hsnapshotter ▸ workerInv_looping (by simp)
    · simp
  | cancelPersist hstage | fatal hstage =>
    exact ⟨workerInv_cancelled h.flusher.idle, workerInv_cancelled h.snapshotter.idle, by simp⟩
  | sweeperReturns hstage => exact ⟨h.flusher, h.snapshotter, h.ready⟩
  | flusherDone hstage hflusher hidle =>
    refine ⟨?_, h.snapshotter, h.ready⟩
    simpa only [hstage] using workerInv_cancelled fun _ => hidle
  | flusherReturns hflusher hidle =>
    exact ⟨⟨fun _ => h.flusher.late (by simp [hflusher]), fun _ => hidle, fun _ => rfl⟩,
      h.snapshotter, h.ready⟩
  | snapshotterDone hstage hsnapshotter hidle =>
    refine ⟨h.flusher, ?_, h.ready⟩
    simpa only [hstage] using workerInv_cancelled fun _ => hidle
  | snapshotterReturns hsnapshotter hidle =>
    exact ⟨h.flusher,
      ⟨fun _ => h.snapshotter.late (by simp [hsnapshotter]), fun _ => hidle, fun _ => rfl⟩, h.ready⟩
  | shutdown hstage hsweeper hflusher hsnapshotter =>
    exact ⟨⟨fun _ => Or.inr rfl, h.flusher.idle, fun _ => hflusher⟩,
      ⟨fun _ => Or.inr rfl, h.snapshotter.idle, fun _ => hsnapshotter⟩, fun _ => rfl⟩

@[simp] theorem ready_after (p : Process) (R : Replica) (a : Replica.Act) :
    (p.after R a).ready = p.ready := by
  cases a <;> rfl

/-- The writes of the process. -/
def watch (j : Journal) (s : Process × Database) (a : Act) (t : Process × Database) : Journal :=
  match a with
  | .replica b => watchWrites j (s.1.replica, s.2) b (t.1.replica, t.2)
  | _ => j

/-- The process with the journal of its writes. -/
def machine : (Process × Database) × Journal → Act → Option ((Process × Database) × Journal) :=
  observed step watch

/-- The step tells the tracker about the agent. -/
def Announces (id : String) (u : (Process × Database) × Journal) : Act → Prop
  | .replica (.fire shard) => ∃ op rest e pending,
      u.1.1.replica.locks.find shard = some ⟨op, rest, e :: pending⟩ ∧ e.about = id
  | _ => False

structure Kept (u : (Process × Database) × Journal) : Prop where
  inv : Inv u.1.1
  sound : Sound u.1.1.replica u.2

theorem kept_step (u : (Process × Database) × Journal) (a : Act) (v : (Process × Database) × Journal)
    (h : Kept u) (hstep : machine u a = some v) : Kept v := by
  obtain ⟨hst, hjournal⟩ := observed_eq_some.mp hstep
  refine ⟨inv_step u.1 a v.1 h.inv hst, ?_⟩
  obtain ⟨s, j⟩ := u
  obtain ⟨t, j'⟩ := v
  dsimp only at hst hjournal h ⊢
  subst hjournal
  have hsound := h.sound
  cases moves_of_step hst with
  | replica hbegins hmove =>
    simp only [watch, replica_after]
    exact ⟨ids_nodup hmove hsound.distinct, routed_step hmove hsound.routed,
      covered_step hsound hmove⟩
  | _ => exact hsound

theorem kept_start (cfg : Config) (tick : ℤ) (batched : Bool) (replicaID label : String)
    (db : Database) : Kept ((start cfg tick batched replicaID label, db), Journal.empty) where
  inv := ⟨workerInv_looping (by simp [start]), workerInv_looping (by simp [start]), by simp [start]⟩
  sound := sound_start cfg tick batched replicaID label

/-- An agent that is not announced stays unmarked. -/
theorem not_dirty_step {id : String} (u : (Process × Database) × Journal) (a : Act)
    (v : (Process × Database) × Journal) (hclean : id ∉ u.1.1.replica.dirty)
    (hsilent : ¬ Announces id u a) (hstep : machine u a = some v) :
    id ∉ v.1.1.replica.dirty := by
  obtain ⟨hst, _⟩ := observed_eq_some.mp hstep
  obtain ⟨s, j⟩ := u
  obtain ⟨t, j'⟩ := v
  dsimp only at hst hclean ⊢
  cases moves_of_step hst with
  | replica hbegins hmove =>
    rw [replica_after]
    cases hmove with
    | fire hheld =>
      intro hmem
      rcases Finset.mem_insert.mp hmem with hid | hid
      · exact hsilent ⟨_, _, _, _, hheld, hid.symm⟩
      · exact hclean hid
    | drain => exact Finset.notMem_empty id
    | _ => exact hclean
  | _ => exact hclean

theorem dirty_drain {u v : (Process × Database) × Journal} {ids : List String}
    (hstep : machine u (.replica (.drain ids)) = some v) : v.1.1.replica.dirty = ∅ := by
  obtain ⟨hst, _⟩ := observed_eq_some.mp hstep
  obtain ⟨s, j⟩ := u
  obtain ⟨t, j'⟩ := v
  dsimp only at hst ⊢
  cases moves_of_step hst with
  | replica hbegins hmove =>
    cases hmove with
    | drain => rfl

/-- A flusher whose last pass is to come stays so until it drains for it. -/
theorem before_last_step {u v : (Process × Database) × Journal} {a : Act}
    (hstep : machine u a = some v) (hu : u.1.1.flusher = .looping ∨ u.1.1.flusher = .last) :
    (v.1.1.flusher = .looping ∨ v.1.1.flusher = .last) ∨
      u.1.1.flusher = .last ∧ ∃ ids, a = .replica (.drain ids) := by
  have hst := (observed_eq_some.mp hstep).1
  obtain ⟨s, j⟩ := u
  obtain ⟨t, j'⟩ := v
  dsimp only at hst hu ⊢
  cases moves_of_step hst with
  | replica hbegins hmove =>
    rename_i b
    cases b with
    | drain ids =>
      rcases hu with hlooping | hlast
      · exact Or.inl (Or.inl (congrArg Worker.begun hlooping))
      · exact Or.inr ⟨hlast, ids, rfl⟩
    | _ => exact Or.inl hu
  | flusherDone => exact Or.inl (Or.inr rfl)
  | flusherReturns hflusher => simp [hflusher] at hu
  | _ => exact Or.inl hu

/-- The flusher of a process that ends drains for the last time after the
workers have been cancelled. -/
theorem exists_last_drain {u v : (Process × Database) × Journal} {acts : List Act} (hkept : Kept u)
    (hrun : run machine u acts = some v)
    (hu : u.1.1.flusher = .looping ∨ u.1.1.flusher = .last)
    (hv : v.1.1.flusher = .returned) :
    ∃ pre ids post w w', acts = pre ++ .replica (.drain ids) :: post ∧
      run machine u pre = some w ∧ w.1.1.stage = .cancelled ∧
      machine w (.replica (.drain ids)) = some w' ∧ run machine w' post = some v := by
  induction acts generalizing u with
  | nil =>
    obtain rfl := Option.some.inj hrun
    simp [hv] at hu
  | cons a acts ih =>
    obtain ⟨t, hstep, htail⟩ := run_cons_eq_some.mp hrun
    rcases before_last_step hstep hu with ht | ⟨hlast, ids, rfl⟩
    · obtain ⟨pre, ids, post, w, w', rfl, hpre, hstage, hdrain, hpost⟩ :=
        ih (kept_step u a t hkept hstep) htail ht
      exact ⟨a :: pre, ids, post, w, w', rfl, run_cons_eq_some.mpr ⟨t, hstep, hpre⟩, hstage, hdrain,
        hpost⟩
    · refine ⟨[], ids, acts, u, t, rfl, rfl, ?_, hstep, htail⟩
      rcases hkept.inv.flusher.late (by simp [hlast]) with hstage | hstage
      · exact hstage
      · simp [hkept.inv.flusher.closed hstage] at hlast

/-- A replica that neither flushes nor takes a snapshot writes nothing. -/
theorem db_step_of_idle {R R' : Replica} {db db' : Database} {a : Replica.Act}
    (h : Step R db a R' db') (hflush : R.flush = .idle) (hsnapshot : R.snapshot = .idle)
    (hpurge : ∀ before, a ≠ .purge before) : db' = db := by
  cases h with
  | save hsaving => rw [hflush] at hsaving; cases hsaving
  | softDelete hdeleting => rw [hflush] at hdeleting; cases hdeleting
  | upsertConnections hupserting => rw [hflush] at hupserting; cases hupserting
  | saveSessions hwriting => rw [hsnapshot] at hwriting; cases hwriting
  | purge => exact absurd rfl (hpurge _)
  | _ => rfl

/-- Once the listeners are closed the process only purges. -/
theorem closed_step {u v : (Process × Database) × Journal} {a : Act} (hinv : Inv u.1.1)
    (hclosed : u.1.1.stage = .closed) (hpurge : ∀ before, a ≠ .replica (.purge before))
    (hstep : machine u a = some v) : v.1.1.stage = .closed ∧ v.1.2 = u.1.2 := by
  obtain ⟨hst, _⟩ := observed_eq_some.mp hstep
  obtain ⟨s, j⟩ := u
  obtain ⟨t, j'⟩ := v
  dsimp only at hst hinv hclosed ⊢
  have hflush := hinv.flusher.idle (Or.inr (hinv.flusher.closed hclosed))
  have hsnapshot := hinv.snapshotter.idle (Or.inr (hinv.snapshotter.closed hclosed))
  cases moves_of_step hst with
  | replica hbegins hmove =>
    refine ⟨(stage_after _ _ _).trans hclosed, ?_⟩
    exact db_step_of_idle hmove hflush hsnapshot fun before heq => hpurge before (heq ▸ rfl)
  | signal hstage | beginDraining hstage | cancelPersist hstage | fatal hstage =>
    rw [hclosed] at hstage
    cases hstage
  | shutdown => exact ⟨rfl, rfl⟩
  | _ => exact ⟨hclosed, rfl⟩

/-- An unmarked agent with a free shard that no flush holds is as it was last
written. -/
theorem matches_of_settled {R : Replica} {j : Journal} (hsound : Sound R j) {id : String}
    (hclean : id ∉ R.dirty) (hidle : R.flush = .idle) (hfree : R.sectionOf id = none)
    (hlost : j.lost id = false) : Matches (j.last id) ((R.registry.get id).map flushed) := by
  rcases hsound.covered id with h | h | h | h | h
  · simp [hlost] at h
  · exact absurd h hclean
  · simp [hidle, Flush.todo] at h
  · exact absurd h (not_owed_of_free hfree)
  · rw [hidle, finalView_of_free hfree] at h
    exact h

/-- What a process leaves behind. When its listeners are closed it is not
ready, and its flusher has drained for the last time after the workers were
cancelled. An agent that was not announced after that drain, whose shard is
free and none of whose writes was lost has been written as the registry holds
it. From then on the process writes nothing but purges, whatever messages it
still handles. -/
theorem exit_persists (cfg : Config) (tick : ℤ) (batched : Bool) (replicaID label : String)
    (db : Database) (acts : List Act) (v : (Process × Database) × Journal)
    (hrun : run machine ((start cfg tick batched replicaID label, db), Journal.empty) acts = some v)
    (hclosed : v.1.1.stage = .closed) :
    v.1.1.ready = false ∧
      (∃ pre ids post w w', acts = pre ++ .replica (.drain ids) :: post ∧
        run machine ((start cfg tick batched replicaID label, db), Journal.empty) pre = some w ∧
        w.1.1.stage = .cancelled ∧ machine w (.replica (.drain ids)) = some w' ∧
        ∀ id, Along machine (fun u a => ¬ Announces id u a) w' post →
          v.1.1.replica.sectionOf id = none → v.2.lost id = false →
          Matches (v.2.last id) ((v.1.1.replica.registry.get id).map flushed)) ∧
      ∀ later u, (∀ a ∈ later, ∀ before, a ≠ .replica (.purge before)) →
        run machine v later = some u → u.1.2 = v.1.2 := by
  have hstart := kept_start cfg tick batched replicaID label db
  have hkept : Kept v := run_invariant Kept kept_step hstart hrun
  have hreturned := hkept.inv.flusher.closed hclosed
  refine ⟨hkept.inv.ready (Or.inr hclosed), ?_, fun later u hpurge hlater => ?_⟩
  · obtain ⟨pre, ids, post, w, w', hacts, hpre, hstage, hdrain, hpost⟩ :=
      exists_last_drain hstart hrun (Or.inl rfl) hreturned
    refine ⟨pre, ids, post, w, w', hacts, hpre, hstage, hdrain, fun id hsilent hfree hlost => ?_⟩
    have hempty : id ∉ w'.1.1.replica.dirty := by
      rw [dirty_drain hdrain]
      exact Finset.notMem_empty id
    have hclean : id ∉ v.1.1.replica.dirty :=
      run_keeps (fun u : (Process × Database) × Journal => id ∉ u.1.1.replica.dirty) not_dirty_step
        hempty hsilent hpost
    exact matches_of_settled hkept.sound hclean (hkept.inv.flusher.idle (Or.inr hreturned)) hfree hlost
  · have hstill : Kept u ∧ u.1.1.stage = .closed ∧ u.1.2 = v.1.2 := by
      refine run_keeps (C := fun _ a => ∀ before, a ≠ .replica (.purge before))
        (fun u : (Process × Database) × Journal => Kept u ∧ u.1.1.stage = .closed ∧ u.1.2 = v.1.2)
        ?_ ⟨hkept, hclosed, rfl⟩ (along_of_forall fun a ha _ => hpurge a ha) hlater
      intro s a t hs hnot hstep
      obtain ⟨hstage, hdb⟩ := closed_step hs.1.inv hs.2.1 hnot hstep
      exact ⟨kept_step s a t hs.1 hstep, hstage, hdb.trans hs.2.2⟩
    exact hstill.2.2

/-- An agent reports during the drain window, and the last pass saves it. -/
def drainingActs : List Act :=
  [.signal, .beginDraining] ++ (heartbeatActs 0).map .replica ++
    [.cancelPersist, .sweeperReturns, .flusherDone] ++
    (saveActs (heardAt 0 0) true).map .replica ++
    [.flusherReturns, .snapshotterDone, .replica .beginSnapshot, .replica (.list [zeroUID]),
      .replica (.due 0), .replica (.saveSessions [heardAt 0 0] fun _ => false),
      .replica .endSnapshot, .snapshotterReturns, .shutdown]

def isFire : Act → Bool
  | .replica (.fire _) => true
  | _ => false

theorem not_announces {a : Act} (h : isFire a = false) (id : String)
    (u : (Process × Database) × Journal) : ¬ Announces id u a := by
  unfold isFire at h
  split at h
  · cases h
  · rename_i hfire
    unfold Announces
    split
    · exact absurd rfl (hfire _)
    · exact not_false

/-- No event is notified after a drain that begins the list. -/
def silentAfter : List Act → Bool
  | .replica (.drain _) :: post => post.all fun a => !isFire a
  | _ => true

theorem silent_after_drain {pre post : List Act} {ids : List String}
    (h : drainingActs = pre ++ .replica (.drain ids) :: post) : ∀ a ∈ post, isFire a = false := by
  have hall : drainingActs.tails.all silentAfter = true := by decide
  have hpost := List.all_eq_true.mp hall _ ((List.mem_tails _ _).mpr ⟨pre, h.symm⟩)
  simpa [silentAfter] using hpost

theorem exit_persists_drained :
    ∃ v, run machine ((start (small "a").registry.cfg 10000000000 true "a" "", Database.empty),
        Journal.empty) drainingActs = some v ∧ v.1.1.stage = .closed ∧ v.1.1.ready = false ∧
      v.1.1.replica.registry.get zeroUID = some (heardAt 0 0) ∧
      Matches (v.2.last zeroUID) (some (flushed (heardAt 0 0))) ∧
      ∀ later u, (∀ a ∈ later, ∀ before, a ≠ .replica (.purge before)) →
        run machine v later = some u → u.1.2 = v.1.2 := by
  obtain ⟨v, hrun, hclosed, hget, hfree, hlost⟩ : ∃ v, run machine
      ((start (small "a").registry.cfg 10000000000 true "a" "", Database.empty), Journal.empty)
      drainingActs = some v ∧ v.1.1.stage = .closed ∧
      v.1.1.replica.registry.get zeroUID = some (heardAt 0 0) ∧
      (v.1.1.replica.sectionOf zeroUID).isNone ∧ v.2.lost zeroUID = false := by
    apply exists_run_of_any
    decide +kernel
  obtain ⟨hready, ⟨pre, ids, post, w, w', hacts, -, -, -, hpersisted⟩, hafter⟩ :=
    exit_persists _ _ _ _ _ _ _ v hrun hclosed
  have hwritten := hpersisted zeroUID
    (along_of_forall fun a ha u => not_announces (silent_after_drain hacts a ha) zeroUID u)
    (Option.isNone_iff_eq_none.mp hfree) hlost
  rw [hget] at hwritten
  exact ⟨v, hrun, hclosed, hready, hget, hwritten, hafter⟩

end Grex.Shutdown
