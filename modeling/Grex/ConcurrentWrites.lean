import Grex.FlushSteps
import Grex.RunConcurrent

/-!
The writes of `flushOnce` and `snapshotOnce` as they run: tasks handed to
`runConcurrent`, each write one transaction of the store. The replica machine
takes the writes of a phase one after the other; here every interleaving of
the tasks, with any bound on how many run at once, is shown to be such a run.
A snapshot task goes on after its transaction, recording one by one the agents
whose results it has read, while other tasks write and record.
-/

namespace Grex.ConcurrentWrites

open GoTime AgentState Message Tables Machine Replica Interleave Interleave.Program RunConcurrent

variable {σ α : Type*}

/-- When `runConcurrent` returns, tasks of one action have run in some order. -/
theorem exists_order_of_returned (f : α → σ → σ) (as : List α) (maxConcurrent : ℤ) (shared : σ)
    {acts : List RunConcurrent.Act} {s : State σ}
    (hrun : run (RunConcurrent.step (slots maxConcurrent))
      (RunConcurrent.start (as.map fun a => atomic (f a)) shared) acts = some s)
    (hreturned : s.phase = .returned) :
    ∃ order, as.Perm order ∧ s.shared = order.foldl (fun s a => f a s) shared := by
  obtain ⟨sched, hsched⟩ := remaining_run hrun
  exact exists_order_of_atomic f as shared sched _ hsched
    ((inv_run hrun).remaining_of_returned hreturned)

/-! ### The flush -/

/-- `SaveAgent` for one agent. -/
def saveTask (ok : Agent → Bool) (agent : Agent) : Program Database :=
  atomic fun db => if ok agent then saveAgent db agent else db

/-- The soft deletes of one task, at the time the task read. -/
def softDeleteTask (now : List String → ℤ) (ok : List String → Bool) (task : List String) :
    Program Database :=
  atomic fun db => if ok task then softDeleteAgents db task (now task) else db

def upsertTask (R : Replica) (now : List String → ℤ) (ok : List String → Bool)
    (task : List String) : Program Database :=
  atomic fun db => if ok task then R.upsertConnectionsOf task (now task) db else db

/-- The three write phases of a flush, each under `runConcurrent`, end as the
replica machine does after the same writes in some order, phase by phase. -/
theorem flush_writes_serialize (R : Replica) (db : Database) (saves : List Agent)
    (evicted : List String) (connected : List Agent)
    (hflush : R.flush = .saving saves evicted connected) (maxConcurrent : ℤ)
    (saved : Agent → Bool) (deleted upserted : List String → Bool) (now now' : List String → ℤ)
    (acts₁ acts₂ acts₃ : List RunConcurrent.Act) (s₁ s₂ s₃ : State Database)
    (hrun₁ : run (RunConcurrent.step (slots maxConcurrent))
      (RunConcurrent.start (saves.map (saveTask saved)) db) acts₁ = some s₁)
    (hrun₂ : run (RunConcurrent.step (slots maxConcurrent))
      (RunConcurrent.start ((Snapshotter.chunk evicted R.taskSize).map (softDeleteTask now deleted))
        s₁.shared) acts₂ = some s₂)
    (hrun₃ : run (RunConcurrent.step (slots maxConcurrent))
      (RunConcurrent.start ((Snapshotter.chunk (connected.map Agent.instanceUID) R.taskSize).map
        (upsertTask R now' upserted)) s₂.shared) acts₃ = some s₃)
    (hreturned : s₁.phase = .returned ∧ s₂.phase = .returned ∧ s₃.phase = .returned) :
    ∃ order₁ order₂ order₃, saves.Perm order₁ ∧
      (Snapshotter.chunk evicted R.taskSize).Perm order₂ ∧
      (Snapshotter.chunk (connected.map Agent.instanceUID) R.taskSize).Perm order₃ ∧
      run machine (R, db)
        ((order₁.map fun a => .save a (saved a)) ++ .advance ::
          ((order₂.map fun task => .softDelete task (now task) (deleted task)) ++ .advance ::
            ((order₃.map fun task => .upsertConnections task (now' task) (upserted task)) ++
              [.advance]))) =
        some ({ R with flush := .idle }, s₃.shared) := by
  obtain ⟨order₁, hperm₁, hs₁⟩ := exists_order_of_returned
    (fun a db => if saved a then saveAgent db a else db) saves maxConcurrent db hrun₁ hreturned.1
  obtain ⟨order₂, hperm₂, hs₂⟩ := exists_order_of_returned
    (fun task db => if deleted task then softDeleteAgents db task (now task) else db)
    (Snapshotter.chunk evicted R.taskSize) maxConcurrent s₁.shared hrun₂ hreturned.2.1
  obtain ⟨order₃, hperm₃, hs₃⟩ := exists_order_of_returned
    (fun task db => if upserted task then R.upsertConnectionsOf task (now' task) db else db)
    (Snapshotter.chunk (connected.map Agent.instanceUID) R.taskSize) maxConcurrent s₂.shared hrun₃
    hreturned.2.2
  refine ⟨order₁, order₂, order₃, hperm₁, hperm₂, hperm₃, ?_⟩
  have hsaves := run_each machine
    (fun saves db => ({ R with flush := .saving saves evicted connected }, db))
    (fun a => .save a (saved a)) (fun a db => if saved a then saveAgent db a else db)
    (fun _ _ _ hmem => if_pos hmem) order₁ saves hperm₁ db
  have hdeletes := run_each machine
    (fun tasks db => ({ R with flush := .deleting tasks connected }, db))
    (fun task => .softDelete task (now task) (deleted task))
    (fun task db => if deleted task then softDeleteAgents db task (now task) else db)
    (fun _ _ _ hmem => if_pos hmem) order₂ _ hperm₂ s₁.shared
  have hupserts := run_each machine
    (fun tasks db => ({ R with flush := .upserting tasks }, db))
    (fun task => .upsertConnections task (now' task) (upserted task))
    (fun task db => if upserted task then R.upsertConnectionsOf task (now' task) db else db)
    (fun _ _ _ hmem => if_pos hmem) order₃ _ hperm₃ s₂.shared
  obtain ⟨registry, dirty, locks, flush⟩ := R
  subst hflush
  simp only [← hs₁, ← hs₂, ← hs₃] at hsaves hdeletes hupserts
  refine run_append_eq_some.mpr ⟨_, hsaves, run_cons_eq_some.mpr ⟨_, rfl, ?_⟩⟩
  refine run_append_eq_some.mpr ⟨_, hdeletes, run_cons_eq_some.mpr ⟨_, rfl, ?_⟩⟩
  exact run_append_eq_some.mpr ⟨_, hupserts, rfl⟩

/-- Two tasks, the second of which is always one step ahead of the first. -/
def sideBySide (steps : ℕ) : List RunConcurrent.Act :=
  List.replicate 7 .caller ++ (List.replicate steps [.routine 1, .routine 0]).flatten ++ [.caller]

def connectedAgents : List Agent :=
  [{ instanceUID := "a", connected := true }, { instanceUID := "b", connected := true }]

/-- They have been looked up, and two more have been evicted. -/
def lookedUp : Replica :=
  { small "a" with
    batched := false
    flush := .saving connectedAgents ["c", "d"] connectedAgents }

/-- The rows of the evicted agents. -/
def evictedRows : Database :=
  saveAgent (saveAgent Database.empty { instanceUID := "c" }) { instanceUID := "d" }

/-- Each of the three phases has two tasks, which run side by side. -/
theorem flush_writes_serialize_connected :
    ∃ (s₁ s₂ s₃ : State Database) (acts : List Replica.Act),
      run (RunConcurrent.step (slots 4))
        (RunConcurrent.start (connectedAgents.map (saveTask fun _ => true)) evictedRows)
        (sideBySide 4) = some s₁ ∧
      run (RunConcurrent.step (slots 4))
        (RunConcurrent.start ([["c"], ["d"]].map (softDeleteTask (fun _ => 0) fun _ => true))
          s₁.shared) (sideBySide 4) = some s₂ ∧
      run (RunConcurrent.step (slots 4))
        (RunConcurrent.start ([["a"], ["b"]].map (upsertTask lookedUp (fun _ => 0) fun _ => true))
          s₂.shared) (sideBySide 4) = some s₃ ∧
      (∀ id ∈ ["a", "b"], s₃.shared.connections.find id ≠ none) ∧
      (∀ id ∈ ["c", "d"], (s₃.shared.agents.find id).any fun row => row.evictedAt.isSome) ∧
      run machine (lookedUp, evictedRows) acts =
        some ({ lookedUp with flush := .idle }, s₃.shared) := by
  have hruns : ∃ s₁, run (RunConcurrent.step (slots 4)) (RunConcurrent.start
      (connectedAgents.map (saveTask fun _ => true)) evictedRows) (sideBySide 4) = some s₁ ∧
      s₁.phase = .returned ∧
      (run (RunConcurrent.step (slots 4)) (RunConcurrent.start
        ([["c"], ["d"]].map (softDeleteTask (fun _ => 0) fun _ => true)) s₁.shared)
        (sideBySide 4)).any fun s₂ => decide (s₂.phase = .returned ∧
          ((run (RunConcurrent.step (slots 4)) (RunConcurrent.start
            ([["a"], ["b"]].map (upsertTask lookedUp (fun _ => 0) fun _ => true)) s₂.shared)
            (sideBySide 4)).any fun s₃ => decide (s₃.phase = .returned ∧
              (∀ id ∈ ["a", "b"], s₃.shared.connections.find id ≠ none) ∧
              ∀ id ∈ ["c", "d"],
                (s₃.shared.agents.find id).any fun row => row.evictedAt.isSome))) := by
    apply exists_run_of_any
    decide +kernel
  obtain ⟨s₁, hrun₁, hreturned₁, hnext⟩ := hruns
  obtain ⟨s₂, hrun₂, hreturned₂, hnext⟩ := exists_run_of_any hnext
  obtain ⟨s₃, hrun₃, hreturned₃, hconnections, hdeleted⟩ := exists_run_of_any hnext
  obtain ⟨_, _, _, _, _, _, hserial⟩ := flush_writes_serialize lookedUp evictedRows
    _ ["c", "d"] _ rfl 4 (fun _ => true) (fun _ => true) (fun _ => true)
    (fun _ => 0) (fun _ => 0) _ _ _ s₁ s₂ s₃ hrun₁ hrun₂ hrun₃
    ⟨hreturned₁, hreturned₂, hreturned₃⟩
  exact ⟨s₁, s₂, s₃, _, hrun₁, hrun₂, hrun₃, hconnections, hdeleted, hserial⟩

/-! ### The session snapshot -/

/-- The transaction of one task. -/
def sendSessions (fails : Agent → Bool) (task : List Agent) (p : Database × Snapshotter) :
    Database × Snapshotter :=
  (Batch.send (Snapshotter.sessionStatement fails) task p.1, p.2)

/-- The agents whose results it reads without an error. -/
def acknowledgedSessions (fails : Agent → Bool) (task : List Agent) (p : Database × Snapshotter) :
    List Agent :=
  Batch.acknowledged (Snapshotter.sessionStatement fails) task p.1

def recordSession (a : Agent) (p : Database × Snapshotter) : Database × Snapshotter :=
  (p.1, p.2.recordWritten a)

/-- One task of `snapshotOnce`: its transaction, and then one `recordWritten`
for each acknowledged agent. -/
def sessionTask (fails : Agent → Bool) (task : List Agent) : Program (Database × Snapshotter) :=
  doing (sendSessions fails task) (acknowledgedSessions fails task) recordSession

theorem mem_of_acknowledged {A S : Type*} {stmt : A → S → Option S} {as : List A} {s : S} {a : A}
    (h : a ∈ Batch.acknowledged stmt as s) : a ∈ as := by
  induction as generalizing s with
  | nil => cases h
  | cons b as ih =>
    unfold Batch.acknowledged at h
    split at h
    · cases h
    · rcases List.mem_cons.mp h with rfl | h
      · exact List.mem_cons_self
      · exact List.mem_cons_of_mem b (ih h)

/-- Records of different agents may change places. -/
theorem recordWritten_comm (s : Snapshotter) {a b : Agent}
    (h : a.instanceUID = b.instanceUID → a = b) :
    (s.recordWritten b).recordWritten a = (s.recordWritten a).recordWritten b := by
  by_cases hid : a.instanceUID = b.instanceUID
  · rw [h hid]
  · have hwritten : ((s.recordWritten b).recordWritten a).written =
        ((s.recordWritten a).recordWritten b).written := by
      apply FinMap.ext
      intro id
      simp only [Snapshotter.recordWritten, FinMap.find_set]
      split
      · rename_i ha
        rw [if_neg (fun hb => hid (ha.symm.trans hb))]
      · rfl
    exact congrArg (fun written => ({ written := written, gen := s.gen } : Snapshotter)) hwritten

/-- A task without interruption is a task of the snapshotter. -/
theorem atOnce_session (fails : Agent → Bool) (task : List Agent) (p : Database × Snapshotter) :
    atOnce (sendSessions fails) (acknowledgedSessions fails) recordSession p task =
      ((Snapshotter.writeTask fails ⟨p.1, p.2, [], []⟩ task).db,
        (Snapshotter.writeTask fails ⟨p.1, p.2, [], []⟩ task).snapshotter) := by
  have hrecords : ∀ (as : List Agent) (q : Database × Snapshotter),
      settled recordSession as q = (q.1, as.foldl Snapshotter.recordWritten q.2) := by
    intro as
    induction as with
    | nil => exact fun _ => rfl
    | cons a as ih => exact fun q => ih (recordSession a q)
  exact hrecords _ _

/-- A snapshot under way has each agent at most once. -/
def Distinct (R : Replica) : Prop :=
  match R.snapshot with
  | .idle => True
  | .listing shard agents => R.registry.ListedBelow shard agents
  | .writing tasks => (tasks.flatten.map Agent.instanceUID).Nodup

theorem distinct_of_same {R R' : Replica} (h : Distinct R) (hsnapshot : R'.snapshot = R.snapshot)
    (hcount : R'.registry.count = R.registry.count) : Distinct R' := by
  unfold Distinct at h ⊢
  rw [hsnapshot]
  split
  · trivial
  · rename_i hlisting
    rw [hlisting] at h
    exact h.of_count hcount
  · rename_i hwriting
    rw [hwriting] at h
    exact h

theorem distinct_step (p : Replica × Database) (a : Replica.Act) (q : Replica × Database)
    (h : Distinct p.1) (hstep : machine p a = some q) : Distinct q.1 := by
  obtain ⟨R, db⟩ := p
  obtain ⟨R', db'⟩ := q
  have hst : Step R db a R' db' := step_cases hstep
  cases hst with
  | beginSnapshot => exact Registry.listedBelow_zero R.registry
  | list hlisting hfree hshard horder =>
    simp only [Distinct, hlisting] at h
    exact Registry.ListedBelow.list h horder
  | due hlisted =>
    simp only [Distinct, hlisted] at h
    simp only [Distinct, Snapshotter.flatten_chunk, Snapshotter.due_eq_filter]
    exact h.nodup.sublist ((List.filter_sublist).map _)
  | saveSessions hwriting hmem =>
    simp only [Distinct, hwriting] at h
    exact h.sublist ((List.erase_sublist.flatten).map _)
  | endSnapshot => trivial
  | _ => exact distinct_of_same h rfl rfl

/-- The writes of a session snapshot under `runConcurrent` end as the replica
machine does after the same tasks in some order, each of them without
interruption. -/
theorem snapshot_writes_serialize (cfg : Config) (tick : ℤ) (batched : Bool)
    (replicaID label : String) (db₀ : Database) (acts₀ : List Replica.Act) (R : Replica)
    (db : Database)
    (hreach : run machine (Replica.start cfg tick batched replicaID label, db₀) acts₀ = some (R, db))
    (tasks : List (List Agent)) (hwriting : R.snapshot = .writing tasks) (fails : Agent → Bool)
    (maxConcurrent : ℤ) (acts : List RunConcurrent.Act) (s : State (Database × Snapshotter))
    (hrun : run (RunConcurrent.step (slots maxConcurrent))
      (RunConcurrent.start (tasks.map (sessionTask fails)) (db, R.snapshotter)) acts = some s)
    (hreturned : s.phase = .returned) :
    ∃ order, tasks.Perm order ∧
      run machine (R, db) (order.map fun task => .saveSessions task fails) =
        some ({ R with snapshot := .writing [], snapshotter := s.shared.2 }, s.shared.1) := by
  have hstart : Distinct (Replica.start cfg tick batched replicaID label) := trivial
  have hdistinct : Distinct R :=
    run_invariant (fun p : Replica × Database => Distinct p.1) distinct_step hstart hreach
  simp only [Distinct, hwriting] at hdistinct
  obtain ⟨sched, hsched⟩ := remaining_run hrun
  obtain ⟨order, hperm, hshared⟩ := exists_order_of_finished (B := (· ∈ tasks.flatten))
    (sendSessions fails) (acknowledgedSessions fails) recordSession
    (fun a b ha hb p => Prod.ext rfl
      (recordWritten_comm p.2 (List.inj_on_of_nodup_map hdistinct ha hb)))
    (fun _ _ _ => rfl) (fun _ _ _ => rfl) tasks
    (fun task htask p a ha => List.mem_flatten_of_mem htask (mem_of_acknowledged ha))
    (db, R.snapshotter) sched _ hsched ((inv_run hrun).remaining_of_returned hreturned)
  have hruns := run_each machine
    (fun tasks (p : Database × Snapshotter) =>
      ({ R with snapshot := .writing tasks, snapshotter := p.2 }, p.1))
    (fun task => .saveSessions task fails)
    (fun task p => atOnce (sendSessions fails) (acknowledgedSessions fails) recordSession p task)
    (fun tasks task p hmem => by
      rw [atOnce_session]
      exact if_pos hmem) order tasks hperm (db, R.snapshotter)
  refine ⟨order, hperm, ?_⟩
  obtain ⟨registry, dirty, locks, flush, snapshot⟩ := R
  subst hwriting
  change s.shared = _ at hshared
  rw [hshared]
  exact hruns

/-- The tasks of a snapshot that writes. -/
def writingTasks : Snapshot → Option (List (List Agent))
  | .writing tasks => some tasks
  | _ => none

/-- The rows of both agents. -/
def savedRows : Database := saveAgent (saveAgent Database.empty (heardAt 0 0)) (secondHeardAt 0 0)

/-- Both agents are heard and listed for a snapshot. -/
def listedActs : List Replica.Act :=
  heartbeatActs 0 ++ secondHeartbeatActs 0 0 ++ [.beginSnapshot, .list [zeroUID, secondUID], .due 0]

/-- The session rows of two saved agents are written and recorded, each by a task of its
own. -/
theorem snapshot_writes_serialize_saved :
    ∃ R db s, run machine ({ small "a" with batched := false }, savedRows) listedActs =
        some (R, db) ∧
      run (RunConcurrent.step (slots 2))
        (RunConcurrent.start ([[heardAt 0 0], [secondHeardAt 0 0]].map (sessionTask fun _ => false))
          (db, R.snapshotter)) (sideBySide 5) = some s ∧
      (∀ id ∈ [zeroUID, secondUID],
        s.shared.1.sessions.find id ≠ none ∧ s.shared.2.written.find id ≠ none) ∧
      ∃ order, [[heardAt 0 0], [secondHeardAt 0 0]].Perm order ∧
        run machine (R, db) (order.map fun task => .saveSessions task fun _ => false) =
          some ({ R with snapshot := .writing [], snapshotter := s.shared.2 }, s.shared.1) := by
  obtain ⟨⟨R, db⟩, hreach, hwriting, hnext⟩ : ∃ p,
      run machine ({ small "a" with batched := false }, savedRows) listedActs = some p ∧
      writingTasks p.1.snapshot = some [[heardAt 0 0], [secondHeardAt 0 0]] ∧
      (run (RunConcurrent.step (slots 2)) (RunConcurrent.start
        ([[heardAt 0 0], [secondHeardAt 0 0]].map (sessionTask fun _ => false))
        (p.2, p.1.snapshotter)) (sideBySide 5)).any fun s => decide (s.phase = .returned ∧
          ∀ id ∈ [zeroUID, secondUID],
            s.shared.1.sessions.find id ≠ none ∧ s.shared.2.written.find id ≠ none) := by
    apply exists_run_of_any
    decide +kernel
  obtain ⟨s, hrun, hreturned, hwritten⟩ := exists_run_of_any hnext
  have hsnapshot : R.snapshot = .writing [[heardAt 0 0], [secondHeardAt 0 0]] := by
    revert hwriting
    cases R.snapshot with
    | writing tasks => exact fun htasks => congrArg Snapshot.writing (Option.some.inj htasks)
    | _ => exact fun hnone => absurd hnone.symm (Option.some_ne_none _)
  exact ⟨R, db, s, hreach, hrun, hwritten,
    snapshot_writes_serialize _ _ false _ _ _ _ R db hreach _ hsnapshot _ 2 _ s hrun hreturned⟩

end Grex.ConcurrentWrites
