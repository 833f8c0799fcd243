import Grex.Cluster

/-!
How long the row of an evicted agent is kept. The purge jobs stand in a queue in the
database; each holds the cutoff that was computed when it was scheduled and may run
late, fail or run again. A row is absent, visible or hidden since a time, and which of
these it is follows from the writes alone: a save makes an absent row visible, a
soft-delete hides a visible one, and only a purge with a later cutoff ends a hidden one.
So a row is gone only when more than the configured duration has passed since it was
hidden. Which replica schedules a job and which one works it is left open.
-/

namespace Grex.Retention

open GoTime AgentState Tables Machine

variable {ι : Type*}

structure PurgeEvictedAgentsArgs where
  before : ℤ
  deriving DecidableEq

/-- The arguments of a job, by the clock when it is scheduled. -/
def purgeArgs (softDeleteDuration now : ℤ) : PurgeEvictedAgentsArgs := ⟨now - softDeleteDuration⟩

/-- Replicas over one database with its job queue, the time, and how many rows the purges
have reported. -/
structure System (ι : Type*) where
  cluster : Cluster ι
  queue : List PurgeEvictedAgentsArgs := []
  clock : ℤ
  purged : ℕ := 0

inductive Act (ι : Type*)
  | tick (now : ℤ)
  | replica (r : ι) (a : Replica.Act)
  | schedule (r : ι)
  | work (job : PurgeEvictedAgentsArgs) (ok done : Bool)

/-- A soft-delete has read the clock before it is sent, and rows are purged by jobs only. -/
def Timely (clock : ℤ) : Replica.Act → Prop
  | .softDelete _ now _ => now ≤ clock
  | .purge _ => False
  | _ => True

instance (clock : ℤ) : ∀ a, Decidable (Timely clock a)
  | .softDelete _ now _ => Int.decLe now clock
  | .purge _ => isFalse id
  | .lock _ | .exec _ | .fire _ | .unlock _ | .drain _ | .get | .advance | .save _ _
  | .upsertConnections _ _ _ | .beginSnapshot | .list _ | .due _ | .saveSessions _ _
  | .endSnapshot => isTrue trivial

/-- The rows that the purge statement deletes. -/
def rowsAffected (db : Database) (before : ℤ) : ℕ :=
  (db.agents.keys \ (purge db before).agents.keys).card

/-- The system after a worker has taken a job. A job that failed, or whose end could not be
recorded, stays in the queue. -/
def System.worked (s : System ι) (job : PurgeEvictedAgentsArgs) (ok done : Bool) : System ι where
  cluster := ⟨s.cluster.replicas, if ok then purge s.cluster.db job.before else s.cluster.db⟩
  queue := if done then s.queue.erase job else s.queue
  clock := s.clock
  purged := s.purged + if ok then rowsAffected s.cluster.db job.before else 0

def step [DecidableEq ι] (softDeleteDuration : ι → ℤ) (s : System ι) : Act ι → Option (System ι)
  | .tick now => if s.clock ≤ now then some { s with clock := now } else none
  | .replica r a =>
      if Timely s.clock a then (s.cluster.step (r, a)).map fun c => { s with cluster := c } else none
  | .schedule r => some { s with queue := s.queue ++ [purgeArgs (softDeleteDuration r) s.clock] }
  | .work job ok done => if job ∈ s.queue then some (s.worked job ok done) else none

inductive Step [DecidableEq ι] (softDeleteDuration : ι → ℤ) (s : System ι) :
    Act ι → System ι → Prop
  | tick {now : ℤ} (hle : s.clock ≤ now) :
      Step softDeleteDuration s (.tick now) { s with clock := now }
  | replica {r : ι} {a : Replica.Act} {c : Cluster ι} (htimely : Timely s.clock a)
      (hc : s.cluster.step (r, a) = some c) :
      Step softDeleteDuration s (.replica r a) { s with cluster := c }
  | schedule {r : ι} : Step softDeleteDuration s (.schedule r)
      { s with queue := s.queue ++ [purgeArgs (softDeleteDuration r) s.clock] }
  | work {job : PurgeEvictedAgentsArgs} {ok done : Bool} (hjob : job ∈ s.queue) :
      Step softDeleteDuration s (.work job ok done) (s.worked job ok done)

theorem step_cases [DecidableEq ι] {softDeleteDuration : ι → ℤ} {s t : System ι} {a : Act ι}
    (h : step softDeleteDuration s a = some t) : Step softDeleteDuration s a t := by
  cases a with
  | tick now =>
    simp only [step] at h
    split_ifs at h with hle
    obtain rfl := Option.some.inj h
    exact .tick hle
  | replica r a =>
    simp only [step] at h
    split_ifs at h with htimely
    obtain ⟨c, hc, rfl⟩ := Option.map_eq_some_iff.mp h
    exact .replica htimely hc
  | schedule r =>
    obtain rfl := Option.some.inj h
    exact .schedule
  | work job ok done =>
    simp only [step] at h
    split_ifs at h with hjob
    obtain rfl := Option.some.inj h
    exact .work hjob

/-! ### The life of a row -/

inductive Life
  | absent
  | visible
  | hidden (since : ℤ)
  deriving DecidableEq

def life (db : Database) (id : String) : Life :=
  match db.agents.find id with
  | none => .absent
  | some row =>
      match row.evictedAt with
      | none => .visible
      | some since => .hidden since

theorem life_eq_absent {db : Database} {id : String} :
    life db id = .absent ↔ db.agents.find id = none := by
  unfold life
  cases db.agents.find id with
  | none => simp
  | some row => cases h : row.evictedAt <;> simp [h]

theorem life_congr {db db' : Database} (h : db'.agents = db.agents) (id : String) :
    life db' id = life db id := by
  unfold life
  rw [h]

def Life.saved : Life → Life
  | absent => visible
  | l => l

def Life.softDeleted (now : ℤ) : Life → Life
  | visible => hidden (micros now)
  | l => l

def Life.purged (before : ℤ) : Life → Life
  | hidden since => if since < micros before then absent else hidden since
  | l => l

theorem life_saveAgent (db : Database) (a : Agent) (id : String) :
    life (saveAgent db a) id = if a.instanceUID = id then (life db id).saved else life db id := by
  unfold life
  rw [agents_saveAgent]
  by_cases hid : a.instanceUID = id
  · rw [if_pos hid, ← hid, FinMap.find_set_self]
    cases db.agents.find a.instanceUID with
    | none => rfl
    | some row =>
      simp only [evictedAt_upsertAgentRow]
      cases row.evictedAt <;> rfl
  · rw [if_neg hid, FinMap.find_set_of_ne _ _ (Ne.symm hid)]

theorem life_softDeleteAgents (db : Database) (ids : List String) (now : ℤ) (id : String) :
    life (softDeleteAgents db ids now) id =
      if id ∈ ids then (life db id).softDeleted now else life db id := by
  unfold life
  rw [find_agents_softDeleteAgents]
  by_cases hid : id ∈ ids
  · rw [if_pos hid, if_pos hid]
    cases db.agents.find id with
    | none => rfl
    | some row => cases h : row.evictedAt <;> simp [softDeletedRow, h, Life.softDeleted]
  · rw [if_neg hid, if_neg hid]

theorem life_purge (db : Database) (before : ℤ) (id : String) :
    life (purge db before) id = (life db id).purged before := by
  unfold life purge
  rw [find_agents_deleteWhere]
  cases db.agents.find id with
  | none => rfl
  | some row =>
    cases h : row.evictedAt with
    | none => simp [evictedBefore, h, Life.purged]
    | some since =>
      by_cases hbefore : since < micros before
      · simp [evictedBefore, h, Life.purged, hbefore]
      · simp [evictedBefore, h, Life.purged, hbefore]

/-- What an action makes of the life of a row. -/
def Life.next (id : String) (l : Life) : Act ι → Life
  | .replica _ (.save agent true) => if agent.instanceUID = id then l.saved else l
  | .replica _ (.softDelete task now true) => if id ∈ task then l.softDeleted now else l
  | .work job true _ => l.purged job.before
  | _ => l

theorem life_replica_step {R R' : Replica} {db db' : Database} {clock : ℤ} {r : ι}
    {a : Replica.Act} (h : Replica.Step R db a R' db') (htimely : Timely clock a) (id : String) :
    life db' id = (life db id).next id (.replica r a) := by
  cases h with
  | save hsaving hmem =>
    rename_i agent ok saves evicted connected
    cases ok with
    | false => rfl
    | true => exact life_saveAgent db agent id
  | softDelete hdeleting hmem =>
    rename_i task now ok tasks connected
    cases ok with
    | false => rfl
    | true => exact life_softDeleteAgents db task now id
  | upsertConnections hupserting hmem =>
    rename_i task now ok tasks
    cases ok with
    | false => rfl
    | true => exact life_congr (Replica.tables_upsertConnectionsOf R task now db).1 id
  | saveSessions hwriting hmem => exact life_congr (Snapshotter.tables_writeTask _ _ _).1 id
  | purge => exact htimely.elim
  | _ => rfl

section Runs

variable [DecidableEq ι] {softDeleteDuration : ι → ℤ} {s t : System ι} {a : Act ι}

theorem life_step (h : step softDeleteDuration s a = some t) (id : String) :
    life t.cluster.db id = (life s.cluster.db id).next id a := by
  cases step_cases h with
  | tick hle => rfl
  | replica htimely hc => exact life_replica_step (Cluster.step_eq_some hc).1 htimely id
  | schedule => rfl
  | work hjob =>
    rename_i job ok done
    cases ok with
    | false => rfl
    | true => exact life_purge s.cluster.db job.before id

/-- In every run the life of a row is what its saves, its soft-deletes and the purges, in
their order, make of it: no save of a returned agent brings a hidden row back, no second
soft-delete moves the time since when it is hidden, and nothing but a purge ends it. -/
theorem life_refines (softDeleteDuration : ι → ℤ) (s t : System ι) (acts : List (Act ι))
    (hrun : run (step softDeleteDuration) s acts = some t) (id : String) :
    life t.cluster.db id = acts.foldl (Life.next id) (life s.cluster.db id) := by
  have halong : Along (step softDeleteDuration) (fun _ _ => True) s acts :=
    along_of_forall fun _ _ _ => trivial
  refine run_simulates (R := fun s l => life s.cluster.db id = l) ?_ rfl halong hrun
  intro s l a s' hs _ hstep
  rw [life_step hstep, hs]

/-! ### The age of purged rows -/

/-- The cutoffs of the waiting jobs lie as far back as they should. -/
def InTime (softDeleteDuration : ι → ℤ) (s : System ι) : Prop :=
  ∀ job ∈ s.queue, ∃ r, job.before + softDeleteDuration r ≤ s.clock

theorem inTime_step (hs : InTime softDeleteDuration s) (h : step softDeleteDuration s a = some t) :
    InTime softDeleteDuration t := by
  intro job hjob
  cases step_cases h with
  | tick hle =>
    obtain ⟨r, hr⟩ := hs job hjob
    exact ⟨r, hr.trans hle⟩
  | replica htimely hc => exact hs job hjob
  | schedule =>
    rename_i r
    rcases List.mem_append.mp hjob with hold | hnew
    · exact hs job hold
    · obtain rfl := List.mem_singleton.mp hnew
      refine ⟨r, ?_⟩
      simp only [purgeArgs]
      omega
  | work hjob' =>
    rename_i job' ok done
    refine hs job ?_
    cases done with
    | false => exact hjob
    | true => exact List.mem_of_mem_erase hjob

/-- A row that a step ends was hidden, and before the cutoff of a waiting job. -/
theorem purged_of_gone (h : step softDeleteDuration s a = some t) {id : String}
    (hrow : life s.cluster.db id ≠ .absent) (hgone : life t.cluster.db id = .absent) :
    ∃ job done since, a = .work job true done ∧ job ∈ s.queue ∧
      life s.cluster.db id = .hidden since ∧ since < micros job.before := by
  rw [life_step h] at hgone
  generalize hlife : life s.cluster.db id = l at hrow hgone
  unfold Life.next at hgone
  split at hgone
  · split_ifs at hgone
    · cases l <;> simp_all [Life.saved]
    · exact absurd hgone hrow
  · split_ifs at hgone
    · cases l <;> simp_all [Life.softDeleted]
    · exact absurd hgone hrow
  · rename_i job done
    cases l with
    | absent => exact absurd rfl hrow
    | visible => cases hgone
    | hidden since =>
      simp only [Life.purged] at hgone
      split_ifs at hgone with hbefore
      cases step_cases h with
      | work hjob => exact ⟨job, done, since, rfl, hjob, rfl, hbefore⟩
  · exact absurd hgone hrow

/-- A row is hidden by a soft-delete of its agent. -/
theorem softDeleted_of_hidden (h : step softDeleteDuration s a = some t) {id : String} {since : ℤ}
    (hbefore : life s.cluster.db id ≠ .hidden since) (hhidden : life t.cluster.db id = .hidden since) :
    ∃ r task now, a = .replica r (.softDelete task now true) ∧ id ∈ task ∧ since = micros now := by
  rw [life_step h] at hhidden
  generalize life s.cluster.db id = l at hbefore hhidden
  unfold Life.next at hhidden
  split at hhidden
  · split_ifs at hhidden
    · cases l <;> simp_all [Life.saved]
    · exact absurd hhidden hbefore
  · rename_i r task now
    split_ifs at hhidden with hid
    · cases l with
      | visible =>
        simp only [Life.softDeleted, Life.hidden.injEq] at hhidden
        exact ⟨r, task, now, rfl, hid, hhidden.symm⟩
      | absent => cases hhidden
      | hidden since' => exact absurd hhidden hbefore
    · exact absurd hhidden hbefore
  · cases l with
    | hidden since' =>
      simp only [Life.purged] at hhidden
      split_ifs at hhidden
      exact absurd hhidden hbefore
    | absent => cases hhidden
    | visible => cases hhidden
  · exact absurd hhidden hbefore

theorem mem_keys_iff_life {db : Database} {id : String} :
    id ∈ db.agents.keys ↔ life db id ≠ .absent := by
  rw [Ne, life_eq_absent, FinMap.mem_keys, Option.isSome_iff_ne_none]

/-- The rows that a step ends are counted. -/
theorem purged_step (h : step softDeleteDuration s a = some t) :
    t.purged = s.purged + (s.cluster.db.agents.keys \ t.cluster.db.agents.keys).card := by
  by_cases hwork : ∃ job done, a = .work job true done
  · obtain ⟨job, done, rfl⟩ := hwork
    cases step_cases h with
    | work hjob => rfl
  · have hkept : s.cluster.db.agents.keys ⊆ t.cluster.db.agents.keys := by
      intro id hid
      rw [mem_keys_iff_life] at hid ⊢
      intro hgone
      obtain ⟨job, done, -, rfl, -⟩ := purged_of_gone h hid hgone
      exact hwork ⟨job, done, rfl⟩
    rw [Finset.sdiff_eq_empty_iff_subset.mpr hkept, Finset.card_empty, Nat.add_zero]
    cases step_cases h with
    | tick hle => rfl
    | replica htimely hc => rfl
    | schedule => rfl
    | work hjob =>
      rename_i job ok done
      cases ok with
      | false => rfl
      | true => exact absurd ⟨job, done, rfl⟩ hwork

/-- A row is gone only by a purge, which counts it, and only when it has been hidden by a
soft-delete ever since, the clock reading of which lies more than the configured duration
back. -/
theorem purged_after_retention (softDeleteDuration : ι → ℤ) (s₀ s t : System ι)
    (acts : List (Act ι)) (a : Act ι) (id : String) (hintime : InTime softDeleteDuration s₀)
    (hshown : ∀ since, life s₀.cluster.db id ≠ .hidden since)
    (hrun : run (step softDeleteDuration) s₀ acts = some s)
    (hstep : step softDeleteDuration s a = some t) (hrow : life s.cluster.db id ≠ .absent)
    (hgone : life t.cluster.db id = .absent) :
    (∃ job done, a = .work job true done ∧ job ∈ s.queue) ∧
      t.purged = s.purged + (s.cluster.db.agents.keys \ t.cluster.db.agents.keys).card ∧
      ∃ before r task now after u v, acts = before ++ .replica r (.softDelete task now true) :: after ∧
        id ∈ task ∧ run (step softDeleteDuration) s₀ before = some u ∧
        step softDeleteDuration u (.replica r (.softDelete task now true)) = some v ∧
        (∀ w, Visits (step softDeleteDuration) v after w →
          life w.cluster.db id = .hidden (micros now)) ∧
        ∃ scheduler, now + softDeleteDuration scheduler < s.clock := by
  obtain ⟨job, done, since, rfl, hjob, hhidden, hbefore⟩ := purged_of_gone hstep hrow hgone
  refine ⟨⟨job, done, rfl, hjob⟩, purged_step hstep, ?_⟩
  obtain ⟨before, b, after, u, v, hacts, hu, hnot, hv, hsince⟩ :=
    exists_step_since (fun w => life w.cluster.db id = .hidden since) (hshown since) hrun hhidden
  have hvnow : life v.cluster.db id = .hidden since := hsince v (visits_self v after)
  obtain ⟨r, task, now, rfl, hid, rfl⟩ := softDeleted_of_hidden hv hnot hvnow
  refine ⟨before, r, task, now, after, u, v, hacts, hid, hu, hv, hsince, ?_⟩
  obtain ⟨scheduler, hscheduler⟩ :=
    run_invariant (InTime softDeleteDuration) (fun _ _ _ hs h => inTime_step hs h) hintime hrun job hjob
  have hlt : now < job.before := by
    by_contra hle
    exact absurd (micros_mono (not_lt.mp hle)) (not_le.mpr hbefore)
  exact ⟨scheduler, by omega⟩

end Runs

/-! One replica hears an agent and saves it, evicts it 100 seconds later and hides its row;
the agent returns and is saved again. -/

open Replica in
def returned : List (Act Unit) :=
  (heartbeatActs 0 ++ saveActs (heardAt 0 0) true).map (.replica ()) ++
    .tick 100000000000 ::
    (evictActs 100000000000 ++ softDeleteActs 100000000000 true ++
      heartbeatActs 110000000000 ++
      saveActs (heardAt 110000000000 110000000000) true).map (.replica ())

def alone : System Unit := ⟨⟨fun _ => Replica.small "a", Database.empty⟩, [], 0, 0⟩

def week : ℤ := 604800000000000

open Message in
theorem life_refines_returned : ∃ t, run (step fun _ => week) alone returned = some t ∧
    life t.cluster.db zeroUID = .hidden 100000000 ∧
    returned.foldl (Life.next zeroUID) .absent = .hidden 100000000 := by
  obtain ⟨t, hrun, hhidden⟩ : ∃ t, run (step fun _ => week) alone returned = some t ∧
      life t.cluster.db zeroUID = .hidden 100000000 := exists_run_of_any (by decide +kernel)
  refine ⟨t, hrun, hhidden, ?_⟩
  rw [← hhidden]
  exact (life_refines (fun _ => week) alone t returned hrun zeroUID).symm

/-- A job that is scheduled a week and a microsecond later ends the row, although the agent is
back. -/
def expired : List (Act Unit) := returned ++ [.tick (100000001000 + week), .schedule ()]

open Message in
theorem purged_after_retention_expired : ∃ s t, run (step fun _ => week) alone expired = some s ∧
    step (fun _ => week) s (.work ⟨100000001000⟩ true true) = some t ∧ t.purged = 1 ∧
    ∃ before r task now after u v,
      expired = before ++ .replica r (.softDelete task now true) :: after ∧ zeroUID ∈ task ∧
      run (step fun _ => week) alone before = some u ∧
      step (fun _ => week) u (.replica r (.softDelete task now true)) = some v ∧
      (∀ w, Visits (step fun _ => week) v after w →
        life w.cluster.db zeroUID = .hidden (micros now)) ∧
      ∃ _ : Unit, now + week < s.clock := by
  obtain ⟨s, hrun, hrow, hlast⟩ : ∃ s, run (step fun _ => week) alone expired = some s ∧
      life s.cluster.db zeroUID ≠ .absent ∧
      (step (fun _ => week) s (.work ⟨100000001000⟩ true true)).any fun t =>
        decide (life t.cluster.db zeroUID = .absent ∧ t.purged = 1) :=
    exists_run_of_any (by decide +kernel)
  obtain ⟨t, hstep, hend⟩ := (Option.any_eq_true _ _).mp hlast
  obtain ⟨hgone, hpurged⟩ := of_decide_eq_true hend
  have hshown : ∀ since, life alone.cluster.db zeroUID ≠ .hidden since := by
    intro since h
    cases h
  have hretained := purged_after_retention (fun _ => week) alone s t expired _ zeroUID
    (fun job hjob => absurd hjob List.not_mem_nil) hshown hrun hstep hrow hgone
  exact ⟨s, t, hrun, hstep, hpurged, hretained.2.2⟩

end Grex.Retention
