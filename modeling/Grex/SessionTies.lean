import Grex.Durability

/-!
Whether the flusher and the session snapshotter agree on who is connected. Both
read the registry first and write `agent_session` later, and the session guard
admits ties, so a session write that was read before a disconnect can land after
the disconnect was saved. An observer lists, for each agent, the writes of its
session row as they land; the last of them decides.
-/

namespace Grex.SessionTies

open GoTime AgentState Message Tables Replica Machine Durability

/-- The stored row is newer than the snapshot, so the guard refuses it. -/
def refused (db : Database) (a : Agent) : Bool :=
  (db.sessions.find a.instanceUID).any fun row => decide (micros a.lastSeen < row.updatedAt)

/-- The session statements of a task that land. -/
def landing (fails : Agent → Bool) (db : Database) (task : List Agent) : List Agent :=
  if ∀ b ∈ task, (Snapshotter.sessionStatement fails b db).isSome then
    task.filter fun b => !refused db b
  else []

/-- The guard refuses the snapshot in favour of a row with another `Connected`. -/
def refusedOther (db : Database) (a : Agent) : Bool :=
  (db.sessions.find a.instanceUID).any fun row =>
    decide (micros a.lastSeen < row.updatedAt ∧ row.connected ≠ a.connected)

/-- A write of an agent's session row: a `SaveAgent`, with whether the guard
refused it for a row with another `Connected`, or a session statement that landed. -/
inductive Landing
  | saved (a : Agent) (refusedOther : Bool)
  | session (b : Agent)

/-- The last `SaveAgent` of a history, which is listed newest first. -/
def lastSaved : List Landing → Option Agent
  | [] => none
  | .saved a _ :: _ => some a
  | .session _ :: earlier => lastSaved earlier

/-- The last session statement that landed since the last `SaveAgent` carried its
`Connected`; if none has landed since, the guard did not refuse that `SaveAgent`
for a row with another one. -/
def Heeded : List Landing → Prop
  | [] => True
  | .saved _ refusedOther :: _ => refusedOther = false
  | .session b :: earlier => ∀ a ∈ lastSaved earlier, b.connected = a.connected

instance (history : List Landing) : Decidable (Heeded history) :=
  match history with
  | [] => inferInstanceAs (Decidable True)
  | .saved _ refusedOther :: _ => inferInstanceAs (Decidable (refusedOther = false))
  | .session b :: earlier =>
      inferInstanceAs (Decidable (∀ a ∈ lastSaved earlier, b.connected = a.connected))

/-- The writes that land in a step are put in front of the agent's history. -/
def watchSessions (histories : String → List Landing) (u : (Replica × Database) × Journal)
    (a : Act) (_ : (Replica × Database) × Journal) (id : String) : List Landing :=
  match a with
  | .save agent true =>
      if agent.instanceUID = id then .saved agent (refusedOther u.1.2 agent) :: histories id
      else histories id
  | .saveSessions task fails =>
      -- a task holds each agent at most once
      match (landing fails u.1.2 task).find? fun b => decide (b.instanceUID = id) with
      | some b => .session b :: histories id
      | none => histories id
  | _ => histories id

/-- The replica with its journal of writes and what has landed for each agent. -/
def watched : ((Replica × Database) × Journal) × (String → List Landing) → Act →
    Option (((Replica × Database) × Journal) × (String → List Landing)) :=
  observed (observed machine watchWrites) watchSessions

/-- A registered agent whose stored session carries its current event time. -/
structure Tied (p : Replica × Database) (id : String) (a : Agent) (row : SessionRow) : Prop where
  held : p.1.registry.get id = some a
  stored : p.2.sessions.find id = some row
  unmoved : row.updatedAt = micros a.lastSeen

/-- Stored and registered `Connected` are the same for every tied agent. -/
def Agrees (p : Replica × Database) : Prop :=
  ∀ id a row, Tied p id a row → row.connected = a.connected

/-! ### One snapshot of each agent per pass -/

/-- A pass has listed each agent at most once, shard by shard. -/
structure Listed (R : Replica) : Prop where
  nodup : (R.snapshot.agents.map Agent.instanceUID).Nodup
  below : ∀ shard agents, R.snapshot = .listing shard agents →
    ∀ a ∈ agents, R.registry.shardFor a.instanceUID < shard

/-- The agents of the next shard are none of those listed before. -/
theorem listed_list {R : Replica} (hlisted : Listed R) {shard : ℕ} {agents : List Agent}
    (hlisting : R.snapshot = .listing shard agents) {order : List String}
    (horder : FinMap.Enumerates order (R.registry.shards shard).keys) :
    Listed { R with
      snapshot := .listing (shard + 1) (agents ++ order.filterMap R.registry.get) } := by
  have hnodup := hlisted.nodup
  rw [hlisting] at hnodup
  have hnext := Registry.ListedBelow.list ⟨hnodup, hlisted.below shard agents hlisting⟩ horder
  refine ⟨hnext.nodup, fun shard' agents' heq => ?_⟩
  cases heq
  exact hnext.below

theorem listed_step {R R' : Replica} {db db' : Database} {a : Act} (h : Step R db a R' db')
    (hlisted : Listed R) : Listed R' := by
  have hnodup := hlisted.nodup
  cases h with
  | exec hheld => exact ⟨hnodup, hlisted.below⟩
  | beginSnapshot hidle =>
    refine ⟨List.nodup_nil, fun shard agents heq a ha => ?_⟩
    cases heq
    simp at ha
  | list hlisting hfree hshard horder => exact listed_list hlisted hlisting horder
  | due hlisted' =>
    rename_i now agents
    rw [hlisted'] at hnodup
    refine ⟨?_, fun shard' agents' heq => by cases heq⟩
    change ((Snapshotter.chunk _ _).flatten.map Agent.instanceUID).Nodup
    rw [Snapshotter.flatten_chunk, Snapshotter.due_eq_filter]
    exact hnodup.sublist (List.filter_sublist.map _)
  | saveSessions hwriting hmem =>
    rename_i task fails tasks
    rw [hwriting] at hnodup
    refine ⟨?_, fun shard' agents' heq => by cases heq⟩
    have hperm := (flatten_erase_perm tasks task hmem).map Agent.instanceUID
    have hall := hperm.nodup_iff.mp hnodup
    rw [List.map_append] at hall
    exact (List.nodup_append.mp hall).2.1
  | endSnapshot hwritten => exact ⟨List.nodup_nil, fun shard' agents' heq => by cases heq⟩
  | _ => exact ⟨hnodup, hlisted.below⟩

/-- Each task of a pass holds an agent at most once. -/
theorem Listed.nodup_task {R : Replica} (hlisted : Listed R) {tasks : List (List Agent)}
    (hwriting : R.snapshot = .writing tasks) {task : List Agent} (hmem : task ∈ tasks) :
    (task.map Agent.instanceUID).Nodup := by
  have hnodup := hlisted.nodup
  rw [hwriting] at hnodup
  exact hnodup.sublist ((List.sublist_flatten_of_mem hmem).map _)

/-! ### What the observer knows -/

/-- The history ends with the save of the journal, and it is heeded exactly if the
stored `Connected` is the one of that save. -/
def Exact (db : Database) (j : Journal) (histories : String → List Landing) : Prop :=
  ∀ id s, j.last id = some (.saved s) → lastSaved (histories id) = some s ∧
    ∀ row, db.sessions.find id = some row →
      (Heeded (histories id) ↔ row.connected = s.connected)

/-- What the session upsert stores for a snapshot. -/
theorem upsertSessionRow_eq (db : Database) (a : Agent) :
    upsertSessionRow (db.sessions.find a.instanceUID) a =
      if refused db a then (db.sessions.find a.instanceUID).getD (sessionRow a)
      else sessionRow a := by
  unfold refused
  cases hrow : db.sessions.find a.instanceUID with
  | none => rfl
  | some row =>
    by_cases hlt : micros a.lastSeen < row.updatedAt
    · rw [upsertSessionRow_of_older row a hlt]
      simp [hlt]
    · rw [upsertSessionRow_of_newer row a (not_lt.mp hlt)]
      simp [hlt]

/-- A save stores its own `Connected` unless it is refused for another one. -/
theorem connected_saveAgent (db : Database) (a : Agent) (row : SessionRow)
    (hrow : (saveAgent db a).sessions.find a.instanceUID = some row) :
    refusedOther db a = false ↔ row.connected = a.connected := by
  rw [sessions_saveAgent, FinMap.find_set_self, Option.some.injEq] at hrow
  subst hrow
  unfold refusedOther
  cases hold : db.sessions.find a.instanceUID with
  | none => simp [upsertSessionRow, sessionRow]
  | some old =>
    by_cases hlt : micros a.lastSeen < old.updatedAt
    · rw [upsertSessionRow_of_older old a hlt]
      simp [hlt]
    · rw [upsertSessionRow_of_newer old a (not_lt.mp hlt)]
      simp [hlt, sessionRow]

section Task

variable {fails : Agent → Bool} {db : Database} {s : Snapshotter} {task : List Agent}

/-- A statement that lands leaves its own row. -/
theorem session_of_landing (hnodup : (task.map Agent.instanceUID).Nodup) {b : Agent}
    (hb : b ∈ landing fails db task) :
    (Snapshotter.writeTask fails ⟨db, s, [], []⟩ task).db.sessions.find b.instanceUID =
      some (sessionRow b) := by
  unfold landing at hb
  split at hb
  · rename_i hall
    obtain ⟨hmem, hadmitted⟩ := List.mem_filter.mp hb
    have hslot := Batch.slot_send_self (Snapshotter.sessions_independent fails) task hnodup db b hmem
    rw [if_pos hall, upsertSessionRow_eq] at hslot
    rw [Bool.not_eq_true'] at hadmitted
    rw [hadmitted] at hslot
    exact hslot
  · simp at hb

/-- A task none of whose statements lands for the agent leaves its row. -/
theorem session_of_not_landing (hnodup : (task.map Agent.instanceUID).Nodup) {id : String}
    (hnone : ∀ b ∈ landing fails db task, b.instanceUID ≠ id) {row : SessionRow}
    (hrow : (Snapshotter.writeTask fails ⟨db, s, [], []⟩ task).db.sessions.find id = some row) :
    db.sessions.find id = some row := by
  by_cases htask : id ∈ task.map Agent.instanceUID
  · obtain ⟨b, hb, rfl⟩ := List.mem_map.mp htask
    have hslot := Batch.slot_send_self (Snapshotter.sessions_independent fails) task hnodup db b hb
    by_cases hall : ∀ c ∈ task, (Snapshotter.sessionStatement fails c db).isSome
    · have hrefused : refused db b = true := by
        by_contra hnot
        refine hnone b ?_ rfl
        unfold landing
        rw [if_pos hall]
        exact List.mem_filter.mpr ⟨hb, by simpa using hnot⟩
      rw [if_pos hall, upsertSessionRow_eq, if_pos hrefused] at hslot
      have hold : (db.sessions.find b.instanceUID).isSome := by
        unfold refused at hrefused
        cases hfind : db.sessions.find b.instanceUID with
        | none => simp [hfind] at hrefused
        | some old => rfl
      obtain ⟨old, hold⟩ := Option.isSome_iff_exists.mp hold
      rw [hold, Option.getD_some] at hslot
      rw [hold, ← hslot]
      exact hrow
    · rw [if_neg hall] at hslot
      exact hslot.symm.trans hrow
  · have hslot := Batch.slot_send_other (Snapshotter.sessions_independent fails) task db id htask
    exact hslot.symm.trans hrow

end Task

theorem find_sessions_purge {db : Database} {before : ℤ} {id : String} {row : SessionRow}
    (hrow : (purge db before).sessions.find id = some row) : db.sessions.find id = some row := by
  simp only [purge, deleteWhere, FinMap.find_filterMap] at hrow
  obtain ⟨old, hold, hkept⟩ := Option.bind_eq_some_iff.mp hrow
  split at hkept
  · cases hkept
  · rw [hold, hkept]

/-- Dropping rows and saves keeps the rest exact. -/
theorem exact_of_kept {db db' : Database} {j j' : Journal} {histories : String → List Landing}
    (hexact : Exact db j histories)
    (hrows : ∀ id row, db'.sessions.find id = some row → db.sessions.find id = some row)
    (hlast : ∀ id s, j'.last id = some (.saved s) → j.last id = some (.saved s)) :
    Exact db' j' histories := by
  intro id s hsaved
  obtain ⟨hnewest, hheeded⟩ := hexact id s (hlast id s hsaved)
  exact ⟨hnewest, fun row hrow => hheeded row (hrows id row hrow)⟩

theorem exact_save {R : Replica} {db : Database} {j : Journal} {histories : String → List Landing}
    {agent : Agent} (hexact : Exact db j histories) (q : Replica × Database)
    (v : (Replica × Database) × Journal) :
    Exact (saveAgent db agent) (watchWrites j (R, db) (.save agent true) q)
      (watchSessions histories ((R, db), j) (.save agent true) v) := by
  intro id s hlast
  by_cases hid : agent.instanceUID = id
  · subst hid
    obtain rfl : agent = s := by simpa [watchWrites] using hlast
    simp only [watchSessions, if_pos]
    exact ⟨rfl, fun row hrow => connected_saveAgent db agent row hrow⟩
  · have hother : (saveAgent db agent).sessions.find id = db.sessions.find id := by
      rw [sessions_saveAgent, FinMap.find_set_of_ne _ _ (Ne.symm hid)]
    simp only [watchWrites, if_neg hid] at hlast
    simp only [watchSessions, if_neg hid]
    obtain ⟨hnewest, hheeded⟩ := hexact id s hlast
    exact ⟨hnewest, fun row hrow => hheeded row (hother.symm.trans hrow)⟩

theorem exact_saveSessions {R : Replica} {db : Database} {j : Journal}
    {histories : String → List Landing} {s : Snapshotter} {task : List Agent}
    {fails : Agent → Bool} (hexact : Exact db j histories)
    (hnodup : (task.map Agent.instanceUID).Nodup) (q : Replica × Database)
    (v : (Replica × Database) × Journal) :
    Exact (Snapshotter.writeTask fails ⟨db, s, [], []⟩ task).db
      (watchWrites j (R, db) (.saveSessions task fails) q)
      (watchSessions histories ((R, db), j) (.saveSessions task fails) v) := by
  intro id saved hlast
  change j.last id = _ at hlast
  obtain ⟨hnewest, hheeded⟩ := hexact id saved hlast
  simp only [watchSessions]
  cases hfind : (landing fails db task).find? fun b => decide (b.instanceUID = id) with
  | some b =>
    refine ⟨hnewest, fun row hrow => ?_⟩
    have hid : b.instanceUID = id := by simpa using List.find?_some hfind
    have hown := session_of_landing (s := s) hnodup (List.mem_of_find?_eq_some hfind)
    rw [hid] at hown
    obtain rfl : sessionRow b = row := Option.some.inj (hown.symm.trans hrow)
    simp [Heeded, hnewest, sessionRow]
  | none =>
    have hnone : ∀ b ∈ landing fails db task, b.instanceUID ≠ id := by
      intro b hb
      simpa using List.find?_eq_none.mp hfind b hb
    exact ⟨hnewest, fun row hrow => hheeded row (session_of_not_landing hnodup hnone hrow)⟩

theorem exact_step {u v : (Replica × Database) × Journal} {histories : String → List Landing}
    {a : Act} (hlisted : Listed u.1.1) (hexact : Exact u.1.2 u.2 histories)
    (hst : observed machine watchWrites u a = some v) :
    Exact v.1.2 v.2 (watchSessions histories u a v) := by
  obtain ⟨⟨R, db⟩, j⟩ := u
  obtain ⟨⟨R', db'⟩, j'⟩ := v
  obtain ⟨hmachine, hjournal⟩ := observed_eq_some.mp hst
  have hstep : Step R db a R' db' := step_cases hmachine
  change j' = watchWrites j (R, db) a (R', db') at hjournal
  subst hjournal
  cases hstep with
  | save hsaving hmem =>
    rename_i agent ok saves evicted connected
    cases ok with
    | false => exact hexact
    | true => exact exact_save hexact _ _
  | softDelete hdeleting hmem =>
    rename_i task now ok tasks connected
    cases ok with
    | false => exact hexact
    | true =>
      refine exact_of_kept hexact (fun id row hrow => ?_) fun id s hlast => ?_
      · rw [← (tables_softDeleteAgents db task now).1]
        exact hrow
      · by_cases hid : id ∈ task
        · simp [watchWrites, hid] at hlast
        · simpa only [watchWrites, if_neg hid] using hlast
  | upsertConnections hupserting hmem =>
    rename_i task now ok tasks
    cases ok with
    | false => exact hexact
    | true =>
      refine exact_of_kept hexact (fun id row hrow => ?_) fun _ _ hlast => hlast
      rw [← (tables_upsertConnectionsOf R task now db).2.1]
      exact hrow
  | saveSessions hwriting hmem =>
    exact exact_saveSessions hexact (hlisted.nodup_task hwriting hmem) _ _
  | purge => exact exact_of_kept hexact (fun _ _ => find_sessions_purge) fun _ _ hlast => hlast
  | _ => exact hexact

theorem exact_run {u v : ((Replica × Database) × Journal) × (String → List Landing)}
    {acts : List Act} (hlisted : Listed u.1.1.1) (hexact : Exact u.1.1.2 u.1.2 u.2)
    (hrun : run watched u acts = some v) : Exact v.1.1.2 v.1.2 v.2 := by
  have hboth : Listed v.1.1.1 ∧ Exact v.1.1.2 v.1.2 v.2 := by
    refine run_invariant (fun u => Listed u.1.1.1 ∧ Exact u.1.1.2 u.1.2 u.2) ?_
      ⟨hlisted, hexact⟩ hrun
    intro u a v hu hst
    obtain ⟨hinner, hwatch⟩ := observed_eq_some.mp hst
    refine ⟨listed_step (step_cases (observed_eq_some.mp hinner).1) hu.1, ?_⟩
    rw [hwatch]
    exact exact_step hu.1 hu.2 hinner
  exact hboth.2

/-! ### At rest -/

section Start

variable (cfg : Config) (tick : ℤ) (batched : Bool) (replicaID label : String) (db : Database)

/-- A replica that has just started on any database. -/
def fresh : ((Replica × Database) × Journal) × (String → List Landing) :=
  (((start cfg tick batched replicaID label, db), Journal.empty), fun _ => [])

/-- At rest an agent's stored `Connected` is the registered one exactly if its
history is heeded. -/
theorem connected_eq_iff {acts : List Act}
    {final : ((Replica × Database) × Journal) × (String → List Landing)}
    (hrun : run watched (fresh cfg tick batched replicaID label db) acts = some final)
    (hok : ∀ a ∈ acts, ∀ id, fails id a = false) (hquiet : Quiescent final.1.1.1) {id : String}
    {a : Agent} {row : SessionRow} (htied : Tied final.1.1 id a row) :
    row.connected = a.connected ↔ Heeded (final.2 id) := by
  have hinner := run_of_observed hrun
  have hsound := sound_run (u := (fresh cfg tick batched replicaID label db).1)
    (sound_start cfg tick batched replicaID label) hinner
  have hlost : final.1.2.lost id = false := lost_of_run rfl (fun a ha => hok a ha id) hinner
  have hmatches := hsound.matches_of_quiescent hquiet hlost
  rw [htied.held] at hmatches
  obtain ⟨s, hlast, hflushed⟩ := hmatches
  have hconnected : s.connected = a.connected := congrArg DirtyMarks.Flushed.connected hflushed
  have hlisted : Listed (start cfg tick batched replicaID label) :=
    ⟨List.nodup_nil, fun shard agents heq => by cases heq⟩
  have hempty : Exact db Journal.empty fun _ => [] := fun id s hlast => by cases hlast
  have hexact := exact_run (u := fresh cfg tick batched replicaID label db) hlisted hempty hrun
  rw [← hconnected, (hexact id s hlast).2 row htied.stored]

/-- With all writes succeeding, the flusher and the session snapshotter agree at
rest on who is connected exactly if for every tied agent the last session statement
that landed since its last `SaveAgent` carried the `Connected` of that `SaveAgent`,
or none has landed since and the guard did not refuse the `SaveAgent` for a row with
another one. -/
theorem agrees_at_rest_iff (acts : List Act)
    (final : ((Replica × Database) × Journal) × (String → List Landing))
    (hrun : run watched (fresh cfg tick batched replicaID label db) acts = some final)
    (hok : ∀ a ∈ acts, ∀ id, fails id a = false) (hquiet : Quiescent final.1.1.1) :
    Agrees final.1.1 ↔ ∀ id a row, Tied final.1.1 id a row → Heeded (final.2 id) := by
  constructor
  · intro hagrees id a row htied
    exact (connected_eq_iff cfg tick batched replicaID label db hrun hok hquiet htied).mp
      (hagrees id a row htied)
  · intro hheeded id a row htied
    exact (connected_eq_iff cfg tick batched replicaID label db hrun hok hquiet htied).mpr
      (hheeded id a row htied)

end Start

/-! ### One agent -/

/-- A session pass that reads the registry and finds one agent due. -/
def listActs (now : ℤ) : List Act := [.beginSnapshot, .list [zeroUID], .due now]

def writeActs (a : Agent) : List Act := [.saveSessions [a] fun _ => false, .endSnapshot]

/-- The agent's socket closes. -/
def closeActs : List Act :=
  [.lock (.setConnected zeroUID false), .exec 0, .fire 0, .exec 0, .unlock 0]

def closed : Agent := { heardAt 0 0 with connected := false }

/-- A flush that saves one disconnected agent. -/
def saveClosedActs : List Act :=
  [.drain [zeroUID], .get, .advance, .save closed true, .advance, .advance, .advance]

/-- A session write reverts the disconnect after it was saved, and the next pass
repairs it. -/
def repairActs : List Act :=
  heartbeatActs 0 ++ saveActs (heardAt 0 0) true ++ listActs 0 ++ closeActs ++ saveClosedActs ++
    writeActs (heardAt 0 0) ++ listActs 60000000000 ++ writeActs closed

theorem agrees_at_rest_repaired :
    ∃ final, run watched ((((small "a"), Database.empty), Journal.empty), fun _ => [])
        repairActs = some final ∧
      (final.1.1.2.sessions.find zeroUID = some (sessionRow closed) ∧
        final.1.1.1.registry.get zeroUID = some closed) ∧ Agrees final.1.1 := by
  have hfinal : ∃ final, run watched ((((small "a"), Database.empty), Journal.empty), fun _ => [])
        repairActs = some final ∧
      (final.1.1.1.locks.keys = ∅ ∧ final.1.1.1.flush = .idle ∧ final.1.1.1.dirty = ∅) ∧
      (final.1.1.2.sessions.find zeroUID = some (sessionRow closed) ∧
        final.1.1.1.registry.get zeroUID = some closed) ∧
      final.1.1.1.registry.count = 1 ∧
      ∀ id ∈ (final.1.1.1.registry.shards 0).keys, Heeded (final.2 id) := by
    apply exists_run_of_any
    decide +kernel
  obtain ⟨final, hrun, ⟨hunlocked, hidle, hclean⟩, hsame, hcount, hheeded⟩ := hfinal
  refine ⟨final, hrun, hsame, (agrees_at_rest_iff _ _ _ _ _ _ _ final hrun (fails_of_succeeds rfl)
    ⟨hunlocked, hidle, hclean⟩).mpr fun id a row htied => hheeded id ?_⟩
  have hshard := final.1.1.1.registry.shardFor_lt id
  rw [hcount] at hshard
  rw [Registry.mem_shard_keys, htied.held]
  exact ⟨by omega, rfl⟩

/-- The session pass reads the connected agent, the disconnect is saved at the
same event time, and only then the session write lands: at rest the agent is
stored as connected while the registry has it disconnected. -/
theorem session_write_reverts_disconnect :
    ∃ saved, run machine (small "a", Database.empty)
        (heartbeatActs 0 ++ saveActs (heardAt 0 0) true ++ listActs 0 ++ closeActs ++
          saveClosedActs) = some saved ∧
      saved.2.sessions.find zeroUID = some (sessionRow closed) ∧
      ∃ final, run machine saved (writeActs (heardAt 0 0)) = some final ∧
        (final.1.locks.keys = ∅ ∧ final.1.flush = .idle ∧ final.1.dirty = ∅ ∧
          final.1.snapshot.agents = []) ∧
        Tied final zeroUID closed (sessionRow (heardAt 0 0)) ∧ ¬ Agrees final := by
  have hruns : ∃ saved, run machine (small "a", Database.empty)
      (heartbeatActs 0 ++ saveActs (heardAt 0 0) true ++ listActs 0 ++ closeActs ++
        saveClosedActs) = some saved ∧
      saved.2.sessions.find zeroUID = some (sessionRow closed) ∧
      (run machine saved (writeActs (heardAt 0 0))).any fun final =>
        decide ((final.1.locks.keys = ∅ ∧ final.1.flush = .idle ∧ final.1.dirty = ∅ ∧
            final.1.snapshot.agents = []) ∧
          final.1.registry.get zeroUID = some closed ∧
          final.2.sessions.find zeroUID = some (sessionRow (heardAt 0 0))) := by
    apply exists_run_of_any
    decide +kernel
  obtain ⟨saved, hsaved, hstored, hnext⟩ := hruns
  obtain ⟨final, hfinal, hrest, hheld, hreverted⟩ := exists_run_of_any hnext
  have htied : Tied final zeroUID closed (sessionRow (heardAt 0 0)) := ⟨hheld, hreverted, rfl⟩
  refine ⟨saved, hsaved, hstored, final, hfinal, hrest, htied, fun hagrees => ?_⟩
  have hsame := hagrees _ _ _ htied
  cases hsame

end Grex.SessionTies
