import Grex.Reads
import Grex.Replica

/-!
What one step of a replica does to the flush under way and to the tables. A
drained agent is waiting to be looked up, waiting to be saved, or waiting to be
soft-deleted, and never two of these at once. An agent is only ever doomed when
the registry no longer has it.
-/

namespace Grex.Replica

open GoTime AgentState Message AgentProgram Tables

/-- The replica together with the database, as one machine. -/
def machine (p : Replica × Database) (a : Act) : Option (Replica × Database) := p.1.step p.2 a

/-- A replica that has just started. -/
def start (cfg : Config) (tick : ℤ) (batched : Bool) (replicaID replicaLabel : String) :
    Replica where
  registry := Registry.new cfg
  snapshotTick := tick
  batched := batched
  replicaID := replicaID
  replicaLabel := replicaLabel

/-- The drained ids that have not been looked up. -/
def Flush.todo : Flush → List String
  | .reading todo _ _ _ => todo
  | _ => []

/-- The snapshots that are still to be saved. -/
def Flush.saves : Flush → List Agent
  | .reading _ saves _ _ => saves
  | .saving saves _ _ => saves
  | _ => []

/-- The agents that are still to be soft-deleted. -/
def Flush.doomed : Flush → List String
  | .reading _ _ evicted _ => evicted
  | .saving _ evicted _ => evicted
  | .deleting tasks _ => tasks.flatten
  | _ => []

def Flush.ids (f : Flush) : List String := f.todo ++ f.saves.map Agent.instanceUID ++ f.doomed

theorem Flush.next_same {size : ℕ} {f f' : Flush} (h : f.next size = some f') :
    f'.todo = f.todo ∧ f'.saves = f.saves ∧ f'.doomed = f.doomed := by
  unfold Flush.next at h
  split at h <;> cases h
  · exact ⟨rfl, rfl, rfl⟩
  · exact ⟨rfl, rfl, Snapshotter.flatten_chunk _ _⟩
  · exact ⟨rfl, rfl, rfl⟩
  · exact ⟨rfl, rfl, rfl⟩

/-- Looking up an id moves it from the drained ones to the saves or the doomed
ones. -/
theorem Flush.looked_perm (id : String) (slot : Option Agent) (hslot : Keyed id slot)
    (todo : List String) (saves : List Agent) (evicted : List String) (connected : List Agent) :
    (Flush.looked id slot todo saves evicted connected).ids.Perm
      (Flush.reading (id :: todo) saves evicted connected).ids := by
  cases slot with
  | none =>
    have hmove : (todo ++ saves.map Agent.instanceUID ++ evicted ++ [id]).Perm
        (id :: (todo ++ saves.map Agent.instanceUID ++ evicted)) := List.perm_append_singleton _ _
    simpa only [Flush.ids, Flush.looked, Flush.todo, Flush.saves, Flush.doomed, List.append_assoc,
      List.cons_append] using hmove
  | some a =>
    have ha : a.instanceUID = id := hslot a rfl
    have hmove : (todo ++ (saves.map Agent.instanceUID ++ [id]) ++ evicted).Perm
        (id :: (todo ++ saves.map Agent.instanceUID) ++ evicted) := by
      apply List.Perm.append_right
      rw [← List.append_assoc]
      exact List.perm_append_singleton _ _
    simpa only [Flush.ids, Flush.looked, Flush.todo, Flush.saves, Flush.doomed, List.map_append,
      List.map_cons, List.map_nil, ha, List.cons_append] using hmove

/-- Removing one task removes its ids. -/
theorem flatten_erase_perm {α : Type*} [DecidableEq α] (tasks : List (List α)) (task : List α)
    (hmem : task ∈ tasks) : tasks.flatten.Perm (task ++ (tasks.erase task).flatten) :=
  (List.perm_cons_erase hmem).flatten

theorem flatten_erase_subset {α : Type*} [DecidableEq α] (tasks : List (List α)) (task : List α) :
    (tasks.erase task).flatten ⊆ tasks.flatten := by
  intro a ha
  obtain ⟨c, hc, hac⟩ := List.mem_flatten.mp ha
  exact List.mem_flatten_of_mem (List.mem_of_mem_erase hc) hac

/-- A step other than a drain adds no id to the flush. -/
theorem ids_subperm {R R' : Replica} {db db' : Database} {a : Act} (h : Step R db a R' db')
    (hdrain : ∀ ids, a ≠ .drain ids) : R'.flush.ids.Subperm R.flush.ids := by
  cases h with
  | drain _ _ => exact absurd rfl (hdrain _)
  | get hreading hfree =>
    rename_i id todo saves evicted connected
    have hmove := Flush.looked_perm id (R.registry.get id) (R.registry.get_keyed id) todo saves
      evicted connected
    rw [hreading]
    exact hmove.subperm
  | advance hnext =>
    obtain ⟨htodo, hsaves, hdoomed⟩ := Flush.next_same hnext
    unfold Flush.ids
    rw [htodo, hsaves, hdoomed]
  | save hsaving hmem =>
    rename_i agent ok saves evicted connected
    have hsub : ((saves.erase agent).map Agent.instanceUID).Sublist
        (saves.map Agent.instanceUID) := List.erase_sublist.map _
    rw [hsaving]
    exact (hsub.append_right evicted).subperm
  | softDelete hdeleting hmem =>
    rename_i task now ok tasks connected
    have hmove : (task ++ (tasks.erase task).flatten).Perm tasks.flatten :=
      (flatten_erase_perm tasks task hmem).symm
    rw [hdeleting]
    exact (List.sublist_append_right task _).subperm.trans hmove.subperm
  | upsertConnections hupserting hmem =>
    rw [hupserting]
    exact List.Subperm.refl _
  | _ => exact List.Subperm.refl _

/-- The drained ids of a flush stay pairwise distinct. -/
theorem ids_nodup {R R' : Replica} {db db' : Database} {a : Act} (h : Step R db a R' db')
    (hnodup : R.flush.ids.Nodup) : R'.flush.ids.Nodup := by
  by_cases hdrain : ∃ ids, a = .drain ids
  · obtain ⟨ids, rfl⟩ := hdrain
    cases h with
    | drain hidle hids =>
      simpa only [Flush.ids, Flush.todo, Flush.saves, Flush.doomed, List.map_nil,
        List.append_nil] using hids.nodup
  · have hsub := ids_subperm h fun ids heq => hdrain ⟨ids, heq⟩
    obtain ⟨l, hperm, hsublist⟩ := hsub
    exact hperm.nodup_iff.mp (hnodup.sublist hsublist)

/-- An agent becomes doomed only by a lookup that misses. -/
theorem doomed_step {R R' : Replica} {db db' : Database} {a : Act} (h : Step R db a R' db')
    (id : String) (hid : id ∈ R'.flush.doomed) :
    id ∈ R.flush.doomed ∨ (R.registry.get id = none ∧ R'.registry = R.registry) := by
  cases h with
  | drain hidle hids => simp [Flush.doomed] at hid
  | get hreading hfree =>
    rename_i j todo saves evicted connected
    rw [hreading]
    cases hslot : R.registry.get j with
    | none =>
      simp only [hslot, Flush.looked, Flush.doomed, List.mem_append, List.mem_singleton] at hid
      rcases hid with hold | rfl
      · exact Or.inl hold
      · exact Or.inr ⟨hslot, rfl⟩
    | some b =>
      simp only [hslot, Flush.looked, Flush.doomed] at hid
      exact Or.inl hid
  | advance hnext =>
    obtain ⟨_, _, hdoomed⟩ := Flush.next_same hnext
    exact Or.inl (hdoomed ▸ hid)
  | save hsaving hmem =>
    rw [hsaving]
    exact Or.inl hid
  | softDelete hdeleting hmem =>
    rw [hdeleting]
    exact Or.inl (flatten_erase_subset _ _ hid)
  | upsertConnections hupserting hmem => simp [Flush.doomed] at hid
  | _ => exact Or.inl hid

theorem softDelete_step {R R' : Replica} {db db' : Database} {task : List String} {now : ℤ}
    {ok : Bool} (h : Step R db (.softDelete task now ok) R' db') :
    task ⊆ R.flush.doomed ∧ R'.registry = R.registry ∧
      db' = if ok then softDeleteAgents db task now else db := by
  cases h with
  | softDelete hdeleting hmem =>
    rw [hdeleting]
    exact ⟨fun id hid => List.mem_flatten_of_mem hmem hid, rfl, rfl⟩

theorem save_step {R R' : Replica} {db db' : Database} {agent : Agent} {ok : Bool}
    (h : Step R db (.save agent ok) R' db') :
    agent ∈ R.flush.saves ∧ R'.registry = R.registry ∧
      db' = if ok then saveAgent db agent else db := by
  cases h with
  | save hsaving hmem =>
    rw [hsaving]
    exact ⟨hmem, rfl, rfl⟩

/-- A snapshot waiting to be saved is not of a doomed agent. -/
theorem ne_of_saves_of_doomed {f : Flush} (hnodup : f.ids.Nodup) {agent : Agent} {id : String}
    (hagent : agent ∈ f.saves) (hid : id ∈ f.doomed) : agent.instanceUID ≠ id := by
  unfold Flush.ids at hnodup
  have hdisjoint := (List.nodup_append.mp hnodup).2.2
  exact hdisjoint _ (List.mem_append_right _ (List.mem_map_of_mem hagent)) _ hid

/-- The snapshots a session pass has taken and not written yet. -/
def Snapshot.agents : Snapshot → List Agent
  | .idle => []
  | .listing _ agents => agents
  | .writing tasks => tasks.flatten

/-- The registry changes only by the stages run under a shard lock. -/
theorem registry_step {R R' : Replica} {db db' : Database} {a : Act} (h : Step R db a R' db') :
    R'.registry = R.registry ∨ ∃ shard op id, ∃ st : Stage id, ∃ rest,
      R.locks.find shard = some ⟨op, ⟨id, st⟩ :: rest, []⟩ ∧ R'.registry = (R.registry.exec st).1 := by
  cases h with
  | exec hheld => exact Or.inr ⟨_, _, _, _, _, hheld, rfl⟩
  | _ => exact Or.inl rfl

/-- A lock section is new, or what remains of the one before. -/
theorem locks_step {R R' : Replica} {db db' : Database} {a : Act} (h : Step R db a R' db')
    (shard : ℕ) (sec' : Section) (hsec : R'.locks.find shard = some sec') :
    (∃ sec, R.locks.find shard = some sec ∧ sec'.op = sec.op ∧ sec'.rest ⊆ sec.rest) ∨
      ∃ op work, a = .lock op ∧ op.plan R.registry = some (shard, work) ∧ sec' = ⟨op, work, []⟩ := by
  have hkeep : R.locks.find shard = some sec' →
      ∃ sec, R.locks.find shard = some sec ∧ sec'.op = sec.op ∧ sec'.rest ⊆ sec.rest :=
    fun hold => ⟨sec', hold, rfl, List.Subset.refl _⟩
  cases h with
  | lock hplan hfree =>
    rename_i op i work
    by_cases hi : shard = i
    · subst hi
      simp only [holds, FinMap.find_set_self, Option.some.injEq] at hsec
      exact Or.inr ⟨op, work, rfl, hplan, hsec.symm⟩
    · simp only [holds, FinMap.find_set_of_ne _ _ hi] at hsec
      exact Or.inl (hkeep hsec)
  | exec hheld =>
    rename_i i op id st rest
    by_cases hi : shard = i
    · subst hi
      simp only [holds, FinMap.find_set_self, Option.some.injEq] at hsec
      subst hsec
      exact Or.inl ⟨_, hheld, rfl, List.subset_cons_self _ _⟩
    · simp only [holds, FinMap.find_set_of_ne _ _ hi] at hsec
      exact Or.inl (hkeep hsec)
  | fire hheld =>
    rename_i i op rest e pending
    by_cases hi : shard = i
    · subst hi
      simp only [holds, FinMap.find_set_self, Option.some.injEq] at hsec
      subst hsec
      exact Or.inl ⟨_, hheld, rfl, List.Subset.refl _⟩
    · simp only [holds, FinMap.find_set_of_ne _ _ hi] at hsec
      exact Or.inl (hkeep hsec)
  | unlock hheld =>
    rename_i i op
    by_cases hi : shard = i
    · subst hi
      simp [holds] at hsec
    · simp only [holds, FinMap.find_set_of_ne _ _ hi] at hsec
      exact Or.inl (hkeep hsec)
  | _ => exact Or.inl (hkeep hsec)

/-! ### Tables -/

theorem tables_upsertConnectionsOf (R : Replica) (task : List String) (now : ℤ) (db : Database) :
    (R.upsertConnectionsOf task now db).agents = db.agents ∧
      (R.upsertConnectionsOf task now db).sessions = db.sessions ∧
      (R.upsertConnectionsOf task now db).configs = db.configs := by
  unfold upsertConnectionsOf
  induction task generalizing db with
  | nil => exact ⟨rfl, rfl, rfl⟩
  | cons id task ih => exact ih _

/-- What a step can do to the tables. Rows of `agent_connections` are left out. -/
inductive Writes (R : Replica) (db : Database) : Act → Database → Prop
  | nothing {a : Act} {db' : Database} (hagents : db'.agents = db.agents)
      (hsessions : db'.sessions = db.sessions) (hconfigs : db'.configs = db.configs) :
      Writes R db a db'
  | save {agent : Agent} (hmem : agent ∈ R.flush.saves) :
      Writes R db (.save agent true) (saveAgent db agent)
  | softDelete {task : List String} {now : ℤ} :
      Writes R db (.softDelete task now true) (softDeleteAgents db task now)
  | saveSessions {task : List Agent} {fails : Agent → Bool} (hsub : task ⊆ R.snapshot.agents) :
      Writes R db (.saveSessions task fails)
        (Snapshotter.writeTask fails ⟨db, R.snapshotter, [], []⟩ task).db
  | purge {before : ℤ} : Writes R db (.purge before) (Tables.purge db before)

theorem writes_of_step {R R' : Replica} {db db' : Database} {a : Act}
    (h : Step R db a R' db') : Writes R db a db' := by
  cases h with
  | save hsaving hmem =>
    rename_i agent ok saves evicted connected
    cases ok with
    | false => exact .nothing rfl rfl rfl
    | true =>
      refine .save ?_
      rw [hsaving]
      exact hmem
  | softDelete hdeleting hmem =>
    rename_i task now ok tasks connected
    cases ok with
    | false => exact .nothing rfl rfl rfl
    | true => exact .softDelete
  | upsertConnections hupserting hmem =>
    rename_i task now ok tasks
    cases ok with
    | false => exact .nothing rfl rfl rfl
    | true =>
      obtain ⟨hagents, hsessions, hconfigs⟩ := tables_upsertConnectionsOf R task now db
      exact .nothing hagents hsessions hconfigs
  | saveSessions hwriting hmem =>
    refine .saveSessions fun b hb => ?_
    rw [hwriting]
    exact List.mem_flatten_of_mem hmem hb
  | purge => exact .purge
  | _ => exact .nothing rfl rfl rfl

/-- Only a soft-delete evicts a live row. -/
theorem live_step {R R' : Replica} {db db' : Database} {a : Act} (h : Step R db a R' db')
    (id : String) (row : AgentRow) (hrow : db.agents.find id = some row)
    (hlive : row.evictedAt = none) :
    (∃ row', db'.agents.find id = some row' ∧ row'.evictedAt = none) ∨
      ∃ task now, a = .softDelete task now true ∧ id ∈ task := by
  cases writes_of_step h with
  | nothing hagents hsessions hconfigs => exact Or.inl ⟨row, hagents ▸ hrow, hlive⟩
  | save hmem =>
    rename_i agent
    rw [agents_saveAgent]
    by_cases heq : id = agent.instanceUID
    · subst heq
      rw [FinMap.find_set_self, hrow]
      exact Or.inl ⟨_, rfl, (evictedAt_upsertAgentRow row agent).trans hlive⟩
    · rw [FinMap.find_set_of_ne _ _ heq]
      exact Or.inl ⟨row, hrow, hlive⟩
  | softDelete =>
    rename_i task now
    by_cases hid : id ∈ task
    · exact Or.inr ⟨task, now, rfl, hid⟩
    · refine Or.inl ⟨row, ?_, hlive⟩
      rw [find_agents_softDeleteAgents, if_neg hid]
      exact hrow
  | saveSessions hsub =>
    refine Or.inl ⟨row, ?_, hlive⟩
    rw [(Snapshotter.tables_writeTask _ _ _).1]
    exact hrow
  | purge =>
    rename_i before
    have hkept : evictedBefore before row = false := by simp [evictedBefore, hlive]
    exact Or.inl ⟨row, (find_deleteWhere_of_kept db _ id row hrow hkept).1, hlive⟩

/-- The event times of an agent's rows never move back while the rows exist. -/
theorem stamps_step {R R' : Replica} {db db' : Database} {a : Act} (h : Step R db a R' db')
    (id : String) (row : AgentRow) (session : SessionRow) (hrow : db.agents.find id = some row)
    (hsession : db.sessions.find id = some session) :
    (db'.agents.find id = none ∧ ∃ before, a = .purge before ∧ evictedBefore before row = true) ∨
      ∃ row' session', db'.agents.find id = some row' ∧ db'.sessions.find id = some session' ∧
        row.updatedAt ≤ row'.updatedAt ∧ session.updatedAt ≤ session'.updatedAt := by
  cases writes_of_step h with
  | nothing hagents hsessions hconfigs =>
    exact Or.inr ⟨row, session, hagents ▸ hrow, hsessions ▸ hsession, le_refl _, le_refl _⟩
  | save hmem =>
    rename_i agent
    rw [agents_saveAgent, sessions_saveAgent]
    by_cases heq : id = agent.instanceUID
    · subst heq
      rw [FinMap.find_set_self, FinMap.find_set_self, hrow, hsession]
      exact Or.inr ⟨_, _, rfl, rfl, updatedAt_le_upsertAgentRow row agent,
        updatedAt_le_upsertSessionRow session agent⟩
    · rw [FinMap.find_set_of_ne _ _ heq, FinMap.find_set_of_ne _ _ heq]
      exact Or.inr ⟨row, session, hrow, hsession, le_refl _, le_refl _⟩
  | softDelete =>
    rename_i task now
    have hrow' : (softDeleteAgents db task now).agents.find id =
        some (if id ∈ task then softDeletedRow now row else row) := by
      rw [find_agents_softDeleteAgents, hrow]
      split <;> rfl
    refine Or.inr ⟨_, session, hrow', ?_, ?_, le_refl _⟩
    · rw [(tables_softDeleteAgents db task now).1]
      exact hsession
    · split
      · rw [updatedAt_softDeletedRow]
      · exact le_refl _
  | saveSessions hsub =>
    rename_i task fails
    obtain ⟨session', hsession', hle⟩ := Snapshotter.session_writeTask_mono fails
      ⟨db, R.snapshotter, [], []⟩ task id session hsession
    refine Or.inr ⟨row, session', ?_, hsession', le_refl _, hle⟩
    rw [(Snapshotter.tables_writeTask _ _ _).1]
    exact hrow
  | purge =>
    rename_i before
    cases hchosen : evictedBefore before row with
    | true =>
      refine Or.inl ⟨?_, before, rfl, hchosen⟩
      change (deleteWhere db _).agents.find id = none
      rw [find_agents_deleteWhere, hrow]
      simp [hchosen]
    | false =>
      obtain ⟨hrow', hsession', _⟩ := find_deleteWhere_of_kept db
        (fun _ row => evictedBefore before row) id row hrow hchosen
      exact Or.inr ⟨row, session, hrow', hsession'.trans hsession, le_refl _, le_refl _⟩

/-- Every agents row keeps a session row. -/
theorem complete_step {R R' : Replica} {db db' : Database} {a : Act} (h : Step R db a R' db')
    (hdb : Reads.Complete db) : Reads.Complete db' := by
  cases writes_of_step h with
  | nothing hagents hsessions hconfigs =>
    intro id hid
    rw [hagents] at hid
    rw [hsessions]
    exact hdb id hid
  | save hmem => exact Reads.complete_saveAgent hdb _
  | softDelete => exact Reads.complete_softDeleteAgents hdb _ _
  | saveSessions hsub =>
    obtain ⟨hagents, _, hsessions⟩ := Snapshotter.tables_writeTask _ ⟨db, R.snapshotter, [], []⟩ _
    intro id hid
    rw [hagents] at hid
    exact hsessions (hdb id hid)
  | purge => exact Reads.complete_purge hdb _

/-! ### Short runs of one or two agents -/

/-- What a heartbeat leaves of an agent first seen at the given time. -/
def heardAt (first now : ℤ) : Agent := touched now heartbeat {} (registered zeroUID first)

/-- A one-shard replica: 30 s heartbeats, eviction after three missed ones. -/
def small (replicaID : String) : Replica :=
  start { heartbeatInterval := 30000000000, staleMissedHeartbeats := 3, shardCount := 1 }
    10000000000 true replicaID ""

/-- A heartbeat of an agent that is not connected. -/
def heartbeatActs (now : ℤ) : List Act :=
  [.lock (.report now heartbeat {}), .exec 0, .exec 0, .fire 0, .exec 0, .unlock 0]

def secondHeardAt (first now : ℤ) : Agent :=
  touched now secondHeartbeat {} (registered secondUID first)

/-- A heartbeat of the second agent, whose uid hashes to the given shard. -/
def secondHeartbeatActs (shard : ℕ) (now : ℤ) : List Act :=
  [.lock (.report now secondHeartbeat {}), .exec shard, .exec shard, .fire shard, .exec shard,
    .unlock shard]

/-- A sweep that finds a connected agent past both thresholds. -/
def evictActs (now : ℤ) : List Act :=
  [.lock (.sweepShard 0 now [zeroUID]), .exec 0, .fire 0, .exec 0, .fire 0, .unlock 0]

/-- A flush that saves one connected agent. -/
def saveActs (a : Agent) (ok : Bool) : List Act :=
  [.drain [zeroUID], .get, .advance, .save a ok, .advance, .advance,
    .upsertConnections [zeroUID] a.lastSeen true, .advance]

/-- A flush that soft-deletes one agent. -/
def softDeleteActs (now : ℤ) (ok : Bool) : List Act :=
  [.drain [zeroUID], .get, .advance, .advance, .softDelete [zeroUID] now ok, .advance, .advance]

end Grex.Replica
