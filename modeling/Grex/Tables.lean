import Grex.AgentState

/-!
The Postgres tables behind the registry and the statements that write them.
Timestamps are stored in microseconds and 64-bit masks bit for bit as signed
integers. Foreign keys are fields of the database, so a statement that would
break one has no result. The event time of every guarded write is the agent's
`lastSeen`.
-/

namespace Grex.Tables

open GoTime AgentState

structure AgentRow where
  firstSeen : ℤ
  lastSeen : ℤ
  healthy : Bool
  healthError : String
  healthStatus : String
  healthStartTime : Option ℤ
  healthStatusTime : Option ℤ
  healthReported : Bool
  capabilities : Int64
  identifying : FinMap String String
  nonIdentifying : FinMap String String
  missingAttributes : List String
  reservedAttributeConflicts : List String
  packages : FinMap String Package
  evictedAt : Option ℤ
  updatedAt : ℤ
  deriving DecidableEq

structure SessionRow where
  connected : Bool
  remoteAddr : String
  tlsSubject : String
  viaGateway : Bool
  transport : String
  descriptionReported : Bool
  sequenceNum : Int64
  updatedAt : ℤ
  deriving DecidableEq

structure ConfigRow where
  body : String
  updatedAt : ℤ
  deriving DecidableEq

structure ConnectionRow where
  replicaID : String
  replicaLabel : String
  connectedAt : ℤ
  lastSeen : ℤ
  deriving DecidableEq

/-- `agent_session` and `agent_effective_config` reference `agents`;
`agent_connections` references nothing. -/
structure Database where
  agents : FinMap String AgentRow
  sessions : FinMap String SessionRow
  configs : FinMap (String × String) ConfigRow
  connections : FinMap String ConnectionRow
  session_fk : ∀ id, id ∈ sessions.keys → id ∈ agents.keys
  config_fk : ∀ id file, (id, file) ∈ configs.keys → id ∈ agents.keys

def Database.empty : Database where
  agents := ∅
  sessions := ∅
  configs := ∅
  connections := ∅
  session_fk := by simp
  config_fk := by simp

/-- A zero time is bound as NULL. -/
def nullTime (t : ℤ) : Option ℤ := if t = zeroTime then none else some (micros t)

/-- The row an agent is inserted as; a new row is not evicted. -/
def agentRow (a : Agent) : AgentRow where
  firstSeen := micros a.firstSeen
  lastSeen := micros a.lastSeen
  healthy := a.healthy
  healthError := a.healthError
  healthStatus := a.healthStatus
  healthStartTime := nullTime a.healthStartTime
  healthStatusTime := nullTime a.healthStatusTime
  healthReported := a.healthReported
  capabilities := a.capabilities.toInt64
  identifying := a.identifying
  nonIdentifying := a.nonIdentifying
  missingAttributes := a.missingAttributes
  reservedAttributeConflicts := a.reservedAttributeConflicts
  packages := a.packages
  evictedAt := none
  updatedAt := micros a.lastSeen

def sessionRow (a : Agent) : SessionRow where
  connected := a.connected
  remoteAddr := a.conn.remoteAddr
  tlsSubject := a.conn.tlsSubject
  viaGateway := a.conn.viaGateway
  transport := a.conn.transport
  descriptionReported := a.descriptionReported
  sequenceNum := a.sequenceNum.toInt64
  updatedAt := micros a.lastSeen

/-- The agents upsert lands on a missing row or a strictly older one. -/
def agentsUpdated (old : Option AgentRow) (a : Agent) : Bool :=
  match old with
  | none => true
  | some row => decide (row.updatedAt < micros a.lastSeen)

/-- `first_seen` and `evicted_at` are absent from the update list. -/
def upsertAgentRow (old : Option AgentRow) (a : Agent) : AgentRow :=
  match old with
  | none => agentRow a
  | some row =>
      if row.updatedAt < micros a.lastSeen then
        { agentRow a with firstSeen := row.firstSeen, evictedAt := row.evictedAt }
      else row

/-- An update neither evicts a row nor brings it back. -/
@[simp] theorem evictedAt_upsertAgentRow (row : AgentRow) (a : Agent) :
    (upsertAgentRow (some row) a).evictedAt = row.evictedAt := by
  simp only [upsertAgentRow]
  split <;> rfl

/-- The session guard admits ties, so a disconnect at an unmoved event time
still lands. -/
def upsertSessionRow (old : Option SessionRow) (a : Agent) : SessionRow :=
  match old with
  | none => sessionRow a
  | some row => if row.updatedAt ≤ micros a.lastSeen then sessionRow a else row

theorem updatedAt_upsertAgentRow (row : AgentRow) (a : Agent) :
    (upsertAgentRow (some row) a).updatedAt = max row.updatedAt (micros a.lastSeen) := by
  simp only [upsertAgentRow]
  split
  · simp only [agentRow]
    omega
  · omega

theorem updatedAt_upsertSessionRow (row : SessionRow) (a : Agent) :
    (upsertSessionRow (some row) a).updatedAt = max row.updatedAt (micros a.lastSeen) := by
  simp only [upsertSessionRow]
  split
  · simp only [sessionRow]
    omega
  · omega

theorem updatedAt_le_upsertAgentRow (row : AgentRow) (a : Agent) :
    row.updatedAt ≤ (upsertAgentRow (some row) a).updatedAt := by
  rw [updatedAt_upsertAgentRow]
  omega

theorem updatedAt_le_upsertSessionRow (row : SessionRow) (a : Agent) :
    row.updatedAt ≤ (upsertSessionRow (some row) a).updatedAt := by
  rw [updatedAt_upsertSessionRow]
  omega

/-- An upsert into the sessions moves no event time back. -/
theorem exists_session_upsert {sessions : FinMap String SessionRow} {id : String}
    {row : SessionRow} (hrow : sessions.find id = some row) (a : Agent) :
    ∃ row', (sessions.insert a.instanceUID
        (upsertSessionRow (sessions.find a.instanceUID) a)).find id = some row' ∧
      row.updatedAt ≤ row'.updatedAt := by
  unfold FinMap.insert
  by_cases hid : id = a.instanceUID
  · subst hid
    rw [FinMap.find_set_self, hrow]
    exact ⟨_, rfl, updatedAt_le_upsertSessionRow row a⟩
  · rw [FinMap.find_set_of_ne _ _ hid]
    exact ⟨row, hrow, le_refl _⟩

/-- After an upsert the stored event time is at least that of the write. -/
theorem le_updatedAt_upsert (old : Option AgentRow) (session : Option SessionRow) (a : Agent) :
    micros a.lastSeen ≤ (upsertAgentRow old a).updatedAt ∧
      micros a.lastSeen ≤ (upsertSessionRow session a).updatedAt := by
  constructor
  · cases old with
    | none => exact le_refl _
    | some row =>
      rw [updatedAt_upsertAgentRow]
      omega
  · cases session with
    | none => exact le_refl _
    | some row =>
      rw [updatedAt_upsertSessionRow]
      omega

theorem upsertSessionRow_of_newer (row : SessionRow) (a : Agent)
    (h : row.updatedAt ≤ micros a.lastSeen) : upsertSessionRow (some row) a = sessionRow a := by
  simp [upsertSessionRow, h]

theorem upsertSessionRow_of_older (row : SessionRow) (a : Agent)
    (h : micros a.lastSeen < row.updatedAt) : upsertSessionRow (some row) a = row := by
  have hnot : ¬ row.updatedAt ≤ micros a.lastSeen := by omega
  simp [upsertSessionRow, hnot]

/-! ### Statements -/

def upsertAgents (db : Database) (a : Agent) : Database where
  agents := db.agents.insert a.instanceUID
    (upsertAgentRow (db.agents.find a.instanceUID) a)
  sessions := db.sessions
  configs := db.configs
  connections := db.connections
  session_fk id hid := by
    have hmem := db.session_fk id hid
    rw [FinMap.mem_keys] at hmem ⊢
    rw [FinMap.find_set]
    split
    · rfl
    · exact hmem
  config_fk id file hid := by
    have hmem := db.config_fk id file hid
    rw [FinMap.mem_keys] at hmem ⊢
    rw [FinMap.find_set]
    split
    · rfl
    · exact hmem

/-- The session upsert fails when the agents row is missing. -/
def saveSession (db : Database) (a : Agent) : Option Database :=
  if h : a.instanceUID ∈ db.agents.keys then
    some {
      agents := db.agents
      sessions := db.sessions.insert a.instanceUID
        (upsertSessionRow (db.sessions.find a.instanceUID) a)
      configs := db.configs
      connections := db.connections
      session_fk := by
        intro id hid
        rw [FinMap.mem_keys, FinMap.find_set] at hid
        split at hid
        · rename_i heq
          rw [heq]
          exact h
        · rw [← FinMap.mem_keys] at hid
          exact db.session_fk id hid
      config_fk := db.config_fk }
  else none

theorem saveSession_isSome (db : Database) (a : Agent) :
    (saveSession db a).isSome ↔ a.instanceUID ∈ db.agents.keys := by
  unfold saveSession
  split <;> simp_all

/-- A session write that succeeds touches one session row and nothing else. -/
theorem saveSession_eq_some {db db' : Database} {a : Agent} (h : saveSession db a = some db') :
    db'.agents = db.agents ∧
      db'.sessions = db.sessions.insert a.instanceUID
        (upsertSessionRow (db.sessions.find a.instanceUID) a) ∧
      db'.configs = db.configs ∧ db'.connections = db.connections := by
  unfold saveSession at h
  split at h
  · obtain rfl := Option.some.inj h
    exact ⟨rfl, rfl, rfl, rfl⟩
  · simp at h

/-- The config files one agent reports, as rows. -/
def configRow (a : Agent) (file : String) : Option ConfigRow :=
  (a.effectiveConfig.find file).map fun body => ⟨body, micros a.lastSeen⟩

/-- Delete every config row of the agent, then insert its current files. -/
def replaceConfig (db : Database) (a : Agent) : Option Database :=
  if h : a.instanceUID ∈ db.agents.keys then
    some {
      agents := db.agents
      sessions := db.sessions
      configs := {
        find := fun key =>
          if key.1 = a.instanceUID then configRow a key.2 else db.configs.find key
        keys := (db.configs.keys.filter fun key => key.1 ≠ a.instanceUID) ∪
          a.effectiveConfig.keys.image fun file => (a.instanceUID, file)
        mem_keys := by
          rintro ⟨id, file⟩
          simp only [Finset.mem_union, Finset.mem_filter, Finset.mem_image, Prod.mk.injEq,
            configRow]
          by_cases hid : id = a.instanceUID
          · subst hid
            simp [FinMap.mem_keys]
          · have hid' : ¬ a.instanceUID = id := fun heq => hid heq.symm
            simp [hid, hid', FinMap.mem_keys] }
      connections := db.connections
      session_fk := db.session_fk
      config_fk := by
        intro id file hkey
        simp only [Finset.mem_union, Finset.mem_filter, Finset.mem_image, Prod.mk.injEq] at hkey
        rcases hkey with ⟨hold, _⟩ | ⟨_, _, heq, _⟩
        · exact db.config_fk id file hold
        · rw [← heq]
          exact h }
  else none

/-- `SaveAgent`'s transaction when no statement is interrupted: upsert the
agents row, always attempt the session row, and replace the config files only
if the agents row moved. -/
def saveAgentTx (db : Database) (a : Agent) : Option Database :=
  (saveSession (upsertAgents db a) a).bind fun saved =>
    if agentsUpdated (db.agents.find a.instanceUID) a then replaceConfig saved a else some saved

theorem mem_agents_upsertAgents (db : Database) (a : Agent) :
    a.instanceUID ∈ (upsertAgents db a).agents.keys := by
  rw [FinMap.mem_keys]
  simp [upsertAgents]

/-- None of the transaction's own foreign keys can fail. -/
theorem saveAgentTx_isSome (db : Database) (a : Agent) : (saveAgentTx db a).isSome := by
  have hmem := mem_agents_upsertAgents db a
  unfold saveAgentTx saveSession
  rw [dif_pos hmem, Option.bind_some]
  split
  · unfold replaceConfig
    rw [dif_pos hmem]
    rfl
  · rfl

def saveAgent (db : Database) (a : Agent) : Database :=
  (saveAgentTx db a).get (saveAgentTx_isSome db a)

/-- What a save leaves of the tables, the config files apart. -/
theorem tables_saveAgent (db : Database) (a : Agent) :
    (saveAgent db a).agents = db.agents.insert a.instanceUID
        (upsertAgentRow (db.agents.find a.instanceUID) a) ∧
      (saveAgent db a).sessions = db.sessions.insert a.instanceUID
        (upsertSessionRow (db.sessions.find a.instanceUID) a) ∧
      (saveAgent db a).connections = db.connections := by
  have hmem := mem_agents_upsertAgents db a
  unfold saveAgent
  simp only [saveAgentTx, saveSession, dif_pos hmem, Option.bind_some]
  split
  · simp only [replaceConfig, dif_pos hmem]
    exact ⟨rfl, rfl, rfl⟩
  · exact ⟨rfl, rfl, rfl⟩

theorem agents_saveAgent (db : Database) (a : Agent) :
    (saveAgent db a).agents = db.agents.insert a.instanceUID
      (upsertAgentRow (db.agents.find a.instanceUID) a) :=
  (tables_saveAgent db a).1

theorem sessions_saveAgent (db : Database) (a : Agent) :
    (saveAgent db a).sessions = db.sessions.insert a.instanceUID
      (upsertSessionRow (db.sessions.find a.instanceUID) a) :=
  (tables_saveAgent db a).2.1

theorem find_configs_saveAgent (db : Database) (a : Agent) (id file : String) :
    (saveAgent db a).configs.find (id, file) =
      if id = a.instanceUID ∧ agentsUpdated (db.agents.find a.instanceUID) a then
        configRow a file
      else db.configs.find (id, file) := by
  have hmem := mem_agents_upsertAgents db a
  unfold saveAgent
  simp only [saveAgentTx, saveSession, dif_pos hmem, Option.bind_some]
  by_cases hupdated : agentsUpdated (db.agents.find a.instanceUID) a
  · simp only [hupdated, if_true, replaceConfig, dif_pos hmem, and_true]
    rfl
  · simp only [hupdated, Bool.false_eq_true, if_false, and_false]
    rfl

/-- `UPDATE agents SET evicted_at = $2 WHERE instance_uid = $1 AND evicted_at
IS NULL`, on one row. -/
def softDeletedRow (evictedAt : ℤ) (row : AgentRow) : AgentRow :=
  if row.evictedAt = none then { row with evictedAt := some (micros evictedAt) } else row

def softDeleteAgent (db : Database) (id : String) (evictedAt : ℤ) : Database where
  agents := db.agents.set id ((db.agents.find id).map (softDeletedRow evictedAt))
  sessions := db.sessions
  configs := db.configs
  connections := db.connections
  session_fk j hj := by
    have hmem := db.session_fk j hj
    rw [FinMap.mem_keys] at hmem ⊢
    rw [FinMap.find_set]
    split
    · rename_i heq
      subst heq
      simpa using hmem
    · exact hmem
  config_fk j file hj := by
    have hmem := db.config_fk j file hj
    rw [FinMap.mem_keys] at hmem ⊢
    rw [FinMap.find_set]
    split
    · rename_i heq
      subst heq
      simpa using hmem
    · exact hmem

theorem find_agents_softDeleteAgent (db : Database) (id j : String) (evictedAt : ℤ) :
    (softDeleteAgent db id evictedAt).agents.find j =
      if j = id then (db.agents.find id).map (softDeletedRow evictedAt) else db.agents.find j :=
  FinMap.find_set _ _ _ _

/-- Soft-delete statements on several agents with one eviction time. -/
def softDeleteAgents (db : Database) (ids : List String) (evictedAt : ℤ) : Database :=
  ids.foldl (fun db id => softDeleteAgent db id evictedAt) db

/-- A second soft-delete does not move the eviction time. -/
theorem updatedAt_softDeletedRow (evictedAt : ℤ) (row : AgentRow) :
    (softDeletedRow evictedAt row).updatedAt = row.updatedAt := by
  unfold softDeletedRow
  split <;> rfl

theorem softDeletedRow_idem (evictedAt : ℤ) (row : AgentRow) :
    softDeletedRow evictedAt (softDeletedRow evictedAt row) = softDeletedRow evictedAt row := by
  unfold softDeletedRow
  by_cases hlive : row.evictedAt = none
  · simp [hlive]
  · simp [hlive]

theorem find_agents_softDeleteAgents (db : Database) (ids : List String) (evictedAt : ℤ)
    (j : String) :
    (softDeleteAgents db ids evictedAt).agents.find j =
      if j ∈ ids then (db.agents.find j).map (softDeletedRow evictedAt) else db.agents.find j := by
  induction ids generalizing db with
  | nil => rfl
  | cons id ids ih =>
    change (softDeleteAgents (softDeleteAgent db id evictedAt) ids evictedAt).agents.find j = _
    rw [ih, find_agents_softDeleteAgent]
    by_cases hj : j = id
    · subst hj
      have htwice : ((db.agents.find j).map (softDeletedRow evictedAt)).map
          (softDeletedRow evictedAt) = (db.agents.find j).map (softDeletedRow evictedAt) := by
        rw [Option.map_map]
        exact congrArg (Option.map · (db.agents.find j)) (funext (softDeletedRow_idem evictedAt))
      simp [htwice]
    · simp [hj]

/-- Soft-deletes write the agents table only. -/
theorem tables_softDeleteAgents (db : Database) (ids : List String) (evictedAt : ℤ) :
    (softDeleteAgents db ids evictedAt).sessions = db.sessions ∧
      (softDeleteAgents db ids evictedAt).configs = db.configs ∧
      (softDeleteAgents db ids evictedAt).connections = db.connections := by
  induction ids generalizing db with
  | nil => exact ⟨rfl, rfl, rfl⟩
  | cons id ids ih => exact ih (softDeleteAgent db id evictedAt)

/-- Delete the chosen agents rows; the referencing rows cascade. -/
def deleteWhere (db : Database) (chosen : String → AgentRow → Bool) : Database where
  agents := db.agents.filterMap fun id row => if chosen id row then none else some row
  sessions := db.sessions.filterMap fun id row =>
    if (db.agents.find id).all (chosen id) then none else some row
  configs := db.configs.filterMap fun key row =>
    if (db.agents.find key.1).all (chosen key.1) then none else some row
  connections := db.connections
  session_fk id hid := by
    rw [FinMap.mem_keys, FinMap.find_filterMap] at hid ⊢
    obtain ⟨row, hrow⟩ := Option.isSome_iff_exists.mp hid
    obtain ⟨session, _, hkept⟩ := Option.bind_eq_some_iff.mp hrow
    cases hagent : db.agents.find id with
    | none => simp [hagent] at hkept
    | some agent =>
      cases hchosen : chosen id agent <;> simp [hagent, hchosen] at hkept ⊢
  config_fk id file hid := by
    rw [FinMap.mem_keys, FinMap.find_filterMap] at hid ⊢
    obtain ⟨row, hrow⟩ := Option.isSome_iff_exists.mp hid
    obtain ⟨config, _, hkept⟩ := Option.bind_eq_some_iff.mp hrow
    cases hagent : db.agents.find id with
    | none => simp [hagent] at hkept
    | some agent =>
      cases hchosen : chosen id agent <;> simp [hagent, hchosen] at hkept ⊢

/-- `evicted_at IS NOT NULL AND evicted_at < $1`. -/
def evictedBefore (before : ℤ) (row : AgentRow) : Bool :=
  match row.evictedAt with
  | none => false
  | some t => decide (t < micros before)

/-- The periodic purge job's statement. -/
def purge (db : Database) (before : ℤ) : Database :=
  deleteWhere db fun _ row => evictedBefore before row

def deleteAgent (db : Database) (id : String) : Database :=
  deleteWhere db fun j _ => decide (j = id)

theorem find_agents_deleteWhere (db : Database) (chosen : String → AgentRow → Bool) (id : String) :
    (deleteWhere db chosen).agents.find id =
      (db.agents.find id).bind fun row => if chosen id row then none else some row := rfl

/-- A row the deletion does not choose keeps its session and config rows. -/
theorem find_deleteWhere_of_kept (db : Database) (chosen : String → AgentRow → Bool)
    (id : String) (row : AgentRow) (hrow : db.agents.find id = some row)
    (hkept : chosen id row = false) :
    (deleteWhere db chosen).agents.find id = some row ∧
      (deleteWhere db chosen).sessions.find id = db.sessions.find id ∧
      ∀ file, (deleteWhere db chosen).configs.find (id, file) = db.configs.find (id, file) := by
  refine ⟨?_, ?_, fun file => ?_⟩
  · rw [find_agents_deleteWhere, hrow]
    simp [hkept]
  · simp only [deleteWhere, FinMap.find_filterMap, hrow, Option.all_some, hkept]
    cases db.sessions.find id <;> rfl
  · simp only [deleteWhere, FinMap.find_filterMap, hrow, Option.all_some, hkept]
    cases db.configs.find (id, file) <;> rfl

structure AgentConnection where
  instanceUID : String
  replicaID : String
  replicaLabel : String
  connectedAt : ℤ
  lastSeen : ℤ

/-- The upsert takes the row over unconditionally; `connected_at` moves only
when the owner changes. -/
def upsertConnectionRow (old : Option ConnectionRow) (conn : AgentConnection) : ConnectionRow where
  replicaID := conn.replicaID
  replicaLabel := conn.replicaLabel
  connectedAt :=
    match old with
    | none => micros conn.connectedAt
    | some row =>
        if row.replicaID = conn.replicaID then row.connectedAt else micros conn.connectedAt
  lastSeen := micros conn.lastSeen

def upsertAgentConnection (db : Database) (conn : AgentConnection) : Database :=
  { db with
    connections := db.connections.insert conn.instanceUID
      (upsertConnectionRow (db.connections.find conn.instanceUID) conn) }

end Grex.Tables
