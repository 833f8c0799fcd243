import Grex.Statements

/-!
The statements write and read the rows of the typed tables. Every table of values that
stands for typed rows goes over to one that stands for the rows after the typed write,
and a query returns the agents the typed read finds, nil for the maps without entries.
-/

namespace Grex.Statements

open GoTime AgentState Sql

/-! ### Rows as values -/

def nullableTime (t : Option ℤ) : Value := (t.map Value.timestamptz).getD .null

def textObject (m : FinMap String String) : FinMap String Json := m.filterMap fun _ s => some (.text s)

def packageObject (m : FinMap String Package) : FinMap String Json :=
  m.filterMap fun _ p => some (.object (marshalPackage p))

def agentValues (id : String) (row : Tables.AgentRow) : Row AgentColumn
  | .instanceUID => .text id
  | .firstSeen => .timestamptz row.firstSeen
  | .lastSeen => .timestamptz row.lastSeen
  | .healthy => .bool row.healthy
  | .healthError => .text row.healthError
  | .healthStatus => .text row.healthStatus
  | .healthStartTime => nullableTime row.healthStartTime
  | .healthStatusTime => nullableTime row.healthStatusTime
  | .healthReported => .bool row.healthReported
  | .capabilities => .bigint row.capabilities
  | .identifying => .jsonb (textObject row.identifying)
  | .nonIdentifying => .jsonb (textObject row.nonIdentifying)
  | .missingAttributes => .textArray row.missingAttributes
  | .reservedAttributeConflicts => .textArray row.reservedAttributeConflicts
  | .evictedAt => nullableTime row.evictedAt
  | .packages => .jsonb (packageObject row.packages)
  | .updatedAt => .timestamptz row.updatedAt

def sessionValues (id : String) (row : Tables.SessionRow) : Row SessionColumn
  | .instanceUID => .text id
  | .connected => .bool row.connected
  | .remoteAddr => .text row.remoteAddr
  | .tlsSubject => .text row.tlsSubject
  | .viaGateway => .bool row.viaGateway
  | .transport => .text row.transport
  | .descriptionReported => .bool row.descriptionReported
  | .sequenceNum => .bigint row.sequenceNum
  | .updatedAt => .timestamptz row.updatedAt

def configValues (key : String × String) (row : Tables.ConfigRow) : Row ConfigColumn
  | .instanceUID => .text key.1
  | .filename => .text key.2
  | .body => .text row.body
  | .updatedAt => .timestamptz row.updatedAt

/-- The tables as the statements see them. -/
def encode (db : Tables.Database) : Store where
  agents := db.agents.filterMap fun id row => some (agentValues id row)
  sessions := db.sessions.filterMap fun id row => some (sessionValues id row)
  configs := db.configs.filterMap fun key row => some (configValues key row)

section Encode

variable (db : Tables.Database) (id : String)

theorem find_agents_encode : (encode db).agents.find id = (db.agents.find id).map (agentValues id) := by
  unfold encode
  rw [FinMap.find_filterMap]
  cases db.agents.find id <;> rfl

theorem find_sessions_encode :
    (encode db).sessions.find id = (db.sessions.find id).map (sessionValues id) := by
  unfold encode
  rw [FinMap.find_filterMap]
  cases db.sessions.find id <;> rfl

theorem find_configs_encode (key : String × String) :
    (encode db).configs.find key = (db.configs.find key).map (configValues key) := by
  unfold encode
  rw [FinMap.find_filterMap]
  cases db.configs.find key <;> rfl

theorem mem_agents_encode : id ∈ (encode db).agents.keys ↔ id ∈ db.agents.keys := by
  rw [FinMap.mem_keys, FinMap.mem_keys, find_agents_encode, Option.isSome_map]

end Encode

/-- Tables with the same rows are the same. -/
theorem store_ext {s s' : Store} (hagents : ∀ id, s.agents.find id = s'.agents.find id)
    (hsessions : ∀ id, s.sessions.find id = s'.sessions.find id)
    (hconfigs : ∀ key, s.configs.find key = s'.configs.find key) : s = s' := by
  obtain ⟨agents, sessions, configs⟩ := s
  obtain ⟨agents', sessions', configs'⟩ := s'
  obtain rfl : agents = agents' := FinMap.ext hagents
  obtain rfl : sessions = sessions' := FinMap.ext hsessions
  obtain rfl : configs = configs' := FinMap.ext hconfigs
  rfl

/-! ### Arguments -/

theorem nullTime_eq (t : ℤ) : nullTime t = nullableTime (Tables.nullTime t) := by
  unfold nullTime Tables.nullTime nullableTime timeValue
  split_ifs <;> rfl

theorem boundRow_agentArgs (a : AgentValue) : boundRow agentColumns (agentArgs a) =
    agentValues a.instanceUID (Tables.agentRow a.toAgent) := by
  funext c
  cases c with
  | healthStartTime => exact nullTime_eq a.healthStartTime
  | healthStatusTime => exact nullTime_eq a.healthStatusTime
  | _ => rfl

theorem boundRow_sessionArgs (a : AgentValue) : boundRow sessionColumns (sessionArgs a) =
    sessionValues a.instanceUID (Tables.sessionRow a.toAgent) := by
  funext c
  cases c <;> rfl

theorem boundRow_configArgs (a : AgentValue) (file body : String) :
    boundRow configColumns (configArgs a file body) =
      configValues (a.instanceUID, file) ⟨body, micros a.lastSeen⟩ := by
  funext c
  cases c <;> rfl

/-- Every row has the types of its table. -/
theorem admits_agentValues (id : String) (row : Tables.AgentRow) :
    agentsSchema.admits (agentValues id row) := by
  have hnullable : ∀ t : Option ℤ, ((nullableTime t).type == some .timestamptz ||
      true && nullableTime t == .null) = true := by
    intro t
    cases t <;> rfl
  apply List.all_eq_true.mpr
  intro c _
  cases c with
  | healthStartTime => exact hnullable row.healthStartTime
  | healthStatusTime => exact hnullable row.healthStatusTime
  | evictedAt => exact hnullable row.evictedAt
  | _ => rfl

theorem admits_sessionValues (id : String) (row : Tables.SessionRow) :
    sessionSchema.admits (sessionValues id row) := rfl

theorem admits_configValues (key : String × String) (row : Tables.ConfigRow) :
    configSchema.admits (configValues key row) := rfl

/-! ### Writes -/

theorem upsertRow_agentValues (old : Option Tables.AgentRow) (a : AgentValue) :
    upsertRow (old.map (agentValues a.instanceUID))
        (agentValues a.instanceUID (Tables.agentRow a.toAgent)) agentUpdates
        (fun row excluded => (row .updatedAt).before (excluded .updatedAt)) =
      agentValues a.instanceUID (Tables.upsertAgentRow old a.toAgent) := by
  cases old with
  | none => rfl
  | some row =>
    have hguard : ((agentValues a.instanceUID row .updatedAt).before
        (agentValues a.instanceUID (Tables.agentRow a.toAgent) .updatedAt) = true) ↔
        row.updatedAt < micros a.toAgent.lastSeen := decide_eq_true_iff
    simp only [upsertRow, Option.map_some, Tables.upsertAgentRow, hguard]
    split_ifs
    · funext c
      cases c <;> rfl
    · rfl

theorem upsertRow_sessionValues (old : Option Tables.SessionRow) (a : AgentValue) :
    upsertRow (old.map (sessionValues a.instanceUID))
        (sessionValues a.instanceUID (Tables.sessionRow a.toAgent)) sessionUpdates
        (fun row excluded => (row .updatedAt).notAfter (excluded .updatedAt)) =
      sessionValues a.instanceUID (Tables.upsertSessionRow old a.toAgent) := by
  cases old with
  | none => rfl
  | some row =>
    have hguard : ((sessionValues a.instanceUID row .updatedAt).notAfter
        (sessionValues a.instanceUID (Tables.sessionRow a.toAgent) .updatedAt) = true) ↔
        row.updatedAt ≤ micros a.toAgent.lastSeen := decide_eq_true_iff
    simp only [upsertRow, Option.map_some, Tables.upsertSessionRow, hguard]
    split_ifs
    · funext c
      cases c <;> rfl
    · rfl

section Writes

variable {db : Tables.Database} {a : AgentValue}

/-- One row of a table overwritten, as values. -/
theorem find_insert_values {ρ κ : Type} (table : FinMap String ρ) (values : String → ρ → Row κ)
    (id : String) (row : ρ) (j : String) :
    ((table.filterMap fun id row => some (values id row)).insert id (values id row)).find j =
      ((table.insert id row).filterMap fun id row => some (values id row)).find j := by
  rw [FinMap.find_filterMap, FinMap.find_set, FinMap.find_set, FinMap.find_filterMap]
  split_ifs with hj
  · rw [hj]
    rfl
  · rfl

/-- The agents upsert, where the database takes its arguments. -/
theorem upsertAgents_encode {saved : Store × Bool} (h : upsertAgents (encode db) a = some saved) :
    saved = (encode (Tables.upsertAgents db a.toAgent),
      Tables.agentsUpdated (db.agents.find a.instanceUID) a.toAgent) := by
  unfold upsertAgents at h
  obtain ⟨row, hrow, rfl⟩ := Option.map_eq_some_iff.mp h
  obtain rfl := insertRow_eq_some hrow
  rw [boundRow_agentArgs, upsert_eq, find_agents_encode, upsertRow_agentValues]
  refine Prod.ext (store_ext (fun id => ?_) (fun _ => rfl) fun _ => rfl) ?_
  · exact find_insert_values db.agents agentValues a.instanceUID _ id
  · cases db.agents.find a.instanceUID <;> rfl

theorem saveSession_encode {saved : Store} (h : saveSession (encode db) a = some saved) :
    ∃ db', Tables.saveSession db a.toAgent = some db' ∧ saved = encode db' := by
  unfold saveSession at h
  obtain ⟨row, hrow, hsaved⟩ := Option.bind_eq_some_iff.mp h
  obtain rfl := insertRow_eq_some hrow
  rw [boundRow_sessionArgs, upsert_eq, find_sessions_encode, upsertRow_sessionValues] at hsaved
  split_ifs at hsaved with hmem
  rw [mem_agents_encode] at hmem
  obtain rfl := Option.some.inj hsaved
  refine ⟨_, dif_pos hmem, store_ext (fun _ => rfl) (fun id => ?_) fun _ => rfl⟩
  exact find_insert_values db.sessions sessionValues a.instanceUID _ id

/-- The config row of one file of an agent. -/
def configOf (a : AgentValue) (file : String) : Option (Row ConfigColumn) :=
  (Tables.configRow a.toAgent file).map (configValues (a.instanceUID, file))

theorem filesInOrder_cons (file : String) (order : List String) :
    filesInOrder a (file :: order) =
      ((a.effectiveConfig.getD ∅).find file).toList.map (fun body => (file, body)) ++
        filesInOrder a order := by
  unfold filesInOrder
  rw [List.filterMap_cons]
  cases (a.effectiveConfig.getD ∅).find file <;> rfl

theorem configOf_eq (file : String) : configOf a file =
    ((a.effectiveConfig.getD ∅).find file).map fun body =>
      configValues (a.instanceUID, file) ⟨body, micros a.lastSeen⟩ := by
  unfold configOf Tables.configRow
  rw [Option.map_map]
  rfl

theorem insertConfig_eq_some {s s' : Store} {file body : String}
    (h : insertConfig a s (file, body) = some s') :
    s' = { s with
      configs := s.configs.insert (a.instanceUID, file)
        (configValues (a.instanceUID, file) ⟨body, micros a.lastSeen⟩) } := by
  unfold insertConfig at h
  obtain ⟨row, hrow, hsaved⟩ := Option.bind_eq_some_iff.mp h
  obtain rfl := insertRow_eq_some hrow
  rw [boundRow_configArgs] at hsaved
  split_ifs at hsaved
  exact (Option.some.inj hsaved).symm

/-- Inserting files, one at a time. -/
theorem foldlM_insertConfig {order : List String} {s s' : Store}
    (h : (filesInOrder a order).foldlM (insertConfig a) s = some s') :
    s'.agents = s.agents ∧ s'.sessions = s.sessions ∧ ∀ id file, s'.configs.find (id, file) =
      if id = a.instanceUID ∧ file ∈ order ∧ (configOf a file).isSome then configOf a file
      else s.configs.find (id, file) := by
  induction order generalizing s with
  | nil =>
    obtain rfl := Option.some.inj h
    simp
  | cons head order ih =>
    rw [filesInOrder_cons] at h
    cases hbody : (a.effectiveConfig.getD ∅).find head with
    | none =>
      rw [hbody] at h
      have hnone : configOf a head = none := by rw [configOf_eq, hbody, Option.map_none]
      obtain ⟨hagents, hsessions, hconfigs⟩ := ih h
      refine ⟨hagents, hsessions, fun id file => ?_⟩
      rw [hconfigs]
      by_cases hfile : file = head
      · simp [hfile, hnone]
      · simp [hfile]
    | some body =>
      rw [hbody, Option.toList_some, List.map_singleton, List.singleton_append, List.foldlM_cons] at h
      obtain ⟨s₁, hinsert, hrest⟩ := Option.bind_eq_some_iff.mp h
      obtain rfl := insertConfig_eq_some hinsert
      obtain ⟨hagents, hsessions, hconfigs⟩ := ih hrest
      have hsome : configOf a head =
          some (configValues (a.instanceUID, head) ⟨body, micros a.lastSeen⟩) := by
        rw [configOf_eq, hbody, Option.map_some]
      refine ⟨hagents, hsessions, fun id file => ?_⟩
      rw [hconfigs, FinMap.find_set]
      by_cases hid : id = a.instanceUID
      · by_cases hfile : file = head
        · simp [hid, hfile, hsome]
        · simp [hid, hfile]
      · simp [hid]

theorem find_clearConfig (s : Store) (uid id file : String) :
    (clearConfig s uid).configs.find (id, file) =
      if id = uid then none else s.configs.find (id, file) := by
  unfold clearConfig
  rw [FinMap.find_filterMap]
  split_ifs with hid
  · cases s.configs.find (id, file) <;> rfl
  · cases s.configs.find (id, file) <;> rfl

/-- What the three tables hold after a save. -/
theorem eq_encode_saveAgent {s : Store} {db₁ : Tables.Database}
    (hsaved : Tables.saveSession (Tables.upsertAgents db a.toAgent) a.toAgent = some db₁)
    (hagents : s.agents = (encode db₁).agents) (hsessions : s.sessions = (encode db₁).sessions)
    (hfiles : ∀ id file, s.configs.find (id, file) = if id = a.instanceUID ∧
        Tables.agentsUpdated (db.agents.find a.instanceUID) a.toAgent then configOf a file
      else (encode db₁).configs.find (id, file)) :
    s = encode (Tables.saveAgent db a.toAgent) := by
  obtain ⟨hagents₁, hsessions₁, hconfigs₁, -⟩ := Tables.saveSession_eq_some hsaved
  refine store_ext (fun id => ?_) (fun id => ?_) fun key => ?_
  · rw [hagents, find_agents_encode, find_agents_encode, Tables.agents_saveAgent, hagents₁]
    rfl
  · rw [hsessions, find_sessions_encode, find_sessions_encode, Tables.sessions_saveAgent, hsessions₁]
    rfl
  · obtain ⟨id, file⟩ := key
    rw [hfiles, find_configs_encode, find_configs_encode, hconfigs₁, Tables.find_configs_saveAgent,
      show a.toAgent.instanceUID = a.instanceUID from rfl]
    split_ifs with hupdated
    · rw [hupdated.1]
      rfl
    · rfl

theorem saveAgent_encode {order : List String}
    (horder : FinMap.Enumerates order (a.effectiveConfig.getD ∅).keys) {saved : Store}
    (h : saveAgent (encode db) a order = some saved) :
    saved = encode (Tables.saveAgent db a.toAgent) := by
  unfold saveAgent at h
  obtain ⟨upserted, hupsert, h⟩ := Option.bind_eq_some_iff.mp h
  obtain rfl := upsertAgents_encode hupsert
  obtain ⟨s, hsession, h⟩ := Option.bind_eq_some_iff.mp h
  obtain ⟨db₁, hsaved, rfl⟩ := saveSession_encode hsession
  cases hupdated : Tables.agentsUpdated (db.agents.find a.instanceUID) a.toAgent with
  | false =>
    rw [hupdated] at h
    obtain rfl := Option.some.inj h
    exact eq_encode_saveAgent hsaved rfl rfl fun id file => by simp [hupdated]
  | true =>
    rw [hupdated] at h
    obtain ⟨hagents, hsessions, hfiles⟩ := foldlM_insertConfig h
    refine eq_encode_saveAgent hsaved hagents hsessions fun id file => ?_
    -- Every file that the agent has was among those inserted.
    have hmem : (file ∈ order ∧ (configOf a file).isSome) ↔ (configOf a file).isSome := by
      rw [and_iff_right_iff_imp, configOf_eq, Option.isSome_map, horder.mem_iff, FinMap.mem_keys]
      exact fun hfile => hfile
    simp only [hfiles, hmem, find_clearConfig, hupdated, and_true]
    by_cases hid : id = a.instanceUID
    · cases configOf a file <;> simp [hid]
    · simp [hid]

theorem softDeleteAgent_encode {id : String} {evictedAt : ℤ} {s : Store}
    (h : softDeleteAgent (encode db) id evictedAt = some s) :
    s = encode (Tables.softDeleteAgent db id evictedAt) := by
  unfold softDeleteAgent at h
  split_ifs at h
  obtain rfl := Option.some.inj h
  refine store_ext (fun j => ?_) (fun _ => rfl) fun _ => rfl
  rw [find_agents_encode (Tables.softDeleteAgent db id evictedAt) j,
    Tables.find_agents_softDeleteAgent, FinMap.find_set, find_agents_encode, find_agents_encode]
  split_ifs with hj
  · subst hj
    cases db.agents.find j with
    | none => rfl
    | some row =>
      have hrow : ∀ t, nullableTime t = .null ↔ t = none := by
        intro t
        cases t <;> simp [nullableTime]
      simp only [Option.map_some, Option.some.injEq, agentValues, hrow, Tables.softDeletedRow]
      split_ifs
      · funext c
        cases c <;> rfl
      · rfl
  · rfl

theorem deleteWhere_encode {chosen : String → Row AgentColumn → Bool}
    {chosen' : String → Tables.AgentRow → Bool}
    (hchosen : ∀ id row, chosen id (agentValues id row) = chosen' id row) :
    deleteWhere (encode db) chosen = encode (Tables.deleteWhere db chosen') := by
  -- A row that refers to an agent stays where the agent was not chosen.
  have hkept : ∀ id, (((encode db).agents.find id).any fun row => !chosen id row) =
      !(db.agents.find id).all (chosen' id) := by
    intro id
    rw [find_agents_encode]
    cases db.agents.find id with
    | none => rfl
    | some row => simp [hchosen]
  refine store_ext (fun id => ?_) (fun id => ?_) fun key => ?_
  · rw [find_agents_encode, Tables.find_agents_deleteWhere]
    unfold deleteWhere
    rw [FinMap.find_filterMap, find_agents_encode]
    cases db.agents.find id with
    | none => rfl
    | some row =>
      simp only [Option.map_some, Option.bind_some, hchosen]
      split_ifs <;> rfl
  · rw [find_sessions_encode]
    simp only [deleteWhere, Tables.deleteWhere, FinMap.find_filterMap, find_sessions_encode, hkept]
    cases db.sessions.find id with
    | none => rfl
    | some row => cases (db.agents.find id).all (chosen' id) <;> rfl
  · rw [find_configs_encode]
    simp only [deleteWhere, Tables.deleteWhere, FinMap.find_filterMap, find_configs_encode, hkept]
    cases db.configs.find key with
    | none => rfl
    | some row => cases (db.agents.find key.1).all (chosen' key.1) <;> rfl

theorem deleteAgent_encode {id : String} {s : Store} (h : deleteAgent (encode db) id = some s) :
    s = encode (Tables.deleteAgent db id) := by
  unfold deleteAgent at h
  split_ifs at h
  obtain rfl := Option.some.inj h
  exact deleteWhere_encode fun _ _ => rfl

theorem purge_encode {before : ℤ} {s : Store} (h : purge (encode db) before = some s) :
    s = encode (Tables.purge db before) := by
  unfold purge at h
  split_ifs at h
  obtain rfl := Option.some.inj h
  refine deleteWhere_encode fun _ row => ?_
  unfold Tables.evictedBefore
  simp only [agentValues]
  cases row.evictedAt <;> rfl

end Writes

/-! ### Reads -/

/-- A map that comes back from the database is nil where it has no entries. -/
def readMap {α : Type} (m : FinMap String α) : GoMap α := if m.size = 0 then none else some m

/-- An agent as it is read back. -/
def ofAgent (a : Agent) : AgentValue where
  instanceUID := a.instanceUID
  sequenceNum := a.sequenceNum
  identifying := readMap a.identifying
  nonIdentifying := readMap a.nonIdentifying
  capabilities := a.capabilities
  healthy := a.healthy
  healthError := a.healthError
  healthStatus := a.healthStatus
  healthStartTime := a.healthStartTime
  healthStatusTime := a.healthStatusTime
  healthReported := a.healthReported
  descriptionReported := a.descriptionReported
  effectiveConfig := readMap a.effectiveConfig
  packages := readMap a.packages
  conn := a.conn
  connected := a.connected
  firstSeen := a.firstSeen
  lastSeen := a.lastSeen
  missingAttributes := some a.missingAttributes
  reservedAttributeConflicts := some a.reservedAttributeConflicts
  evictedAt := a.evictedAt
  sessionUpdatedAt := a.sessionUpdatedAt

/-- An object whose entries are all read back is read back as a whole. -/
theorem unmarshal_filterMap {α : Type} {leaf : Json → Option α} {json : α → Json}
    (hleaf : ∀ x, leaf (json x) = some x) (m : FinMap String α) :
    unmarshal leaf (m.filterMap fun _ x => some (json x)) = some (readMap m) := by
  have hfind : ∀ k, ((m.filterMap fun _ x => some (json x)).find k).bind leaf = m.find k := by
    intro k
    rw [FinMap.find_filterMap]
    cases m.find k with
    | none => rfl
    | some x => exact hleaf x
  have hkeys : (m.filterMap fun _ x => some (json x)).keys = m.keys := by
    ext k
    rw [FinMap.mem_keys, FinMap.mem_keys, FinMap.find_filterMap]
    cases m.find k <;> rfl
  have hsize : (m.filterMap fun _ x => some (json x)).size = m.size := congrArg Finset.card hkeys
  have hread : ((m.filterMap fun _ x => some (json x)).filterMap fun _ j => leaf j) = m := by
    ext1 k
    exact hfind k
  unfold unmarshal readMap
  rw [if_pos, hsize, hread]
  intro k hk
  rwa [hfind, ← FinMap.mem_keys, ← hkeys]

/-- A field that is left out where it is empty is read back as empty. -/
theorem find_put (m : FinMap String String) (k v j : String) :
    (if v = "" then m else m.insert k v).find j =
      if j = k ∧ v ≠ "" then some v else m.find j := by
  by_cases hv : v = ""
  · simp [hv]
  · simp [hv, FinMap.find_set]

theorem unmarshalPackage_marshalPackage (p : Package) :
    unmarshalPackage (.object (marshalPackage p)) = some p := by
  have hfield : ∀ v : String, (if v = "" then none else some v).getD "" = v := by
    intro v
    split_ifs with hv
    · exact hv.symm
    · rfl
  simp only [unmarshalPackage, marshalPackage, List.foldl_cons, List.foldl_nil, find_put]
  simp [FinMap.find_set, hfield]

theorem effectiveConfig_encode (db : Tables.Database) (id : String) :
    effectiveConfig (encode db) id = some (readMap (Reads.effectiveConfig db id)) := by
  have hbody : ∀ file, (((encode db).configs.find (id, file)).bind fun row => readText (row .body)) =
      (Reads.effectiveConfig db id).find file := by
    intro file
    rw [find_configs_encode]
    show _ = (db.configs.find (id, file)).map Tables.ConfigRow.body
    cases db.configs.find (id, file) <;> rfl
  have hkeys : (encode db).configs.keys = db.configs.keys := by
    ext key
    rw [FinMap.mem_keys, FinMap.mem_keys, find_configs_encode, Option.isSome_map]
  have hfiles : ((encode db).configs.keys.filter fun key => key.1 = id).image Prod.snd =
      (Reads.effectiveConfig db id).keys := by
    rw [hkeys]
    rfl
  unfold effectiveConfig readMap FinMap.size
  simp only [hbody, hfiles, Finset.card_eq_zero]
  rw [if_pos fun file hfile => (FinMap.mem_keys _ file).mp hfile]
  congr 3
  ext1 file
  show (if file ∈ (Reads.effectiveConfig db id).keys then _ else none) = _
  split_ifs with hfile
  · rfl
  · exact ((FinMap.find_eq_none _ file).mpr hfile).symm

theorem pointer_nullableTime (t : Option ℤ) :
    pointer readTime (nullableTime t) = some (t.map Reads.readTime) := by
  cases t <;> rfl

/-- The values of a row without a session row are not all scanned. -/
theorem scan_joined_none (id : String) (row : Tables.AgentRow) :
    scan scanTargets (selectColumns.map (joined (agentValues id row) none)) {} = none := by
  simp only [scanTargets, selectColumns, List.map_cons, List.map_nil, joined, agentValues,
    scan_target, pointer_nullableTime, readText_text, readTime_timestamptz, readBool_bool,
    readInt_bigint, readJson_jsonb, readTexts_textArray, pointer_null, Option.map_none,
    Option.getD_none, Option.bind_some]
  rfl

/-- The agent of a row with its session row, before its config files are read. -/
theorem scanAgent_joined (id : String) (row : Tables.AgentRow) (session : Tables.SessionRow) :
    scanAgent (selectColumns.map
        (joined (agentValues id row) (some (sessionValues id session)))) =
      (Reads.scanAgent id row ∅ (some session)).map ofAgent := by
  have htexts : ∀ m, unmarshal leafText (textObject m) = some (readMap m) :=
    unmarshal_filterMap fun _ => rfl
  have hpackages : ∀ m, unmarshal unmarshalPackage (packageObject m) = some (readMap m) :=
    unmarshal_filterMap unmarshalPackage_marshalPackage
  unfold scanAgent
  simp only [scanTargets, selectColumns, List.map_cons, List.map_nil, joined, agentValues,
    sessionValues, scan_target, scan_nil, pointer_nullableTime, pointer_text, pointer_bool,
    pointer_timestamptz, readText_text, readTime_timestamptz, readBool_bool, readInt_bigint,
    readJson_jsonb, readTexts_textArray, htexts, hpackages, Option.map_some, Option.getD_some,
    Option.bind_some, Option.bind_eq_bind]
  rfl

theorem readAgent_encode (db : Tables.Database) (id : String) (row : Tables.AgentRow) :
    readAgent (encode db) id (agentValues id row) =
      (Reads.scanAgent id row (Reads.effectiveConfig db id) (db.sessions.find id)).map ofAgent := by
  unfold readAgent
  rw [find_sessions_encode]
  cases db.sessions.find id with
  | none =>
    unfold scanAgent
    rw [Option.map_none, scan_joined_none]
    rfl
  | some session =>
    rw [Option.map_some, scanAgent_joined]
    simp only [Reads.scanAgent, Option.map_some, ofAgent, Option.bind_eq_bind, Option.bind_some,
      effectiveConfig_encode]
    rfl

theorem getAgent_encode (db : Tables.Database) {id : String} (hid : storableText id) :
    getAgent (encode db) id = (Reads.storedAgent db id).map (Option.map ofAgent) := by
  unfold getAgent Reads.storedAgent
  rw [if_pos hid, find_agents_encode]
  cases db.agents.find id with
  | none => rfl
  | some row =>
    simp only [Option.map_some, readAgent_encode]
    rw [Option.map_map, Option.map_map]
    rfl

theorem listAgents_encode (db : Tables.Database) :
    listAgents (encode db) = (Reads.storedAgents db).map (List.map ofAgent) := by
  have hkeys : (encode db).agents.keys = db.agents.keys := by
    ext id
    exact mem_agents_encode db id
  have hread : ∀ id, ((encode db).agents.find id).bind (readAgent (encode db) id) =
      ((db.agents.find id).bind fun row => Reads.scanAgent id row (Reads.effectiveConfig db id)
        (db.sessions.find id)).map ofAgent := by
    intro id
    rw [find_agents_encode]
    cases db.agents.find id with
    | none => rfl
    | some row => exact readAgent_encode db id row
  unfold listAgents Reads.storedAgents SortedWindows.sorted
  rw [hkeys]
  simp only [hread]
  exact Scans.mapM_map _ ofAgent _

end Grex.Statements
