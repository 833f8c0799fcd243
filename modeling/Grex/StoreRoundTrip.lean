import Grex.StatementRows

/-!
An agent that is saved into tables without a row of it is read back as it was, to the
microsecond. The statements are run position by position, so a value that went to
another column or came from another one would be seen here.
-/

namespace Grex.Statements

open GoTime AgentState Sql

/-- No text of the agent holds the zero character, and every time is in the range of a
timestamp. -/
structure Storable (a : AgentValue) : Prop where
  instanceUID : storableText a.instanceUID
  healthError : storableText a.healthError
  healthStatus : storableText a.healthStatus
  remoteAddr : storableText a.conn.remoteAddr
  tlsSubject : storableText a.conn.tlsSubject
  transport : storableText a.conn.transport
  identifying : storableTexts (a.identifying.getD ∅)
  nonIdentifying : storableTexts (a.nonIdentifying.getD ∅)
  effectiveConfig : storableTexts (a.effectiveConfig.getD ∅)
  packages : ∀ name p, (a.packages.getD ∅).find name = some p → storableText name ∧
    storableText p.name ∧ storableText p.agentHasVersion ∧ storableText p.serverOfferedVersion ∧
    storableText p.status ∧ storableText p.errorMessage
  missingAttributes : (a.missingAttributes.getD []).all storableText
  reservedAttributeConflicts : (a.reservedAttributeConflicts.getD []).all storableText
  firstSeen : storableTime (micros a.firstSeen)
  lastSeen : storableTime (micros a.lastSeen)
  healthStartTime : storableTime (micros a.healthStartTime)
  healthStatusTime : storableTime (micros a.healthStatusTime)

/-! ### What the database takes -/

theorem storableTexts_insert {m : FinMap String String} (hm : storableTexts m) {k v : String}
    (hk : storableText k) (hv : storableText v) : storableTexts (m.insert k v) := by
  rw [storableTexts_iff] at hm ⊢
  intro j w hjw
  rw [FinMap.find_set] at hjw
  split_ifs at hjw with hj
  · cases hjw
    exact ⟨hj ▸ hk, hv⟩
  · exact hm j w hjw

theorem storableTexts_foldl {fields : List (String × String)} {m : FinMap String String}
    (hm : storableTexts m) (hfields : ∀ field ∈ fields, storableText field.1 ∧ storableText field.2) :
    storableTexts (fields.foldl
      (fun m field => if field.2 = "" then m else m.insert field.1 field.2) m) := by
  induction fields generalizing m with
  | nil => exact hm
  | cons field fields ih =>
    obtain ⟨hfield, hrest⟩ := List.forall_mem_cons.mp hfields
    apply ih _ hrest
    show storableTexts (if field.2 = "" then m else m.insert field.1 field.2)
    split_ifs
    · exact hm
    · exact storableTexts_insert hm hfield.1 hfield.2

theorem storableTexts_marshalPackage {p : Package} (hname : storableText p.name)
    (hhas : storableText p.agentHasVersion) (hoffered : storableText p.serverOfferedVersion)
    (hstatus : storableText p.status) (herror : storableText p.errorMessage) :
    storableTexts (marshalPackage p) := by
  apply storableTexts_foldl
  · exact storableTexts_insert (by decide) (by decide) hname
  · have hkeys : storableText "agent_has_version" ∧ storableText "server_offered_version" ∧
        storableText "status" ∧ storableText "error_message" := by decide
    simp [hkeys, hhas, hoffered, hstatus, herror]

theorem storable_marshalTexts {m : GoMap String} (hm : storableTexts (m.getD ∅)) :
    (marshalTexts m).storable := by
  rw [storableTexts_iff] at hm
  apply storable_jsonb_iff.mpr
  intro k j hkj
  rw [FinMap.find_filterMap] at hkj
  obtain ⟨s, hs, hj⟩ := Option.bind_eq_some_iff.mp hkj
  cases hj
  exact hm k s hs

theorem storable_nullTime {t : ℤ} (ht : storableTime (micros t)) : (nullTime t).storable := by
  unfold nullTime
  split_ifs
  · rfl
  · exact ht

section Storable

variable {a : AgentValue} (ha : Storable a)
include ha

theorem storable_marshalPackages : (marshalPackages a.packages).storable := by
  apply storable_jsonb_iff.mpr
  intro k j hkj
  rw [FinMap.find_filterMap] at hkj
  obtain ⟨p, hp, hj⟩ := Option.bind_eq_some_iff.mp hkj
  cases hj
  obtain ⟨hk, hname, hhas, hoffered, hstatus, herror⟩ := ha.packages k p hp
  exact ⟨hk, storableTexts_marshalPackage hname hhas hoffered hstatus herror⟩

theorem insertRow_agentArgs : insertRow agentsSchema agentColumns (agentArgs a) =
    some (agentValues a.instanceUID (Tables.agentRow a.toAgent)) := by
  have hargs : (agentArgs a).all Value.storable := by
    simp only [agentArgs, List.all_cons, List.all_nil, Bool.and_eq_true, Bool.and_true]
    exact ⟨ha.instanceUID, ha.firstSeen, ha.lastSeen, rfl, ha.healthError, ha.healthStatus,
      storable_nullTime ha.healthStartTime, storable_nullTime ha.healthStatusTime, rfl, rfl,
      storable_marshalTexts ha.identifying, storable_marshalTexts ha.nonIdentifying,
      ha.missingAttributes, ha.reservedAttributeConflicts, storable_marshalPackages ha, ha.lastSeen⟩
  rw [← boundRow_agentArgs]
  refine insertRow_of_storable rfl hargs ?_
  rw [boundRow_agentArgs]
  exact admits_agentValues _ _

theorem insertRow_sessionArgs : insertRow sessionSchema sessionColumns (sessionArgs a) =
    some (sessionValues a.instanceUID (Tables.sessionRow a.toAgent)) := by
  have hargs : (sessionArgs a).all Value.storable := by
    simp only [sessionArgs, List.all_cons, List.all_nil, Bool.and_eq_true, Bool.and_true]
    exact ⟨ha.instanceUID, rfl, ha.remoteAddr, ha.tlsSubject, rfl, ha.transport, rfl, rfl,
      ha.lastSeen⟩
  rw [← boundRow_sessionArgs]
  refine insertRow_of_storable rfl hargs ?_
  rw [boundRow_sessionArgs]
  exact admits_sessionValues _ _

theorem insertRow_configArgs {file body : String}
    (hfile : (a.effectiveConfig.getD ∅).find file = some body) :
    insertRow configSchema configColumns (configArgs a file body) =
      some (configValues (a.instanceUID, file) ⟨body, micros a.lastSeen⟩) := by
  have hargs : (configArgs a file body).all Value.storable := by
    obtain ⟨hname, hbody⟩ := storableTexts_iff.mp ha.effectiveConfig file body hfile
    simp only [configArgs, List.all_cons, List.all_nil, Bool.and_eq_true, Bool.and_true]
    exact ⟨ha.instanceUID, hname, hbody, ha.lastSeen⟩
  rw [← boundRow_configArgs]
  refine insertRow_of_storable rfl hargs ?_
  rw [boundRow_configArgs]
  exact admits_configValues _ _

/-- Files that are not there yet are all inserted. -/
theorem exists_foldlM_insertConfig {order : List String} (hnodup : order.Nodup) {s : Store}
    (hagent : a.instanceUID ∈ s.agents.keys)
    (hnew : ∀ file ∈ order, (a.instanceUID, file) ∉ s.configs.keys) :
    ∃ s', (filesInOrder a order).foldlM (insertConfig a) s = some s' := by
  induction order generalizing s with
  | nil => exact ⟨s, rfl⟩
  | cons head order ih =>
    obtain ⟨hhead, hnodup⟩ := List.nodup_cons.mp hnodup
    rw [filesInOrder_cons]
    cases hbody : (a.effectiveConfig.getD ∅).find head with
    | none => exact ih hnodup hagent fun file hfile => hnew file (List.mem_cons_of_mem head hfile)
    | some body =>
      rw [Option.toList_some, List.map_singleton, List.singleton_append, List.foldlM_cons,
        insertConfig, insertRow_configArgs ha hbody, Option.bind_some,
        if_pos ⟨hagent, hnew head List.mem_cons_self⟩]
      refine ih hnodup hagent fun file hfile => ?_
      have hne : (a.instanceUID, file) ≠ (a.instanceUID, head) := by
        rintro ⟨⟩
        exact hhead hfile
      have hold := hnew file (List.mem_cons_of_mem head hfile)
      rw [FinMap.mem_keys] at hold ⊢
      rwa [FinMap.find_set_of_ne _ _ hne]

/-- A save of an agent the database takes is not rolled back. -/
theorem saveAgent_of_storable (db : Tables.Database) {order : List String}
    (horder : FinMap.Enumerates order (a.effectiveConfig.getD ∅).keys) :
    saveAgent (encode db) a order = some (encode (Tables.saveAgent db a.toAgent)) := by
  have hupsert : ∃ saved, upsertAgents (encode db) a = some saved := by
    unfold upsertAgents
    rw [insertRow_agentArgs ha]
    exact ⟨_, rfl⟩
  obtain ⟨saved, hupsert⟩ := hupsert
  have hagent : a.instanceUID ∈ (encode (Tables.upsertAgents db a.toAgent)).agents.keys :=
    (mem_agents_encode _ _).mpr (Tables.mem_agents_upsertAgents db a.toAgent)
  have hsession : ∃ s, saveSession (encode (Tables.upsertAgents db a.toAgent)) a = some s ∧
      s.agents = (encode (Tables.upsertAgents db a.toAgent)).agents := by
    unfold saveSession
    rw [insertRow_sessionArgs ha, Option.bind_some, if_pos hagent]
    exact ⟨_, rfl, rfl⟩
  obtain ⟨s, hsession, hagents⟩ := hsession
  have hsome : ∃ s', saveAgent (encode db) a order = some s' := by
    unfold saveAgent
    rw [hupsert, upsertAgents_encode hupsert]
    simp only [Option.bind_eq_bind, Option.bind_some, hsession]
    split_ifs
    · refine exists_foldlM_insertConfig ha horder.nodup (by rwa [clearConfig, hagents]) ?_
      intro file _
      rw [FinMap.mem_keys, find_clearConfig, if_pos rfl]
      simp
    · exact ⟨s, rfl⟩
  obtain ⟨s', hsave⟩ := hsome
  rw [hsave, saveAgent_encode horder hsave]

end Storable

/-! ### Reading it back -/

/-- A time as a timestamp column returns it. -/
def truncated (t : ℤ) : ℤ := Reads.readTime (micros t)

theorem truncated_zeroTime : truncated zeroTime = zeroTime := rfl

/-- What the database gives back of an agent: times to the microsecond, nil for maps
without entries, empty lists for nil ones, and the session as new as the agent. -/
def persisted (a : AgentValue) : AgentValue :=
  { a with
    identifying := readMap (a.identifying.getD ∅)
    nonIdentifying := readMap (a.nonIdentifying.getD ∅)
    effectiveConfig := readMap (a.effectiveConfig.getD ∅)
    packages := readMap (a.packages.getD ∅)
    missingAttributes := some (a.missingAttributes.getD [])
    reservedAttributeConflicts := some (a.reservedAttributeConflicts.getD [])
    healthStartTime := truncated a.healthStartTime
    healthStatusTime := truncated a.healthStatusTime
    firstSeen := truncated a.firstSeen
    lastSeen := truncated a.lastSeen
    evictedAt := none
    sessionUpdatedAt := truncated a.lastSeen }

theorem readTime_nullTime (t : ℤ) :
    ((Tables.nullTime t).map Reads.readTime).getD zeroTime = truncated t := by
  unfold Tables.nullTime
  split_ifs with hzero
  · rw [hzero]
    rfl
  · rfl

/-- The agent that was written, scanned. -/
theorem scanAgent_written (a : AgentValue) :
    (Reads.scanAgent a.instanceUID (Tables.agentRow a.toAgent) (a.effectiveConfig.getD ∅)
      (some (Tables.sessionRow a.toAgent))).map ofAgent = some (persisted a) := by
  simp only [Reads.scanAgent, Tables.agentRow, Tables.sessionRow, Option.map_some, ofAgent,
    readTime_nullTime, UInt64.toUInt64_toInt64]
  rfl

section Saved

variable {db : Tables.Database} {a : AgentValue} (hnew : db.agents.find a.instanceUID = none)
include hnew

theorem effectiveConfig_saveAgent :
    Reads.effectiveConfig (Tables.saveAgent db a.toAgent) a.instanceUID =
      a.effectiveConfig.getD ∅ := by
  have hupdated : Tables.agentsUpdated (db.agents.find a.toAgent.instanceUID) a.toAgent = true := by
    rw [show a.toAgent.instanceUID = a.instanceUID from rfl, hnew]
    rfl
  ext1 file
  show ((Tables.saveAgent db a.toAgent).configs.find (a.instanceUID, file)).map
    Tables.ConfigRow.body = _
  rw [Tables.find_configs_saveAgent, if_pos ⟨rfl, hupdated⟩, Tables.configRow, Option.map_map]
  exact Option.map_id'

theorem find_agents_saveAgent : (Tables.saveAgent db a.toAgent).agents.find a.instanceUID =
    some (Tables.agentRow a.toAgent) := by
  rw [Tables.agents_saveAgent, show a.toAgent.instanceUID = a.instanceUID from rfl, hnew]
  exact FinMap.find_set_self _ _ _

theorem find_sessions_saveAgent : (Tables.saveAgent db a.toAgent).sessions.find a.instanceUID =
    some (Tables.sessionRow a.toAgent) := by
  -- A session row would refer to an agents row.
  have hsession : db.sessions.find a.instanceUID = none := by
    rw [FinMap.find_eq_none] at hnew ⊢
    exact fun hmem => hnew (db.session_fk _ hmem)
  rw [Tables.sessions_saveAgent, show a.toAgent.instanceUID = a.instanceUID from rfl, hsession]
  exact FinMap.find_set_self _ _ _

/-- The read of the row after the save. -/
theorem readAgent_saveAgent :
    ((encode (Tables.saveAgent db a.toAgent)).agents.find a.instanceUID).bind
      (readAgent (encode (Tables.saveAgent db a.toAgent)) a.instanceUID) = some (persisted a) := by
  rw [find_agents_encode, find_agents_saveAgent hnew, Option.map_some, Option.bind_some,
    readAgent_encode, find_sessions_saveAgent hnew, effectiveConfig_saveAgent hnew,
    scanAgent_written]

end Saved

/-- An agent saved into tables without its row is read back as it was persisted, alone
and in the list of all agents, which can be read where every other row can. -/
theorem save_then_read (db : Tables.Database) (a : AgentValue) (ha : Storable a)
    (order : List String) (horder : FinMap.Enumerates order (a.effectiveConfig.getD ∅).keys)
    (hnew : db.agents.find a.instanceUID = none) :
    ∃ saved, saveAgent (encode db) a order = some saved ∧
      getAgent saved a.instanceUID = some (some (persisted a)) ∧
      (∀ agents, listAgents saved = some agents → persisted a ∈ agents) ∧
      (Reads.Complete db → ∃ agents, listAgents saved = some agents) ∧
      truncated zeroTime = zeroTime := by
  have hread := readAgent_saveAgent hnew
  refine ⟨encode (Tables.saveAgent db a.toAgent), saveAgent_of_storable ha db horder, ?_,
    fun agents hlist => ?_, fun hcomplete => ?_, truncated_zeroTime⟩
  · unfold getAgent
    rw [if_pos ha.instanceUID]
    obtain ⟨row, hrow, hscan⟩ := Option.bind_eq_some_iff.mp hread
    simp only [hrow, hscan, Option.map_some]
  · have hmem : a.instanceUID ∈ (encode (Tables.saveAgent db a.toAgent)).agents.keys := by
      rw [mem_agents_encode, FinMap.mem_keys, find_agents_saveAgent hnew]
      rfl
    obtain ⟨b, hb, hfound⟩ := Scans.mem_of_mapM hlist (SortedWindows.mem_sorted.mpr hmem)
    obtain rfl := Option.some.inj (hread.symm.trans hfound)
    exact hb
  · obtain ⟨agents, hagents, -⟩ :=
      Reads.storedAgents_of_complete _ (Reads.complete_saveAgent hcomplete a.toAgent)
    rw [listAgents_encode, hagents]
    exact ⟨_, rfl⟩

/-- An agent with a config file, nil attribute lists and the largest capabilities. -/
def reporting : AgentValue :=
  { instanceUID := "agent-1"
    capabilities := 18446744073709551615
    identifying := some ((∅ : FinMap String String).insert "service.name" "collector")
    effectiveConfig := some ((∅ : FinMap String String).insert "" "receivers:")
    firstSeen := 1700000000123456789
    lastSeen := 1700000001123456789 }

theorem storable_reporting : Storable reporting where
  instanceUID := by decide
  healthError := by decide
  healthStatus := by decide
  remoteAddr := by decide
  tlsSubject := by decide
  transport := by decide
  identifying := by decide
  nonIdentifying := by decide
  effectiveConfig := by decide
  packages _ _ hp := by cases hp
  missingAttributes := by decide
  reservedAttributeConflicts := by decide
  firstSeen := by decide
  lastSeen := by decide
  healthStartTime := by decide
  healthStatusTime := by decide

theorem save_then_read_reporting :
    ∃ saved, saveAgent (encode Tables.Database.empty) reporting [""] = some saved ∧
      getAgent saved "agent-1" = some (some (persisted reporting)) := by
  obtain ⟨saved, hsave, hget, -⟩ := save_then_read Tables.Database.empty reporting
    storable_reporting [""] (by decide) rfl
  exact ⟨saved, hsave, hget⟩

end Grex.Statements
