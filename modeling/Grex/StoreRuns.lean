import Grex.Machine
import Grex.StatementRows

/-!
Runs of the store's calls from empty tables. No constraint of the tables says that an
agents row has a session row, but every call keeps it so, and the list of all agents
can always be read. The first snapshot of an agent that lands decides when it was
first seen.
-/

namespace Grex.StoreRuns

open GoTime AgentState Sql Statements

/-! ### Calls -/

/-- A call that writes. The config files of an agent are inserted in the order its map
is iterated over. -/
inductive Call
  | saveAgent (a : AgentValue) (order : List String)
      (enumerates : FinMap.Enumerates order (a.effectiveConfig.getD ∅).keys)
  | saveSession (a : AgentValue)
  | softDeleteAgent (id : String) (evictedAt : ℤ)
  | deleteAgent (id : String)
  | purge (before : ℤ)

def perform (s : Store) : Call → Option Store
  | .saveAgent a order _ => Statements.saveAgent s a order
  | .saveSession a => Statements.saveSession s a
  | .softDeleteAgent id evictedAt => Statements.softDeleteAgent s id evictedAt
  | .deleteAgent id => Statements.deleteAgent s id
  | .purge before => Statements.purge s before

/-- A call that is not committed, or that the database refuses, leaves no trace. -/
def step (s : Store) (act : Call × Bool) : Option Store :=
  some (if act.2 then (perform s act.1).getD s else s)

/-- The tables stand for typed rows, each agents row with a session row. -/
def Sound (s : Store) : Prop := ∃ db, s = encode db ∧ Reads.Complete db

theorem sound_empty : Sound {} := by
  refine ⟨Tables.Database.empty, ?_, Reads.complete_empty⟩
  exact store_ext (fun _ => rfl) (fun _ => rfl) fun _ => rfl

theorem sound_perform {s s' : Store} {c : Call} (hs : Sound s) (h : perform s c = some s') :
    Sound s' := by
  obtain ⟨db, rfl, hdb⟩ := hs
  cases c with
  | saveAgent a order horder =>
    exact ⟨_, saveAgent_encode horder h, Reads.complete_saveAgent hdb _⟩
  | saveSession a =>
    obtain ⟨db', hsaved, rfl⟩ := saveSession_encode h
    exact ⟨db', rfl, Reads.complete_saveSession hdb hsaved⟩
  | softDeleteAgent id evictedAt =>
    exact ⟨_, softDeleteAgent_encode h, Reads.complete_softDeleteAgents hdb [id] evictedAt⟩
  | deleteAgent id => exact ⟨_, deleteAgent_encode h, Reads.complete_deleteWhere hdb _⟩
  | purge before => exact ⟨_, purge_encode h, Reads.complete_purge hdb before⟩

theorem sound_step (s : Store) (act : Call × Bool) (t : Store) (hs : Sound s)
    (h : step s act = some t) : Sound t := by
  obtain rfl := Option.some.inj h
  split_ifs
  · cases hperform : perform s act.1 with
    | none => exact hs
    | some s' => exact sound_perform hs hperform
  · exact hs

/-! ### What can be read -/

/-- The values of the session's columns in the join. -/
theorem joined_session {db : Tables.Database} (hdb : Reads.Complete db) {id : String}
    {row : Row AgentColumn} (hrow : (encode db).agents.find id = some row) :
    ∃ session, (encode db).sessions.find id = some session ∧
      ∀ c, joined row (some session) (.inr c) ≠ .null := by
  have hid : id ∈ db.agents.keys :=
    (mem_agents_encode db id).mp ((FinMap.mem_keys_iff _ id).mpr ⟨row, hrow⟩)
  obtain ⟨session, hsession⟩ := (db.sessions.mem_keys_iff id).mp (hdb id hid)
  refine ⟨sessionValues id session, by rw [find_sessions_encode, hsession]; rfl, fun c => ?_⟩
  cases c <;> exact Value.noConfusion

/-- Every agent is listed, and listed once. -/
theorem listAgents_of_complete {db : Tables.Database} (hdb : Reads.Complete db) :
    ∃ agents, listAgents (encode db) = some agents ∧
      agents.map AgentValue.instanceUID = SortedWindows.sorted (encode db).agents.keys := by
  obtain ⟨stored, hstored, -⟩ := Reads.storedAgents_of_complete db hdb
  refine ⟨stored.map ofAgent, by rw [listAgents_encode, hstored]; rfl, ?_⟩
  apply Scans.map_of_mapM _ (show listAgents (encode db) = _ by rw [listAgents_encode, hstored]; rfl)
  intro id a ha
  rw [find_agents_encode] at ha
  cases hrow : db.agents.find id with
  | none =>
    rw [hrow] at ha
    cases ha
  | some row =>
    rw [hrow, Option.map_some, Option.bind_some, readAgent_encode] at ha
    obtain ⟨b, hb, rfl⟩ := Option.map_eq_some_iff.mp ha
    exact (Reads.scanAgent_eq_some hb).1

/-- In every state the calls can reach from empty tables, agents rows and session rows
belong together one to one, every config row has its agents row, the join has a value
in each column that is scanned into a plain variable, and the whole fleet is listed. -/
theorem every_agent_keeps_its_session (s : Store) (h : Machine.Reachable step {} s) :
    (∀ id, id ∈ s.agents.keys → ∃! session, s.sessions.find id = some session) ∧
      (∀ id, id ∈ s.sessions.keys → id ∈ s.agents.keys) ∧
      (∀ id file, (id, file) ∈ s.configs.keys → id ∈ s.agents.keys) ∧
      (∀ id row, s.agents.find id = some row →
        joined row (s.sessions.find id) (.inr .descriptionReported) ≠ .null ∧
          joined row (s.sessions.find id) (.inr .sequenceNum) ≠ .null) ∧
      ∃ agents, listAgents s = some agents ∧
        agents.map AgentValue.instanceUID = SortedWindows.sorted s.agents.keys := by
  obtain ⟨db, rfl, hdb⟩ := Machine.reachable_invariant Sound sound_empty sound_step h
  refine ⟨fun id hid => ?_, fun id hid => ?_, fun id file hfile => ?_, fun id row hrow => ?_,
    listAgents_of_complete hdb⟩
  · obtain ⟨row, hrow⟩ := ((encode db).agents.mem_keys_iff id).mp hid
    obtain ⟨session, hsession, -⟩ := joined_session hdb hrow
    refine ⟨session, hsession, fun other hother => ?_⟩
    exact Option.some.inj (hother.symm.trans hsession)
  · rw [FinMap.mem_keys, find_sessions_encode, Option.isSome_map, ← FinMap.mem_keys] at hid
    exact (mem_agents_encode db id).mpr (db.session_fk id hid)
  · rw [FinMap.mem_keys, find_configs_encode, Option.isSome_map, ← FinMap.mem_keys] at hfile
    exact (mem_agents_encode db id).mpr (db.config_fk id file hfile)
  · obtain ⟨session, hsession, hvalues⟩ := joined_session hdb hrow
    rw [hsession]
    exact ⟨hvalues .descriptionReported, hvalues .sequenceNum⟩

def kept : AgentValue :=
  { instanceUID := "agent-1"
    effectiveConfig := some ((∅ : FinMap String String).insert "collector.yaml" "receivers:") }

/-- Two agents are saved; the second one is deleted, and the first one refreshed,
soft-deleted and not yet due to be purged. The session of an unknown agent is refused. -/
def keptCalls : List (Call × Bool) :=
  [(.saveAgent kept ["collector.yaml"] (by decide), true),
    (.saveAgent { instanceUID := "agent-2" } [] (by decide), true),
    (.deleteAgent "agent-2", true),
    (.saveSession { kept with lastSeen := 5000000000 }, true),
    (.saveSession { instanceUID := "agent-3" }, true),
    (.softDeleteAgent "agent-1" 9000000000, true),
    (.purge 8000000000, true)]

theorem every_agent_keeps_its_session_softDeleted :
    ∃ s agents row, Machine.run step {} keptCalls = some s ∧
      s.agents.find "agent-1" = some row ∧ row .evictedAt ≠ .null ∧
      (∃! session, s.sessions.find "agent-1" = some session) ∧
      ("agent-1", "collector.yaml") ∈ s.configs.keys ∧
      joined row (s.sessions.find "agent-1") (.inr .sequenceNum) ≠ .null ∧
      listAgents s = some agents ∧ agents.map AgentValue.instanceUID = ["agent-1"] := by
  obtain ⟨s, hrun, hkeys, hconfig, hevicted⟩ : ∃ s, Machine.run step {} keptCalls = some s ∧
      s.agents.keys = {"agent-1"} ∧ ("agent-1", "collector.yaml") ∈ s.configs.keys ∧
      (s.agents.find "agent-1").any fun row => decide (row .evictedAt ≠ .null) :=
    Machine.exists_run_of_any (by decide +kernel)
  obtain ⟨row, hrow, hdeleted⟩ := (Option.any_eq_true _ _).mp hevicted
  obtain ⟨hsession, -, -, hjoined, agents, hagents, huids⟩ :=
    every_agent_keeps_its_session s ⟨_, hrun⟩
  refine ⟨s, agents, row, hrun, hrow, of_decide_eq_true hdeleted, hsession "agent-1" ?_, hconfig,
    (hjoined "agent-1" row hrow).2, hagents, ?_⟩
  · rw [hkeys]
    exact Finset.mem_singleton_self _
  · rw [huids, hkeys]
    exact Finset.sort_singleton _ _

/-! ### The first sighting -/

/-- Snapshots of agents in the order they reach the database. -/
def land (db : Tables.Database) (snapshots : List Agent) : Tables.Database :=
  snapshots.foldl Tables.saveAgent db

/-- Later snapshots do not move the first sighting. -/
theorem firstSeen_land {db : Tables.Database} {id : String} {row : Tables.AgentRow}
    (hrow : db.agents.find id = some row) (snapshots : List Agent) :
    ∃ row', (land db snapshots).agents.find id = some row' ∧ row'.firstSeen = row.firstSeen := by
  induction snapshots generalizing db row with
  | nil => exact ⟨row, hrow, rfl⟩
  | cons a snapshots ih =>
    have hsaved : ∃ saved, (Tables.saveAgent db a).agents.find id = some saved ∧
        saved.firstSeen = row.firstSeen := by
      rw [Tables.agents_saveAgent, FinMap.find_set]
      split_ifs with hid
      · rw [← hid, hrow]
        refine ⟨_, rfl, ?_⟩
        simp only [Tables.upsertAgentRow]
        split_ifs <;> rfl
      · exact ⟨row, hrow, rfl⟩
    obtain ⟨saved, hsaved, hfirst⟩ := hsaved
    obtain ⟨row', hrow', hsame⟩ := ih hsaved
    exact ⟨row', hrow', hsame.trans hfirst⟩

/-- The stored first sighting is the earliest of the snapshots if and only if the one
that landed first has it. -/
theorem firstSeen_least_iff (db : Tables.Database) (id : String) (first : Agent) (rest : List Agent)
    (hnew : db.agents.find id = none) (hid : ∀ a ∈ first :: rest, a.instanceUID = id) :
    ∃ row, (land db (first :: rest)).agents.find id = some row ∧
      ((row.firstSeen ∈ (first :: rest).map (fun a => micros a.firstSeen) ∧
          ∀ a ∈ first :: rest, row.firstSeen ≤ micros a.firstSeen) ↔
        ∀ a ∈ rest, micros first.firstSeen ≤ micros a.firstSeen) := by
  have hfirst : (Tables.saveAgent db first).agents.find id = some (Tables.agentRow first) := by
    rw [Tables.agents_saveAgent, hid first List.mem_cons_self, hnew]
    exact FinMap.find_set_self _ _ _
  obtain ⟨row, hrow, hseen⟩ := firstSeen_land hfirst rest
  refine ⟨row, hrow, ?_⟩
  rw [hseen]
  constructor
  · rintro ⟨-, hleast⟩ a ha
    exact hleast a (List.mem_cons_of_mem first ha)
  · intro hleast
    refine ⟨List.mem_map.mpr ⟨first, List.mem_cons_self, rfl⟩, fun a ha => ?_⟩
    rcases List.mem_cons.mp ha with rfl | ha
    · exact le_refl _
    · exact hleast a ha

/-- What a replica holds of an agent it met at a time and has just heard. -/
def met (t : ℤ) : Agent := { instanceUID := "agent-1", firstSeen := t, lastSeen := t }

theorem firstSeen_least_in_order :
    ∃ row, (land .empty [met 1000, met 2000]).agents.find "agent-1" = some row ∧
      ∀ a ∈ [met 1000, met 2000], row.firstSeen ≤ micros a.firstSeen := by
  obtain ⟨row, hrow, hleast⟩ := firstSeen_least_iff .empty "agent-1" (met 1000) [met 2000] rfl
    (by decide)
  exact ⟨row, hrow, (hleast.mpr (by decide)).2⟩

/-- The replica that met the agent a microsecond later flushes first. -/
theorem later_meeting_decides :
    ((land .empty [met 2000, met 1000]).agents.find "agent-1").map Tables.AgentRow.firstSeen =
        some (micros (met 2000).firstSeen) ∧
      micros (met 1000).firstSeen < micros (met 2000).firstSeen := by
  decide

end Grex.StoreRuns
