import Grex.Registry
import Grex.Scans
import Grex.Tables
import Mathlib.Data.Finset.Sort
import Mathlib.Data.String.Basic

/-!
Reading the tables back, and the fleet view a replica serves. A row without a
session row cannot be scanned. A soft-deleted row is read like any other; it is
the merge with the local registry, and the lookup of a single agent, that treat
it as gone.
-/

namespace Grex.Reads

open GoTime AgentState Tables

/-- A stored timestamp as a clock reading. -/
def readTime (t : ℤ) : ℤ := t * 1000

/-- The config files of one agent. -/
def effectiveConfig (db : Database) (id : String) : FinMap String String where
  find file := (db.configs.find (id, file)).map ConfigRow.body
  keys := (db.configs.keys.filter fun key => key.1 = id).image Prod.snd
  mem_keys file := by
    simp only [Finset.mem_image, Finset.mem_filter, Option.isSome_map]
    rw [← FinMap.mem_keys]
    constructor
    · intro h
      obtain ⟨⟨j, f⟩, ⟨hmem, rfl⟩, rfl⟩ := h
      exact hmem
    · intro hmem
      exact ⟨(id, file), ⟨hmem, rfl⟩, rfl⟩

/-- One row of the join. `description_reported` and `sequence_num` are scanned
into plain variables, so a missing session row is an error. -/
def scanAgent (id : String) (row : AgentRow) (config : FinMap String String) :
    Option SessionRow → Option Agent
  | none => none
  | some session => some {
      instanceUID := id
      sequenceNum := session.sequenceNum.toUInt64
      identifying := row.identifying
      nonIdentifying := row.nonIdentifying
      capabilities := row.capabilities.toUInt64
      healthy := row.healthy
      healthError := row.healthError
      healthStatus := row.healthStatus
      healthStartTime := (row.healthStartTime.map readTime).getD zeroTime
      healthStatusTime := (row.healthStatusTime.map readTime).getD zeroTime
      healthReported := row.healthReported
      descriptionReported := session.descriptionReported
      effectiveConfig := config
      packages := row.packages
      conn := {
        remoteAddr := session.remoteAddr
        tlsSubject := session.tlsSubject
        viaGateway := session.viaGateway
        transport := session.transport }
      connected := session.connected
      firstSeen := readTime row.firstSeen
      lastSeen := readTime row.lastSeen
      missingAttributes := row.missingAttributes
      reservedAttributeConflicts := row.reservedAttributeConflicts
      evictedAt := row.evictedAt.map readTime
      sessionUpdatedAt := readTime session.updatedAt }

/-- `PostgresStore.GetAgent`; the outer `none` is a failed scan. -/
def storedAgent (db : Database) (id : String) : Option (Option Agent) :=
  match db.agents.find id with
  | none => some none
  | some row => (scanAgent id row (effectiveConfig db id) (db.sessions.find id)).map some

/-- `PostgresStore.ListAgents`: every row in uid order, or an error. -/
def storedAgents (db : Database) : Option (List Agent) :=
  (db.agents.keys.sort (· ≤ ·)).mapM fun id =>
    (db.agents.find id).bind fun row =>
      scanAgent id row (effectiveConfig db id) (db.sessions.find id)

def staleConnected (a : Agent) (now disconnectAfter : ℤ) : Bool :=
  a.connected && decide (sub now a.sessionUpdatedAt > disconnectAfter)

/-- A stored agent's `connected` is corrected when its session row is stale. -/
def corrected (now disconnectAfter : ℤ) (a : Agent) : Agent :=
  if staleConnected a now disconnectAfter then { a with connected := false } else a

/-- Local agents first, then the stored ones that are neither local nor
soft-deleted. -/
def mergeAgents (loc db : List Agent) (now disconnectAfter : ℤ) : List Agent :=
  loc ++ (db.filter fun a =>
    !(loc.any fun b => b.instanceUID == a.instanceUID) && a.evictedAt.isNone).map
      (corrected now disconnectAfter)

/-- The API's lookup of one agent: local first, then the store. The outer
`none` is a failed lookup, the inner one a 404. -/
def getAgent (r : Registry) (db : Database) (id : String) (now : ℤ) : Option (Option Agent) :=
  match r.get id with
  | some a => some (some a)
  | none =>
      (storedAgent db id).map fun found =>
        (found.filter fun a => a.evictedAt.isNone).map (corrected now r.cfg.disconnectThreshold)

/-- Every agents row can be scanned. -/
def Complete (db : Database) : Prop := ∀ id ∈ db.agents.keys, id ∈ db.sessions.keys

theorem complete_empty : Complete Database.empty := by
  intro id hid
  simp [Database.empty] at hid

theorem complete_saveAgent {db : Database} (hdb : Complete db) (a : Agent) :
    Complete (saveAgent db a) := by
  intro id hid
  rw [FinMap.mem_keys, agents_saveAgent] at hid
  rw [FinMap.mem_keys, sessions_saveAgent]
  by_cases heq : id = a.instanceUID
  · rw [heq, FinMap.find_set_self]
    rfl
  · rw [FinMap.find_set_of_ne _ _ heq, ← FinMap.mem_keys] at hid
    rw [FinMap.find_set_of_ne _ _ heq, ← FinMap.mem_keys]
    exact hdb id hid

theorem complete_softDeleteAgents {db : Database} (hdb : Complete db) (task : List String)
    (now : ℤ) : Complete (softDeleteAgents db task now) := by
  intro id hid
  rw [FinMap.mem_keys, find_agents_softDeleteAgents] at hid
  rw [(tables_softDeleteAgents _ _ _).1]
  apply hdb id
  rw [FinMap.mem_keys]
  split at hid
  · rwa [Option.isSome_map] at hid
  · exact hid

/-- A deletion removes the session rows of the agents it deletes and no others. -/
theorem complete_deleteWhere {db : Database} (hdb : Complete db)
    (chosen : String → AgentRow → Bool) : Complete (deleteWhere db chosen) := by
  intro id hid
  obtain ⟨kept, hkept⟩ := ((deleteWhere db chosen).agents.mem_keys_iff id).mp hid
  rw [find_agents_deleteWhere] at hkept
  obtain ⟨row, hrow, hif⟩ := Option.bind_eq_some_iff.mp hkept
  have hchosen : chosen id row = false := by
    by_contra hne
    simp [Bool.eq_true_of_not_eq_false hne] at hif
  have hsession := (find_deleteWhere_of_kept db chosen id row hrow hchosen).2.1
  have hold : id ∈ db.sessions.keys := hdb id ((db.agents.mem_keys_iff id).mpr ⟨row, hrow⟩)
  rw [FinMap.mem_keys] at hold ⊢
  rw [hsession]
  exact hold

theorem complete_purge {db : Database} (hdb : Complete db) (before : ℤ) :
    Complete (purge db before) := complete_deleteWhere hdb _

theorem complete_saveSession {db db' : Database} {a : Agent} (hdb : Complete db)
    (h : saveSession db a = some db') : Complete db' := by
  obtain ⟨hagents, hsessions, -, -⟩ := saveSession_eq_some h
  intro id hid
  rw [hagents] at hid
  have hold := hdb id hid
  rw [FinMap.mem_keys] at hold
  rw [FinMap.mem_keys, hsessions, FinMap.find_set]
  split
  · rfl
  · exact hold

theorem scanAgent_eq_some {id : String} {row : AgentRow} {config : FinMap String String}
    {session : Option SessionRow} {a : Agent} (h : scanAgent id row config session = some a) :
    a.instanceUID = id ∧ a.evictedAt = row.evictedAt.map readTime := by
  cases session with
  | none => simp [scanAgent] at h
  | some session =>
    obtain rfl := Option.some.inj h
    exact ⟨rfl, rfl⟩

theorem scanAgent_isSome (id : String) (row : AgentRow) (config : FinMap String String)
    (session : Option SessionRow) :
    (scanAgent id row config session).isSome = session.isSome := by
  cases session <;> rfl

@[simp] theorem instanceUID_corrected (now disconnectAfter : ℤ) (a : Agent) :
    (corrected now disconnectAfter a).instanceUID = a.instanceUID := by
  unfold corrected
  split <;> rfl

/-- A scannable row that is not soft-deleted is found by every replica. -/
theorem getAgent_of_live (r : Registry) (db : Database) (id : String) (now : ℤ) (row : AgentRow)
    (hrow : db.agents.find id = some row) (hlive : row.evictedAt = none)
    (hsession : (db.sessions.find id).isSome) :
    ∃ a, getAgent r db id now = some (some a) ∧ a.instanceUID = id := by
  unfold getAgent
  cases hget : r.get id with
  | some a => exact ⟨a, rfl, r.get_keyed id a hget⟩
  | none =>
    have hscan := scanAgent_isSome id row (effectiveConfig db id) (db.sessions.find id)
    rw [hsession] at hscan
    obtain ⟨a, ha⟩ := Option.isSome_iff_exists.mp hscan
    obtain ⟨hid, hevicted⟩ := scanAgent_eq_some ha
    have hnone : a.evictedAt = none := by rw [hevicted, hlive]; rfl
    refine ⟨corrected now r.cfg.disconnectThreshold a, ?_, by simp [hid]⟩
    simp [storedAgent, hrow, ha, hnone]

/-- The whole table can be listed when every row can be scanned. -/
theorem storedAgents_of_complete (db : Database) (hdb : Complete db) :
    ∃ agents, storedAgents db = some agents ∧
      ∀ id row, db.agents.find id = some row → ∃ a ∈ agents, a.instanceUID = id ∧
        a.evictedAt = row.evictedAt.map readTime := by
  have hscan : ∀ id ∈ db.agents.keys.sort (· ≤ ·), ∃ a, ((db.agents.find id).bind fun row =>
      scanAgent id row (effectiveConfig db id) (db.sessions.find id)) = some a := by
    intro id hid
    have hmem : id ∈ db.agents.keys := (Finset.mem_sort _).mp hid
    obtain ⟨row, hrow⟩ := (db.agents.mem_keys_iff id).mp hmem
    have hsome := scanAgent_isSome id row (effectiveConfig db id) (db.sessions.find id)
    rw [(db.sessions.mem_keys id).mp (hdb id hmem)] at hsome
    obtain ⟨a, ha⟩ := Option.isSome_iff_exists.mp hsome
    exact ⟨a, by rw [hrow, Option.bind_some, ha]⟩
  obtain ⟨agents, hagents⟩ := Scans.exists_mapM hscan
  refine ⟨agents, hagents, fun id row hrow => ?_⟩
  have hmem : id ∈ db.agents.keys := (db.agents.mem_keys_iff id).mpr ⟨row, hrow⟩
  obtain ⟨a, ha, hread⟩ := Scans.mem_of_mapM hagents ((Finset.mem_sort _).mpr hmem)
  rw [hrow, Option.bind_some] at hread
  exact ⟨a, ha, scanAgent_eq_some hread⟩

/-- A stored agent that is not soft-deleted appears in the merged view. -/
theorem mem_mergeAgents (loc db : List Agent) (now disconnectAfter : ℤ) (a : Agent) (ha : a ∈ db)
    (hlive : a.evictedAt = none) :
    ∃ b ∈ mergeAgents loc db now disconnectAfter, b.instanceUID = a.instanceUID := by
  unfold mergeAgents
  by_cases hloc : ∃ b ∈ loc, b.instanceUID = a.instanceUID
  · obtain ⟨b, hb, heq⟩ := hloc
    exact ⟨b, List.mem_append_left _ hb, heq⟩
  · refine ⟨corrected now disconnectAfter a, List.mem_append_right _ ?_, by simp⟩
    apply List.mem_map_of_mem
    apply List.mem_filter.mpr
    refine ⟨ha, ?_⟩
    simpa [hlive] using fun b hb heq => hloc ⟨b, hb, heq⟩

end Grex.Reads
